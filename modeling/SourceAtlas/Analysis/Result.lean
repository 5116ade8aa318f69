import SourceAtlas.Clock.Timestamp
import SourceAtlas.Component.Scan
import SourceAtlas.Graph.Basic
import SourceAtlas.Json.Decode
import SourceAtlas.Json.Reader
import SourceAtlas.Json.Writer
import SourceAtlas.Project.FileTree

namespace SourceAtlas

structure Analysis where
  projectId : String
  timestamp : Timestamp
  listing : List Project.FileNode
  dependencies : Graph
  components : List Component
  deriving Repr

open Json (Value Decode)

namespace Project

def fileKinds : List (String × FileKind) := [("file", .file), ("directory", .directory)]

def FileKind.text : FileKind → String
  | .file => "file"
  | .directory => "directory"

namespace FileNode

def optionalField (key : String) (v : Option Value) : List (String × Value) :=
  (v.map (key, ·)).toList

mutual

def toJson : FileNode → Value
  | .mk name path kind size extension children =>
      .object
        ([("name", .text name), ("path", .text path), ("type", .text kind.text)] ++
          optionalField "size" (size.map .natural) ++
          optionalField "extension" (extension.map .text) ++
          optionalField "children" (childrenToJson children))

def childrenToJson : Option (List FileNode) → Option Value
  | none => none
  | some ns => some (.array (listToJson ns))

def listToJson : List FileNode → List Value
  | [] => []
  | n :: r => toJson n :: listToJson r

end

def fieldNames : List String := ["name", "path", "type", "size", "extension", "children"]

def ofJson : Decode FileNode
  | 0, _ | 1, _ => none
  | depth + 2, v => do
      let fs ← Decode.fields fieldNames v
      let children ← match fs.lookup "children" with
        | none | some .null => some none
        | some (.array vs) => if depth = 0 then none else (vs.mapM (ofJson depth)).map some
        | some _ => none
      return .mk (← Decode.required Decode.text (depth + 1) fs "name")
        (← Decode.required Decode.text (depth + 1) fs "path")
        (← Decode.required (Decode.word fileKinds) (depth + 1) fs "type")
        (← Decode.defaulted (Decode.optional (Decode.natural Settings.wordMax)) none (depth + 1) fs
          "size")
        (← Decode.defaulted (Decode.optional Decode.text) none (depth + 1) fs "extension")
        children

end FileNode

end Project

namespace Graph

def toJson (g : Graph) : Value := .object (g.map fun e => (e.1, .texts e.2))

def ofJson : Decode Graph := fun depth v =>
  (Decode.map (Decode.list Decode.text) depth v).map ofList

end Graph

namespace Component

def kinds : List (String × ComponentKind) := [("functional", .functional), ("class", .class)]

def kindText : ComponentKind → String
  | .functional => "functional"
  | .class => "class"

def toJson (c : Component) : Value :=
  .object
    [("name", .text c.name), ("filePath", .text c.filePath), ("type", .text (kindText c.kind)),
     ("hooks", .texts c.hooks), ("props", .texts c.props)]

def fieldNames : List String := ["name", "filePath", "type", "hooks", "props"]

def ofJson : Decode Component
  | 0, _ | 1, _ => none
  | depth + 2, v => do
      let fs ← Decode.fields fieldNames v
      let texts := Decode.defaulted (Decode.list Decode.text) [] (depth + 1) fs
      return ⟨← Decode.required Decode.text (depth + 1) fs "name",
        ← Decode.required Decode.text (depth + 1) fs "filePath",
        ← Decode.required (Decode.word kinds) (depth + 1) fs "type",
        ← texts "hooks", ← texts "props"⟩

end Component

namespace Analysis

def zoneMark : String := "Z"

def toJson (a : Analysis) : Value :=
  .object
    [("projectId", .text a.projectId), ("timestamp", .text (a.timestamp.text zoneMark)),
     ("structure", .array (Project.FileNode.listToJson a.listing)),
     ("dependencies", a.dependencies.toJson),
     ("components", .array (a.components.map Component.toJson))]

def fieldNames : List String :=
  ["projectId", "timestamp", "structure", "dependencies", "components"]

def timestampOf : Decode Timestamp
  | depth, v => (Decode.text depth v).bind Timestamp.ofText?

def ofJson : Decode Analysis
  | 0, _ | 1, _ => none
  | depth + 2, v => do
      let fs ← Decode.fields fieldNames v
      return ⟨← Decode.required Decode.text (depth + 1) fs "projectId",
        ← Decode.required timestampOf (depth + 1) fs "timestamp",
        ← Decode.required (Decode.list Project.FileNode.ofJson) (depth + 1) fs "structure",
        ← Decode.required Graph.ofJson (depth + 1) fs "dependencies",
        ← Decode.required (Decode.list Component.ofJson) (depth + 1) fs "components"⟩

def ofBytes? (b : ByteArray) : Option Analysis :=
  (Value.ofBytes? b).bind (ofJson Json.depthLimit)

end Analysis

end SourceAtlas
