import SourceAtlas.Analysis.Result
import SourceAtlas.Failure
import SourceAtlas.Path.Normal
import SourceAtlas.Project.Root
import SourceAtlas.Text.Case
import SourceAtlas.Text.Redact

namespace SourceAtlas

namespace Project

def locateFile (d : Disk) (root : Path) (path : String) : Except Failure Path :=
  let relative := Path.ofText (String.ofList (path.toList.dropWhile (· == '/')))
  match root.joinWithin relative with
  | none => .error (.accessDenied path)
  | some here =>
      if d.exists? here then .ok here
      else
        let nested := effectiveRoot d root
        let there := if nested = root then none else nested.joinWithin relative
        match there.filter d.exists? with
        | some p => .ok p
        | none => .error (.archiveMissing here)

def resolved (d : Disk) (p : Path) : Except Failure Place :=
  match d.canonical p with
  | .ok place => .ok place
  | .error e => .error (.internal ⟨"Failed to resolve " ++ p.text, [e.message]⟩)

/-- The text of a file that lies in the project also when links are followed. -/
def contentOf (d : Disk) (root : Path) (path : String) : Except Failure String := do
  let p ← locateFile d root path
  if d.isFolder p then .error (.invalidInput (path ++ " is a directory"))
  else
    let top ← resolved d root
    let place ← resolved d p
    if !top.isPrefixOf place then .error (.accessDenied path)
    else match d.readText (Disk.pathOf place) with
      | .ok s => .ok s
      | .error e =>
          .error (.internal ⟨"Failed to read " ++ (Disk.pathOf place).text, [e.message]⟩)

end Project

structure RelevantFile where
  path : String
  content : String
  deriving DecidableEq, Repr

structure FeatureContext where
  request : String
  componentCount : Nat
  dependencyFileCount : Nat
  files : List RelevantFile
  dependencies : Graph
  deriving Repr

namespace FeatureContext

def candidates (components : List String) (dependencies : Graph) : List String :=
  (components ++ dependencies.keys).foldl (fun seen p => if p ∈ seen then seen else seen ++ [p]) []

def keywords (request : String) : List (List Char) := Text.words (Text.lower request.toList)

def entryMarks : List String := ["App.", "index.", "main."]

def score (path : String) (keywords : List (List Char)) : Nat :=
  let lowered := Text.lower path.toList
  -- counted in thirty-two bits, as a build without overflow checks does
  let points : UInt32 :=
    (keywords.countP (Text.contains · lowered)).toUInt32 * 2 +
      (if Text.containsText "/components/" path then 1 else 0) +
      (if Text.containsText "/pages/" path then 1 else 0) +
      (if entryMarks.any (Text.containsText · path) then 3 else 0)
  points.toNat

def ranked (request : String) (candidates : List String) : List String :=
  let ks := keywords request
  let scored := (candidates.map fun p => (p, score p ks)).filter (0 < ·.2)
  (scored.mergeSort fun a b => b.2 ≤ a.2).map (·.1)

def readAll (d : Disk) (root : Path) (paths : List String) : List RelevantFile × List String :=
  (paths.filterMap fun p =>
      match Project.contentOf d root p with
      | .ok s => some ⟨p, s⟩
      | .error _ => none,
    paths.filterMap fun p =>
      match Project.contentOf d root p with
      | .ok _ => none
      | .error e => some ("Failed to read " ++ p ++ ": " ++ e.message))

def select (d : Disk) (root : Path) (request : String) (components : List String)
    (dependencies : Graph) (maxFiles : Nat) : List RelevantFile × List String :=
  readAll d root ((ranked request (candidates components dependencies)).take maxFiles)

def build (d : Disk) (root : Path) (request : String) (a : Analysis) (maxFiles : Nat) :
    FeatureContext × List String :=
  let (files, warnings) :=
    select d root request (a.components.map (·.filePath)) a.dependencies maxFiles
  (⟨request, a.components.length, a.dependencies.length, files, a.dependencies⟩, warnings)

def line (s : String) : String := s ++ "\n"

def fileDigest (snippet : Nat) (f : RelevantFile) : String :=
  line ("### " ++ f.path) ++ line "```" ++ line (Text.truncate snippet f.content) ++ line "```" ++
    line ""

def dependencyDigest (e : String × List String) : String :=
  if e.2.isEmpty then "" else line (e.1 ++ " -> " ++ ", ".intercalate e.2)

def digest (c : FeatureContext) (snippet : Nat) : String :=
  line ("FEATURE REQUEST: " ++ c.request) ++ line "" ++ line "PROJECT STRUCTURE:" ++
    line ("- Total Components: " ++ toString c.componentCount) ++
    line ("- Total Files: " ++ toString c.dependencyFileCount) ++ line "" ++
    line "RELEVANT FILES:" ++ String.join (c.files.map (fileDigest snippet)) ++
    line "DEPENDENCIES:" ++ String.join (c.dependencies.map dependencyDigest)

def toJson (c : FeatureContext) : Json.Value :=
  .object
    [("request", .text c.request), ("componentCount", .natural c.componentCount),
     ("dependencyFileCount", .natural c.dependencyFileCount),
     ("files", .array (c.files.map fun f =>
       .object [("path", .text f.path), ("content", .text f.content)])),
     ("dependencies", c.dependencies.toJson)]

end FeatureContext

end SourceAtlas
