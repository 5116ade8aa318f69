import SourceAtlas.Component.Declaration
import SourceAtlas.Path.Normal
import SourceAtlas.Settings.Basic
import SourceAtlas.Source.Files
import SourceAtlas.Syntax.Program

namespace SourceAtlas

structure Component where
  name : String
  filePath : String
  kind : ComponentKind
  hooks : List String
  props : List String
  deriving DecidableEq, Repr

namespace Component

def ofDeclaration (file : String) (d : Declaration) : Option Component :=
  d.component.map fun kind => ⟨d.name, file, kind, [], []⟩

end Component

namespace Source

def treeOf (file : Path) (text : String) : Syntax.Tree :=
  .ofText (file.extension != some "ts") text

def declarations (file : Path) (text : String) : Except ReadFailure (List Declaration) :=
  let t := treeOf file text
  if t.sound then .ok (Declaration.inTree t) else .error .syntaxErrors

def components (file : Path) (label text : String) : Except ReadFailure (List Component) :=
  (declarations file text).map fun ds => ds.filterMap (Component.ofDeclaration label)

def componentsOf (d : Disk) (file : Path) (label : String) (maxBytes : Nat) :
    Except ReadFailure (List Component) := do
  components file label (← read d file maxBytes)

end Source

structure ComponentScan where
  components : List Component
  skipped : Nat
  truncated : Bool
  deriving DecidableEq, Repr

namespace ComponentScan

def addFile (d : Disk) (root : Path) (maxBytes : Nat) (scan : ComponentScan) (file : Path) :
    ComponentScan :=
  match file.relativeTo root with
  | none => scan
  | some label =>
      match Source.componentsOf d file label maxBytes with
      | .ok found => { scan with components := scan.components ++ found }
      | .error _ => { scan with skipped := scan.skipped + 1 }

def ofProject (d : Disk) (root : Path) (limits : Limits) : ComponentScan :=
  let scan := Source.files d root limits.maxSourceFiles
  scan.files.foldl (addFile d root limits.maxParseBytes) ⟨[], 0, scan.truncated⟩

end ComponentScan

end SourceAtlas
