import SourceAtlas.Disk.Locate
import SourceAtlas.Failure
import SourceAtlas.Path.Naming
import SourceAtlas.Settings.Basic

namespace SourceAtlas.Project

inductive FileKind where
  | file
  | directory
  deriving DecidableEq, Repr

/-- `size` and `extension` belong to files, `children` to directories; a stored listing may lack
or mix them. -/
inductive FileNode where
  | mk (name path : String) (kind : FileKind) (size : Option Nat) (extension : Option String)
      (children : Option (List FileNode))
  deriving Repr

namespace FileNode

def file (name path : String) (size : Nat) (extension : String) : FileNode :=
  .mk name path .file (some size) (some extension) none

def directory (name path : String) (children : List FileNode) : FileNode :=
  .mk name path .directory none none (some children)

def overflow (n : Nat) : FileNode :=
  file ("...and " ++ toString n ++ " more files") "" 0 ""

end FileNode

def hiddenFolders : List Name := [packageFolder, "dist", "build"]

def isListed (e : Name × Disk.Record) : Bool :=
  e.1.toList.head? ≠ some '.' && !hiddenFolders.contains e.1 && !e.2.isLink

def dottedExtension (n : Name) : String :=
  match (Name.splitExtension n).2 with
  | some e => "." ++ e
  | none => ""

def under (above : String) (n : Name) : String := if above.isEmpty then n else above ++ "/" ++ n

/-- `levels` counts the levels that may still be listed, this one included. Names are listed as they
are: those that are no UTF-8, which would be listed with replacement characters, are not covered. -/
def listLevel (d : Disk) (limits : Limits) :
    (levels : Nat) → Place → String → List FileNode
  | 0, _, _ => []
  | levels + 1, place, above =>
      let listed := (d.children place).filter isListed
      let shown := listed.take limits.maxDirEntries
      let nodes := shown.map fun e =>
        if e.2.isFolder then
          .directory e.1 (under above e.1)
            (listLevel d limits levels (place ++ [e.1]) (under above e.1))
        else .file e.1 (under above e.1) e.2.size (dottedExtension e.1)
      if limits.maxDirEntries < listed.length then
        nodes ++ [.overflow (listed.length - limits.maxDirEntries)]
      else nodes

/-- Folders on a disk are never nested deeper than this. -/
def deepest (d : Disk) : Nat := d.records.foldl (fun n x => max n x.1.length) 0

def fileTree (d : Disk) (limits : Limits) (root : Path) : Except Diagnostic (List FileNode) :=
  match d.list root, d.canonical root with
  | .ok _, .ok place =>
      .ok (listLevel d limits (min limits.maxTreeDepth (deepest d + 1) + 1) place "")
  | .error e, _ | _, .error e =>
      .error ⟨"Failed to read project directory " ++ root.text, [e.message]⟩

end SourceAtlas.Project
