import SourceAtlas.Graph.Module
import SourceAtlas.Import.Pattern

namespace SourceAtlas.Graph

def scannedTargets (d : Disk) (root file : Path) (text : String) : List String :=
  let found := ((Import.specifiers text).filter Import.isRelative).filterMap fun s =>
    (Import.resolve d root file s).bind (·.relativeTo root)
  distinct found

def scannedEntry (d : Disk) (root : Path) (maxBytes : Nat) (file : Path) :
    Option (String × List String) :=
  match Source.read d file maxBytes with
  | .error _ => none
  | .ok text =>
      match scannedTargets d root file text with
      | [] => none
      | targets => (file.relativeTo root).map (·, targets)

def ofScan (d : Disk) (root : Path) (maxFiles maxBytes : Nat) : Outcome :=
  if !d.isFolder root then .failed (.ofText (root.text ++ " is not a directory"))
  else
    match (Source.files d root maxFiles).files.filterMap (scannedEntry d root maxBytes) with
    | [] => .empty
    | entries => .graph (ofList entries)

end SourceAtlas.Graph
