import SourceAtlas.Disk.Locate
import SourceAtlas.Path.Naming

namespace SourceAtlas.Source

structure Scan where
  files : List Path
  -- there were more files than asked for
  truncated : Bool
  deriving DecidableEq, Repr

def filesBelow (d : Disk) : (levels : Nat) → Place → Path → List Path
  | 0, _, _ => []
  | levels + 1, place, path =>
      ((d.children place).filter (fun e => !Name.isExcluded e.1)).flatMap fun e =>
        let here := path.child e.1
        if e.2.isFolder then filesBelow d levels (place ++ [e.1]) here
        else if e.2.isFile && here.isSource then [here]
        else []

def levelsOf (d : Disk) : Nat := d.records.foldl (fun n x => max n x.1.length) 0 + 1

def allFiles (d : Disk) (root : Path) : List Path :=
  match d.stat root with
  | .error _ => []
  | .ok (place, r) =>
      if r.isFolder then filesBelow d (levelsOf d) place root
      else if r.isFile && root.isSource then [root]
      else []

def files (d : Disk) (root : Path) (limit : Nat) : Scan :=
  let all := allFiles d root
  ⟨all.take limit, decide (limit < all.length)⟩

inductive ReadFailure where
  | unreadable (fault : Disk.Fault)
  | tooLarge (bytes : Nat)
  | syntaxErrors
  deriving DecidableEq, Repr

def ReadFailure.message : ReadFailure → String
  | .unreadable fault => "failed to read source file: " ++ fault.message
  | .tooLarge bytes => "source file is " ++ toString bytes ++ " bytes, above the parse limit"
  | .syntaxErrors => "source file has syntax errors"

def reportedSize (r : Disk.Record) : Nat := if r.isFolder then 40 else r.size

def read (d : Disk) (p : Path) (maxBytes : Nat) : Except ReadFailure String :=
  match d.stat p with
  | .error e => .error (.unreadable e)
  | .ok (_, r) =>
      if maxBytes < reportedSize r then .error (.tooLarge (reportedSize r))
      else match d.readText p with
        | .error e => .error (.unreadable e)
        | .ok s => .ok s

end SourceAtlas.Source
