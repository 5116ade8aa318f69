import SourceAtlas.Disk.Edit
import SourceAtlas.Settings.Basic
import SourceAtlas.Text.Search

namespace SourceAtlas

structure Lease where
  -- who has it: a process, or a part of one that keeps its own account of its leases
  holder : String
  id : String
  -- the locked file
  file : Nat
  deriving DecidableEq, Repr

abbrev Leases := List Lease

namespace Leases

def lockPath (folder : Path) (id : String) : Path :=
  folder.join (Path.ofText (id ++ Settings.lockSuffix))

def isHeldBy (ls : Leases) (holder id : String) : Bool :=
  ls.any fun l => l.holder == holder && l.id == id

def isLocked (ls : Leases) (file : Nat) : Bool := ls.any fun l => l.file == file

def lockText : String := "1\n"

def openLock (folder : Path) (id : String) : Disk.Edit Nat := do
  Disk.makeFolders folder
  Disk.openFile (lockPath folder id)

/-- Takes the lease, or answers `none` if somebody has it. -/
def acquire (folder : Path) (holder id : String) (ls : Leases) : Disk.Edit (Option Lease) := do
  if ls.isHeldBy holder id then return none
  else
    let file ← openLock folder id
    if ls.isLocked file then return none
    else
      Disk.writeText (lockPath folder id) lockText
      return some ⟨holder, id, file⟩

def release (holder id : String) (ls : Leases) : Leases :=
  ls.filter fun l => !(l.holder == holder && l.id == id)

/-- Somebody, seen or not by this holder, has the lock on the file. -/
def isLockedOn (d : Disk) (folder : Path) (ls : Leases) (id : String) : Bool :=
  match d.stat (lockPath folder id) with
  | .ok (_, ⟨.file i _ _, _⟩) => ls.isLocked i
  | _ => false

def isActive (d : Disk) (folder : Path) (holder : String) (ls : Leases) (id : String) : Bool :=
  ls.isHeldBy holder id || isLockedOn d folder ls id

def ownerOf (name : Name) : String :=
  let strip (suffix : String) : Option String :=
    (Text.stripSuffix? suffix.toList name.toList).map String.ofList
  ((strip Settings.lockSuffix).or
    ((strip Settings.analysisSuffix).or (strip Settings.archiveSuffix))).getD name

def protects (d : Disk) (folder : Path) (holder : String) (ls : Leases) (name : Name) : Bool :=
  isActive d folder holder ls (ownerOf name)

end Leases

end SourceAtlas
