import SourceAtlas.Failure
import SourceAtlas.Lease
import SourceAtlas.Notice
import SourceAtlas.Repository.Retry

namespace SourceAtlas.Retention

def age (d : Disk) (r : Disk.Record) : Nat := (d.now - r.changed).toNat

def isPast (d : Disk) (limit : Span) (r : Disk.Record) : Bool := limit.nanos < age d r

def isExpired (d : Disk) (maxAge : Nat) (r : Disk.Record) : Bool := isPast d (.ofSeconds maxAge) r

structure Sweep where
  disk : Disk
  removed : List Name
  notices : List Notice

def sweepEntry (dir : Path) (holder : String) (folder : Path) (leases : Leases)
    (limit : Span) (s : Sweep) (e : Name × Disk.Record) : Sweep :=
  if leases.protects s.disk folder holder e.1 || !isPast s.disk limit e.2 then s
  else
    let p := dir.child e.1
    let drop := if e.2.isFolder then Disk.removeTree p else Disk.removeFile p
    match drop.run s.disk with
    | (.ok _, d) =>
        ⟨d, s.removed ++ [e.1], s.notices ++ [⟨dir.text, "Removed expired " ++ e.1⟩]⟩
    | (.error fault, d) =>
        { s with
          disk := d
          notices := s.notices ++
            [⟨dir.text, "Failed to remove " ++ e.1 ++ ": " ++ fault.message⟩] }

def sweepEntries (dir : Path) (holder : String) (folder : Path) (leases : Leases) (limit : Span)
    (d : Disk) (entries : List (Name × Disk.Record)) : Sweep :=
  let s := entries.foldl (sweepEntry dir holder folder leases limit) ⟨d, [], []⟩
  { s with removed := s.removed.mergeSort Disk.before }

/-- Takes away what is due in `dir`. `folder` is where the locks are, and `order` is how the disk
lists the entries. -/
def sweepListed (order : List (Name × Disk.Record) → List (Name × Disk.Record)) (d : Disk)
    (dir : Path) (limit : Span) (holder : String) (folder : Path) (leases : Leases) :
    Except Diagnostic Sweep :=
  if !d.exists? dir then .ok ⟨d, [], []⟩
  else match d.list dir with
    | .error fault => .error ⟨"Failed to read " ++ dir.text, [fault.message]⟩
    | .ok entries => .ok (sweepEntries dir holder folder leases limit d (order entries))

def sweep (d : Disk) (dir : Path) (maxAge : Nat) (holder : String) (folder : Path)
    (leases : Leases) : Except Diagnostic Sweep :=
  sweepListed id d dir (.ofSeconds maxAge) holder folder leases

end SourceAtlas.Retention
