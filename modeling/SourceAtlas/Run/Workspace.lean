import SourceAtlas.Lease
import SourceAtlas.Notice
import SourceAtlas.Repository.Transport
import SourceAtlas.Run.Stage
import SourceAtlas.Task

namespace SourceAtlas.Run

structure Workspace (σ : Type) where
  disk : Disk
  leases : Leases
  -- leases of runs that were given up while some of their work was still waiting for a worker
  pending : Leases
  notices : List Notice
  -- the waits between attempts so far, in order
  waits : List Span
  -- what the transport keeps in mind
  memory : σ

/-- A part of a run. What it did before a failure stays done. -/
abbrev Job (σ : Type) := ExceptT Failure (StateM (Workspace σ))

namespace Workspace

variable {σ : Type}

def ofDisk (d : Disk) (leases : Leases) (memory : σ) : Workspace σ :=
  ⟨d, leases, [], [], [], memory⟩

/-- Work that was left waiting comes to its end, and with it the leases it held. -/
def settle (w : Workspace σ) : Workspace σ :=
  { w with leases := w.leases.filter fun l => !w.pending.contains l, pending := [] }

end Workspace

namespace Job

variable {σ α : Type}

def ofTask (t : Task α) : Job σ α := do
  let w ← get
  match t.run w.disk with
  | (.ok a, d) => set { w with disk := d }; pure a
  | (.error f, d) => set { w with disk := d }; throw f

def ofExcept : Except Failure α → Job σ α
  | .ok a => pure a
  | .error f => throw f

def notice (id text : String) : Job σ Unit :=
  modify fun w => { w with notices := w.notices ++ [⟨id, text⟩] }

def enter (id : String) (s : Stage) : Job σ Unit := notice id ("Stage: " ++ s.text)

end Job

end SourceAtlas.Run
