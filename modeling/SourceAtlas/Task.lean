import SourceAtlas.Disk.Edit
import SourceAtlas.Failure

namespace SourceAtlas

abbrev Work (ε : Type) := ExceptT ε (StateM Disk)

abbrev Task := Work Failure

namespace Work

variable {ε α : Type}

def edit (blame : Disk.Fault → ε) (e : Disk.Edit α) : Work ε α := do
  match e.run (← get) with
  | (.ok a, d) => set d; pure a
  | (.error fault, d) => set d; throw (blame fault)

def query (blame : Disk.Fault → ε) (f : Disk → Except Disk.Fault α) : Work ε α := do
  match f (← get) with
  | .ok a => pure a
  | .error fault => throw (blame fault)

def ofExcept : Except ε α → Work ε α
  | .ok a => pure a
  | .error f => throw f

def toTask (w : Work Diagnostic α) : Task α := do
  match w.run (← get) with
  | (.ok a, d) => set d; pure a
  | (.error e, d) => set d; throw (.internal e)

end Work

def Diagnostic.because (outer : String) (fault : Disk.Fault) : Diagnostic :=
  ⟨outer, [fault.message]⟩

def Diagnostic.ofFault (fault : Disk.Fault) : Diagnostic := .ofText fault.message

end SourceAtlas
