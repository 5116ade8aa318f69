import SourceAtlas.Number.Rounding
import SourceAtlas.Repository.Url
import SourceAtlas.Run.Workspace
import SourceAtlas.Text.Redact

namespace SourceAtlas.Run

open Repository

structure CloneOrder where
  id : String
  url : String
  token : Option String
  target : Path

structure CloneReport where
  target : Path
  attempts : Nat
  deriving DecidableEq, Repr

variable {σ : Type}

namespace Job

def resetTarget (target : Path) : Job σ Unit :=
  ofTask (Work.toTask
    (Work.edit (.because ("Failed to prepare clone target " ++ target.text))
      (Disk.emptyFolder target)))

def request (transport : Transport σ) (order : CloneOrder) (timeout : Nat) :
    Job σ (Except Diagnostic Unit) := do
  let w ← get
  let url := authenticated order.token order.url
  let (result, disk, memory) := transport ⟨url, order.target, timeout, w.waits⟩ w.disk w.memory
  set { w with disk := disk, memory := memory }
  return result

def secondsText (s : Span) : String :=
  toString (Number.shortest Number.singleBits (Number.toBits Number.singleBits s.seconds))

def wait (s : Span) : Job σ Unit := modify fun w => { w with waits := w.waits ++ [s] }

def count (attempt : Nat) (policy : RetryPolicy) : String :=
  toString attempt ++ "/" ++ toString policy.maxAttempts

/-- Nothing of a failed attempt stays behind. -/
def giveUp {α : Type} (order : CloneOrder) (failure : CloneFailure) (details : String) :
    Job σ α := do
  notice order.id failure.message
  let w ← get
  match (resetTarget order.target).run w with
  | (.ok _, w) => set w
  | (.error e, w) =>
      set w
      notice order.id ("Could not clear clone target: " ++ e.message)
  throw (.cloneFailed failure details)

def attempts (transport : Transport σ) (policy : RetryPolicy) (order : CloneOrder)
    (timeout : Nat) : (left : Nat) → (attempt : Nat) → Job σ CloneReport
  | left, attempt => do
      resetTarget order.target
      match ← request transport order timeout with
      | .ok _ =>
          notice order.id ("Cloned on attempt " ++ count attempt policy)
          return ⟨order.target, attempt⟩
      | .error e =>
          let details := Text.redactSecret order.token e.chain
          let failure := CloneFailure.classify details
          notice order.id ("Clone attempt " ++ count attempt policy ++ " failed (" ++
            failure.kind ++ "): " ++ details)
          match left with
          | 0 => giveUp order failure details
          | left + 1 =>
              if policy.shouldRetry attempt failure then
                let delay := policy.delayAfter attempt
                notice order.id ("Retrying in " ++ secondsText delay ++ "s")
                wait delay
                attempts transport policy order timeout left (attempt + 1)
              else giveUp order failure details

def clone (transport : Transport σ) (policy : RetryPolicy) (timeout : Nat) (order : CloneOrder) :
    Job σ CloneReport := do
  match checkUrl order.url with
  | .error r => throw (.invalidInput r.message)
  | .ok _ =>
      notice order.id ("Cloning " ++ Text.redactUrl order.url ++ " (shallow)")
      attempts transport policy order timeout (policy.maxAttempts - 1) 1

end Job

end SourceAtlas.Run
