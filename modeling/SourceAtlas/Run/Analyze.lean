import SourceAtlas.Archive.Extract
import SourceAtlas.Component.Scan
import SourceAtlas.Graph.Extract
import SourceAtlas.Project.Id
import SourceAtlas.Project.Root
import SourceAtlas.Run.Clone
import SourceAtlas.Store

namespace SourceAtlas.Run

open Repository

structure Analyzer (σ : Type) where
  settings : Settings
  -- on whose account leases are taken
  holder : String
  transport : Transport σ
  -- no worker is free
  isBusy : Bool := false

namespace Analyzer

variable {σ α : Type} (a : Analyzer σ)

def start (id : String) : Job σ Lease := do
  if let .error r := Project.checkId id then throw (.invalidInput r.message)
  let w ← get
  let acquire := Leases.acquire a.settings.projectsDir a.holder id w.leases
  let blame := fun fault =>
    Failure.internal (.because ("Failed to lock project " ++ id) fault)
  match ← Job.ofTask (Work.edit blame acquire) with
  | none => throw (.alreadyRunning id)
  | some lease =>
      modify fun w => { w with leases := lease :: w.leases }
      Job.enter id .initializing
      return lease

def report (operation id : String) (f : Failure) : Job σ Unit := do
  Job.enter id (.failed f.message)
  let w ← get
  match (Store.recordFailure a.settings operation id f).run w.disk with
  | (.ok _, d) => set { w with disk := d }
  | (.error e, d) =>
      set { w with disk := d }
      Job.notice id ("Could not write error log: " ++ e.chain)

/-- Gives the lease back, unless work that was left waiting keeps it. -/
def finish (lease : Lease) : Job σ Unit :=
  modify fun w =>
    if w.pending.contains lease then w
    else { w with leases := w.leases.release lease.holder lease.id }

def leased (operation id : String) (job : Lease → Job σ α) : Job σ α := do
  let lease ← a.start id
  match (job lease).run (← get) with
  | (.ok r, w) => do
      set w
      finish lease
      return r
  | (.error f, w) => do
      set w
      a.report operation id f
      finish lease
      throw f

def cloneJob (id url : String) (token : Option String) : Job σ Path := do
  Job.enter id .materializing
  let c := a.settings.clone
  let report ← Job.clone a.transport (.ofAttempts c.maxAttempts (.ofSeconds c.backoffBase))
    c.attemptTimeout ⟨id, url, token, a.settings.projectDir id⟩
  return report.target

/-- Time runs out at once if there is none, and it also does while no worker is free. -/
def isOverdue (seconds : Nat) : Bool := a.isBusy || seconds = 0

/-- The look at an archive has a time limit of its own; the shorter limit counts. -/
def inspectInTime (zip : Path) : Job σ Archive.Report := do
  let limits := a.settings.limits
  let own := limits.archiveValidationTimeout
  let whole := limits.analysisTimeout
  if a.isOverdue own || a.isOverdue whole then
    throw (if own ≤ whole then Archive.inspectionOverdue else .timedOut whole)
  Job.ofExcept (Archive.inspect (← get).disk zip limits)

def materialize (id : String) (zip : Option Path) : Job σ Path := do
  let target := a.settings.projectDir id
  match zip with
  | some zip =>
      let r ← a.inspectInTime zip
      Job.notice id ("Extracting " ++ toString r.fileCount ++ " files")
      discard (Job.ofTask (Archive.extract zip target a.settings.limits.maxUncompressedBytes))
  | none => if !(← get).disk.isFolder target then throw (.projectMissing id)
  let root := Project.effectiveRoot (← get).disk target
  if root ≠ target then Job.notice id ("Using nested root " ++ root.text)
  return root

/-- A run that runs out of time here leaves work behind that keeps its lease. -/
def buildTree (lease : Lease) (root : Path) : Job σ (List Project.FileNode) := do
  Job.enter lease.id .buildingTree
  let whole := a.settings.limits.analysisTimeout
  if a.isOverdue whole then
    if a.isBusy then modify fun w => { w with pending := lease :: w.pending }
    throw (.timedOut whole)
  match Project.fileTree (← get).disk a.settings.limits root with
  | .ok tree => return tree
  | .error e => throw (.internal e)

def warnings (g : Graph.Extraction) (c : ComponentScan) (limits : Limits) : List String :=
  (g.degraded.map fun reason =>
      "Graph extraction degraded to " ++ g.strategy ++ ": " ++ reason).toList ++
    (if c.truncated then
      ["Source file limit of " ++ toString limits.maxSourceFiles ++
        " reached; remaining files were not analyzed"]
    else []) ++
    (if 0 < c.skipped then
      ["Skipped " ++ toString c.skipped ++ " source files that could not be parsed"]
    else [])

def extract (id : String) (root : Path) : Job σ (Graph × List Component) := do
  Job.enter id .extractingGraph
  Job.enter id .extractingComponents
  let d := (← get).disk
  let g := Graph.ofProject d root a.settings.limits
  let c := ComponentScan.ofProject d root a.settings.limits
  (warnings g c a.settings.limits).forM (Job.notice id)
  return (g.graph, c.components)

def analyzeJob (lease : Lease) (zip : Option Path) : Job σ Analysis := do
  let id := lease.id
  Job.enter id .materializing
  let root ← a.materialize id zip
  let tree ← a.buildTree lease root
  let (graph, components) ← a.extract id root
  Job.enter id .assembling
  let result : Analysis := ⟨id, .ofNanos (← get).disk.now, tree, graph, components⟩
  let path ← Job.ofTask (Store.save a.settings result).toTask
  Job.enter id .persisted
  Job.notice id ("Analysis saved to " ++ path.text)
  return result

def analyze (id : String) (zip : Option Path) : Job σ Analysis :=
  a.leased "Analysis" id fun lease => a.analyzeJob lease zip

def clone (id url : String) (token : Option String) : Job σ Path :=
  a.leased "Clone" id fun _ => a.cloneJob id url token

def analyzeRepository (id url : String) (token : Option String) : Job σ Analysis :=
  a.leased "Analysis" id fun lease => do
    discard (a.cloneJob id url token)
    a.analyzeJob lease none

end Analyzer

end SourceAtlas.Run
