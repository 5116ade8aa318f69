import SourceAtlas.Proofs.Run.Attempts
import SourceAtlas.Proofs.Run.Script

namespace SourceAtlas

open Work

namespace Archive

open Run

def unpacking (archive target : Path) (maxBytes : Nat) : Chain Tally := do
  Chain.ofTask (do
    if !(← get).exists? archive then throw (.archiveMissing archive)
    Work.edit (blame archive) (Disk.makeFolders target))
  let b ← Chain.ofTask (Work.query (blame archive) (·.readBytes archive))
  let es ← Chain.ofTask (Work.ofExcept (orFailure archive (entries b)))
  let t ← es.foldlM (fun t e => Chain.ofTask (extractEntry archive target maxBytes b t e)) {}
  Chain.ofTask (discard (Work.edit (blame archive) (removeDependencies target)))
  return t

theorem play_unpacking (archive target : Path) (maxBytes : Nat) :
    (unpacking archive target maxBytes).play = extract archive target maxBytes := by
  simp only [unpacking, Chain.play_bind, Chain.play_ofTask, Chain.play_foldlM, Chain.play_pure,
    extract, bind_assoc]
  refine bind_congr fun d => ?_
  split <;> rfl

end Archive

namespace Run

open Repository

variable {σ α β γ : Type}

theorem Job.ext {j j' : Job σ α} (h : ∀ w, j.run w = j'.run w) : j = j' := funext h

namespace Script

def reset (target : Path) : Task Unit :=
  Work.toTask
    (Work.edit (.because ("Failed to prepare clone target " ++ target.text))
      (Disk.emptyFolder target))

def giveUp (order : CloneOrder) (failure : CloneFailure) (details : String) : Script σ α := do
  lift (Job.notice order.id failure.message)
  match ← awaitOne .reset (Chain.attempt (reset order.target)) false [] with
  | .ok _ => pure ()
  | .error e => lift (Job.notice order.id ("Could not clear clone target: " ++ e.message))
  .failed false (.cloneFailed failure details)

def attempts (transport : Transport σ) (policy : RetryPolicy) (order : CloneOrder)
    (timeout : Nat) : (left : Nat) → (attempt : Nat) → Script σ CloneReport
  | left, attempt => do
      awaitOne .reset (Chain.ofTask (reset order.target)) false []
      match ← lift (Job.request transport order timeout) with
      | .ok _ =>
          lift (Job.notice order.id ("Cloned on attempt " ++ Job.count attempt policy))
          return ⟨order.target, attempt⟩
      | .error e =>
          let details := Text.redactSecret order.token e.chain
          let failure := CloneFailure.classify details
          lift (Job.notice order.id ("Clone attempt " ++ Job.count attempt policy ++ " failed (" ++
            failure.kind ++ "): " ++ details))
          match left with
          | 0 => giveUp order failure details
          | left + 1 =>
              if policy.shouldRetry attempt failure then
                let delay := policy.delayAfter attempt
                lift (Job.notice order.id ("Retrying in " ++ Job.secondsText delay ++ "s"))
                lift (Job.wait delay)
                attempts transport policy order timeout left (attempt + 1)
              else giveUp order failure details

def clone (transport : Transport σ) (policy : RetryPolicy) (timeout : Nat) (order : CloneOrder) :
    Script σ CloneReport :=
  match checkUrl order.url with
  | .error r => .failed true (.invalidInput r.message)
  | .ok _ => do
      lift (Job.notice order.id ("Cloning " ++ Text.redactUrl order.url ++ " (shallow)"))
      attempts transport policy order timeout (policy.maxAttempts - 1) 1

section

variable (isBusy : Bool) (lease : Lease)

theorem overdue_nil : overdue isBusy [] = none := rfl

theorem overdue_one (l : Limit) :
    overdue isBusy [l] = if (isBusy || decide (l.seconds = 0)) = true then some l else none := by
  cases h : isBusy || decide (l.seconds = 0) <;> simp [overdue, soonest, Option.filter, h]

theorem overdue_two (l m : Limit) : overdue isBusy [l, m] =
    if (isBusy || decide (l.seconds = 0) || (isBusy || decide (m.seconds = 0))) = true then
      some (if l.seconds ≤ m.seconds then l else m)
    else none := by
  by_cases hle : l.seconds ≤ m.seconds
  · have hzero : m.seconds = 0 → l.seconds = 0 := by omega
    simp only [overdue, soonest, if_pos hle, Option.filter]
    by_cases hl : l.seconds = 0 <;> by_cases hm : m.seconds = 0 <;> simp_all
  · have hzero : l.seconds ≠ 0 := by omega
    simp only [overdue, soonest, if_neg hle, Option.filter]
    by_cases hm : m.seconds = 0 <;> simp [hzero, hm]

theorem ofTask_query (f : Disk → Except Failure β) :
    (Job.ofTask (Chain.ofQuery f).play : Job σ β) =
      (do let w ← MonadState.get; Job.ofExcept (f w.disk)) := by
  refine Job.ext fun w => ?_
  have hplay : (Chain.ofQuery f).play.run w.disk = (f w.disk, w.disk) := run_ofExcept _ _
  rw [Job.ofTask_run, hplay, Work.run_bind, Work.run_get]
  dsimp only
  cases f w.disk <;> rfl

theorem resetTarget_eq (target : Path) :
    (Job.resetTarget target : Job σ Unit) = Job.ofTask (reset target) := rfl

theorem run_reset (target : Path) :
    (awaitOne .reset (Chain.ofTask (reset target)) false [] : Script σ Unit).run isBusy lease =
      Job.resetTarget target := by
  rw [run_awaitOne _ _ (overdue_nil _), Chain.play_ofTask]
  rfl

theorem run_giveUp (order : CloneOrder) (failure : CloneFailure) (details : String) :
    (giveUp order failure details : Script σ α).run isBusy lease =
      Job.giveUp order failure details := by
  refine Job.ext fun w => ?_
  simp only [giveUp, run_bind, run_lift, run_awaitOne _ _ (overdue_nil _), Job.giveUp,
    Work.run_bind, Job.notice_run, Work.run_get, resetTarget_eq, Job.ofTask_run]
  have hplay : ∀ d, (Chain.attempt (reset order.target)).play.run d =
      (.ok ((reset order.target).run d).1, ((reset order.target).run d).2) := fun _ => rfl
  rw [hplay]
  rcases (reset order.target).run w.disk with ⟨_ | _, d⟩ <;> rfl

theorem run_attempts (transport : Transport σ) (policy : RetryPolicy) (order : CloneOrder)
    (timeout left attempt : Nat) :
    (attempts transport policy order timeout left attempt).run isBusy lease =
      Job.attempts transport policy order timeout left attempt := by
  induction left, attempt using Job.attempts.induct with
  | case1 left attempt ih =>
      rw [attempts, Job.attempts]
      simp only [run_bind, run_reset, run_lift]
      refine bind_congr fun _ => bind_congr fun r => ?_
      cases r with
      | ok _ => simp only [run_bind, run_lift, run_pure]
      | error e =>
          simp only [run_bind, run_lift]
          refine bind_congr fun _ => ?_
          cases left with
          | zero => exact run_giveUp isBusy lease order _ _
          | succ left =>
              dsimp only at ih ⊢
              split
              · simp only [run_bind, run_lift, ih]
              · exact run_giveUp isBusy lease order _ _

theorem run_clone (transport : Transport σ) (policy : RetryPolicy) (order : CloneOrder)
    (timeout : Nat) :
    (clone transport policy timeout order).run isBusy lease =
      Job.clone transport policy timeout order := by
  unfold clone Job.clone
  cases checkUrl order.url with
  | error r => rfl
  | ok _ => simp only [run_bind, run_lift, run_attempts]

end

end Script

namespace Analyzer

variable (a : Analyzer σ)

def cloneScript (id url : String) (token : Option String) : Script σ Path := do
  Script.lift (Job.enter id .materializing)
  let c := a.settings.clone
  let report ← Script.clone a.transport (.ofAttempts c.maxAttempts (.ofSeconds c.backoffBase))
    c.attemptTimeout ⟨id, url, token, a.settings.projectDir id⟩
  return report.target

def whole : Limit :=
  ⟨a.settings.limits.analysisTimeout, .timedOut a.settings.limits.analysisTimeout, false⟩

def own : Limit :=
  ⟨a.settings.limits.archiveValidationTimeout, Archive.inspectionOverdue, true⟩

def lookScript (zip : Path) : Script σ Archive.Report :=
  .awaitOne .look (.ofQuery fun d => Archive.inspect d zip a.settings.limits) true [a.own, a.whole]

def rootScript (id : String) : Script σ Path := do
  let target := a.settings.projectDir id
  let root := Project.effectiveRoot (← Script.get).disk target
  if root ≠ target then Script.lift (Job.notice id ("Using nested root " ++ root.text))
  return root

def materializeScript (id : String) (zip : Option Path) : Script σ Path := do
  let target := a.settings.projectDir id
  match zip with
  | some zip =>
      let r ← a.lookScript zip
      Script.lift (Job.notice id ("Extracting " ++ toString r.fileCount ++ " files"))
      discard (Script.awaitOne .unpack
        (Archive.unpacking zip target a.settings.limits.maxUncompressedBytes) false [a.whole])
      a.rootScript id
  | none =>
      if !(← Script.get).disk.isFolder target then Script.failed false (.projectMissing id)
      else a.rootScript id

def treeScript (id : String) (root : Path) : Script σ (List Project.FileNode) := do
  Script.lift (Job.enter id .buildingTree)
  Script.awaitOne .list
    (.ofQuery fun d => (Project.fileTree d a.settings.limits root).mapError .internal) false [a.whole]

def gatherScript (id : String) (root : Path) : Script σ (Graph × List Component) := do
  Script.lift (Job.enter id .extractingGraph)
  Script.lift (Job.enter id .extractingComponents)
  let limits := a.settings.limits
  let (g, c) ← Script.await
    (.ready ⟨.graph, .ofQuery fun d => .ok (Graph.ofProject d root limits)⟩)
    (.ready ⟨.components, .ofQuery fun d => .ok (ComponentScan.ofProject d root limits)⟩)
    false [a.whole] fun g c => Script.done (g, c)
  Script.lift ((warnings g c limits).forM (Job.notice id))
  return (g.graph, c.components)

def analyzeScript (id : String) (zip : Option Path) : Script σ Analysis := do
  Script.lift (Job.enter id .materializing)
  let root ← a.materializeScript id zip
  let tree ← a.treeScript id root
  let (graph, components) ← a.gatherScript id root
  Script.lift (Job.enter id .assembling)
  let result : Analysis := ⟨id, .ofNanos (← Script.get).disk.now, tree, graph, components⟩
  let path ← Script.awaitOne .save (.ofTask (Store.save a.settings result).toTask) false []
  Script.lift (Job.enter id .persisted)
  Script.lift (Job.notice id ("Analysis saved to " ++ path.text))
  return result

section

variable (lease : Lease)

theorem run_cloneScript (id url : String) (token : Option String) :
    (a.cloneScript id url token).run a.isBusy lease = a.cloneJob id url token := by
  simp only [cloneScript, Script.run_bind, Script.run_lift, Script.run_clone, Script.run_pure, cloneJob]

theorem run_lookScript (zip : Path) :
    (a.lookScript zip).run a.isBusy lease = a.inspectInTime zip := by
  have h : overdue a.isBusy [a.own, a.whole] = if (a.isOverdue a.own.seconds ||
      a.isOverdue a.whole.seconds) = true then some (if a.own.seconds ≤ a.whole.seconds then a.own
        else a.whole) else none := Script.overdue_two ..
  unfold inspectInTime
  dsimp only
  split
  · next ho =>
      rw [if_pos (by exact ho)] at h
      rw [lookScript, Script.run_awaitOne_overdue _ _ h]
      rw [Kind.carriesLease, Bool.and_false, if_neg (by decide), apply_ite Limit.failure]
      rfl
  · next ho =>
      rw [if_neg (by exact ho)] at h
      rw [lookScript, Script.run_awaitOne _ _ h]
      exact Script.ofTask_query _

theorem overdue_whole : overdue a.isBusy [a.whole] =
    if a.isOverdue a.settings.limits.analysisTimeout = true then some a.whole else none :=
  Script.overdue_one ..

theorem inspectInTime_overdue (zip : Path)
    (h : a.isOverdue a.settings.limits.analysisTimeout = true) :
    ∃ f, a.inspectInTime zip = throw f := by
  unfold inspectInTime
  dsimp only
  rw [if_pos (by rw [h, Bool.or_true])]
  exact ⟨_, rfl⟩

theorem run_rootScript (id : String) : (a.rootScript id).run a.isBusy lease = (do
    let w ← get
    let root := Project.effectiveRoot w.disk (a.settings.projectDir id)
    if root ≠ a.settings.projectDir id then Job.notice id ("Using nested root " ++ root.text)
    return root : Job σ Path) := by
  simp only [rootScript, Script.run_bind, Script.run_get]
  refine bind_congr fun w => ?_
  split <;> simp only [Script.run_bind, Script.run_lift, Script.run_pure]

theorem run_materializeScript (id : String) (zip : Option Path) :
    (a.materializeScript id zip).run a.isBusy lease = a.materialize id zip := by
  unfold materializeScript materialize
  dsimp only
  cases zip with
  | none =>
      simp only [Script.run_bind, Script.run_get]
      refine bind_congr fun w => ?_
      split
      · rfl
      · exact a.run_rootScript lease id
  | some zip =>
      simp only [Script.run_bind, run_lookScript]
      cases ho : a.isOverdue a.settings.limits.analysisTimeout with
      | true =>
          obtain ⟨f, hf⟩ := a.inspectInTime_overdue zip ho
          rw [hf]
          rfl
      | false =>
          have h := a.overdue_whole
          rw [ho, if_neg (by decide)] at h
          simp only [Script.run_lift, Script.run_discard, Script.run_awaitOne _ _ h,
            Archive.play_unpacking, run_rootScript]

theorem run_treeScript (root : Path) :
    (a.treeScript lease.id root).run a.isBusy lease = a.buildTree lease root := by
  have h := a.overdue_whole
  unfold treeScript buildTree
  simp only [Script.run_bind, Script.run_lift]
  refine bind_congr fun _ => ?_
  split
  · next ho =>
      rw [if_pos ho] at h
      rw [Script.run_awaitOne_overdue _ _ h]
      cases a.isBusy <;> rfl
  · next ho =>
      rw [if_neg ho] at h
      rw [Script.run_awaitOne _ _ h, Script.ofTask_query]
      refine bind_congr fun w => ?_
      cases Project.fileTree w.disk a.settings.limits root <;> rfl

theorem buildTree_overdue (root : Path) (h : a.isOverdue a.settings.limits.analysisTimeout = true)
    (k k' : List Project.FileNode → Job σ α) :
    a.buildTree lease root >>= k = a.buildTree lease root >>= k' := by
  unfold buildTree
  simp only [bind_assoc]
  refine bind_congr fun _ => ?_
  rw [if_pos h]
  cases a.isBusy <;> rfl

theorem run_gatherScript (id : String) (root : Path)
    (ho : a.isOverdue a.settings.limits.analysisTimeout = false) :
    (a.gatherScript id root).run a.isBusy lease = a.extract id root := by
  have h := a.overdue_whole
  rw [ho, if_neg (by decide)] at h
  unfold gatherScript extract
  simp only [Script.run_bind, Script.run_lift, Script.run, h, Slot.rest, Script.ofTask_query,
    bind_assoc]
  refine bind_congr fun _ => bind_congr fun _ => Job.ext fun w => ?_
  simp only [Job.ofExcept, pure_bind, Script.run_pure, Work.run_bind, Work.run_get]

theorem run_analyzeScript (zip : Option Path) :
    (a.analyzeScript lease.id zip).run a.isBusy lease = a.analyzeJob lease zip := by
  unfold analyzeScript analyzeJob
  simp only [Script.run_bind, Script.run_lift, run_materializeScript, run_treeScript]
  refine bind_congr fun _ => bind_congr fun root => ?_
  cases ho : a.isOverdue a.settings.limits.analysisTimeout with
  | true => exact a.buildTree_overdue lease root ho _ _
  | false =>
      simp only [a.run_gatherScript lease lease.id root ho, Script.run_get,
        Script.run_awaitOne _ _ (Script.overdue_nil _), Chain.play_ofTask, Script.run_pure]

end

theorem start_run (id : String) (w : Workspace σ) : (a.start id).run w =
    match Project.checkId id with
    | .error r => (.error (.invalidInput r.message), w)
    | .ok _ =>
        match (Leases.acquire a.settings.projectsDir a.holder id w.leases).run w.disk with
        | (.error fault, d) => (.error (.internal (.because ("Failed to lock project " ++ id) fault)),
            { w with disk := d })
        | (.ok none, d) => (.error (.alreadyRunning id), { w with disk := d })
        | (.ok (some lease), d) => (.ok lease, { w with
            disk := d
            leases := lease :: w.leases
            notices := w.notices ++ [⟨id, "Stage: " ++ Stage.text .initializing⟩] }) := by
  unfold start
  dsimp only
  cases Project.checkId id with
  | error r => rfl
  | ok _ =>
      dsimp only
      rw [Work.run_bind, Work.run_get]
      dsimp only
      rw [Work.run_bind, Job.ofTask_run, run_edit]
      rcases (Leases.acquire a.settings.projectsDir a.holder id w.leases).run w.disk with
        ⟨_ | _ | lease, d⟩ <;> rfl

theorem start_id {id : String} {lease : Lease} {w w' : Workspace σ}
    (h : (a.start id).run w = (.ok lease, w')) : lease.id = id := by
  rw [start_run] at h
  split at h
  · cases h
  · split at h
    · cases h
    · cases h
    · next hacquire =>
        cases h
        exact Leases.acquire_id hacquire

end Analyzer

/-- What a run is asked to do for a project. -/
inductive CallKind where
  | analyze (zip : Option Path)
  | clone (url : String) (token : Option String)
  | analyzeRepository (url : String) (token : Option String)

namespace CallKind

def operation : CallKind → String
  | .clone .. => "Clone"
  | _ => "Analysis"

variable (a : Analyzer σ)

def script (id : String) : CallKind → Script σ Unit
  | .analyze zip => discard (a.analyzeScript id zip)
  | .clone url token => discard (a.cloneScript id url token)
  | .analyzeRepository url token => do
      discard (a.cloneScript id url token)
      discard (a.analyzeScript id none)

def run (id : String) : CallKind → Job σ Unit
  | .analyze zip => discard (a.analyze id zip)
  | .clone url token => discard (a.clone id url token)
  | .analyzeRepository url token => discard (a.analyzeRepository id url token)

def telling (id : String) : CallKind → Script σ (Option Analysis)
  | .analyze zip => some <$> a.analyzeScript id zip
  | .clone url token => (fun _ => none) <$> a.cloneScript id url token
  | .analyzeRepository url token => do
      discard (a.cloneScript id url token)
      some <$> a.analyzeScript id none

def answer (id : String) : CallKind → Job σ (Option Analysis)
  | .analyze zip => some <$> a.analyze id zip
  | .clone url token => (fun _ => none) <$> a.clone id url token
  | .analyzeRepository url token => some <$> a.analyzeRepository id url token

variable {a} {id : String}

theorem map_leased {β : Type} (f : α → β) (operation : String) (job : Lease → Job σ α) :
    f <$> a.leased operation id job = a.leased operation id fun lease => f <$> job lease := by
  unfold Analyzer.leased
  refine Job.ext fun w => ?_
  rw [run_map, Work.run_bind, Work.run_bind]
  rcases (a.start id).run w with ⟨_ | lease, w₁⟩
  · rfl
  · dsimp only
    rw [Work.run_bind, Work.run_bind, Work.run_get]
    dsimp only
    rw [run_map]
    rcases (job lease).run w₁ with ⟨_ | _, w₂⟩
    · dsimp only
      simp only [Work.run_bind, Work.run_set]
      rcases (a.report operation id _).run w₂ with ⟨_ | _, w₃⟩ <;> rfl
    · rfl

theorem discard_leased (operation : String) (job : Lease → Job σ α) :
    discard (a.leased operation id job) = a.leased operation id fun lease => discard (job lease) :=
  map_leased (Function.const α PUnit.unit) operation job

theorem leased_congr {operation : String} {job job' : Lease → Job σ α}
    (h : ∀ lease, lease.id = id → job lease = job' lease) :
    a.leased operation id job = a.leased operation id job' := by
  unfold Analyzer.leased
  refine Job.ext fun w => ?_
  rw [Work.run_bind, Work.run_bind]
  rcases hs : (a.start id).run w with ⟨_ | lease, w₁⟩
  · rfl
  · dsimp only
    rw [h lease (a.start_id hs)]

theorem run_eq (e : CallKind) : e.run a id =
    a.leased e.operation id fun lease => (e.script a id).run a.isBusy lease := by
  cases e with
  | analyze zip =>
      refine (discard_leased _ _).trans (leased_congr fun lease hl => ?_)
      subst hl
      rw [script, Script.run_discard, Analyzer.run_analyzeScript]
  | clone url token =>
      refine (discard_leased _ _).trans (leased_congr fun lease _ => ?_)
      rw [script, Script.run_discard, Analyzer.run_cloneScript]
  | analyzeRepository url token =>
      refine (discard_leased _ _).trans (leased_congr fun lease hl => ?_)
      subst hl
      simp only [script, Script.run_bind, Script.run_discard, Analyzer.run_analyzeScript,
        Analyzer.run_cloneScript]
      refine Job.ext fun w => ?_
      rw [run_discard, Work.run_bind, Work.run_bind]
      rcases (discard (a.cloneJob lease.id url token) : Job σ PUnit).run w with ⟨_ | _, w'⟩
      · rfl
      · exact (run_discard _ _).symm

theorem answer_eq (e : CallKind) : e.answer a id =
    a.leased e.operation id fun lease => (e.telling a id).run a.isBusy lease := by
  cases e with
  | analyze zip =>
      refine (map_leased _ _ _).trans (leased_congr fun lease hl => ?_)
      subst hl
      rw [telling, Script.run_map, Analyzer.run_analyzeScript]
  | clone url token =>
      refine (map_leased _ _ _).trans (leased_congr fun lease _ => ?_)
      rw [telling, Script.run_map, Analyzer.run_cloneScript]
  | analyzeRepository url token =>
      refine (map_leased _ _ _).trans (leased_congr fun lease hl => ?_)
      subst hl
      simp only [telling, Script.run_bind, Script.run_discard, Script.run_map, map_bind,
        Analyzer.run_analyzeScript, Analyzer.run_cloneScript]

end CallKind

/-- The act leaves alone what the run holds. -/
def Calm (g : Workspace σ → Workspace σ) : Prop :=
  ∀ w, (g w).leases = w.leases ∧ (g w).pending = w.pending

def Minded (x : Slot β) (y : Slot γ) (ls : List Limit) : Prop :=
  (x.IsSpare ∧ y.IsSpare) ∨ ls = [] ∧ ∃ c, y = .back (.ok c)

def Awaited (x : Slot β) (y : Slot γ) (ls : List Limit) : Prop :=
  (x.IsFresh ∧ y.IsFresh) ∧ Minded x y ls

abbrev Script.Orderly (s : Script σ α) : Prop := s.Every Calm Awaited

namespace Script

theorem orderly_notice (id text : String) : (lift (Job.notice id text) : Script σ Unit).Orderly :=
  .lift fun _ => ⟨rfl, rfl⟩

theorem orderly_get : (get : Script σ (Workspace σ)).Orderly := .get fun _ => ⟨rfl, rfl⟩

theorem orderly_reset (c : Chain α) : (awaitOne .reset c false [] : Script σ α).Orderly :=
  .awaitOne ⟨⟨trivial, trivial⟩, .inr ⟨rfl, _, rfl⟩⟩

theorem orderly_await {kind : Kind} (h : kind.carriesLease = true ∨ kind = .look) (c : Chain α)
    (r : Bool) (limits : List Limit) : (awaitOne kind c r limits : Script σ α).Orderly :=
  .awaitOne ⟨⟨trivial, trivial⟩, .inl ⟨h, trivial⟩⟩

theorem orderly_giveUp (order : CloneOrder) (failure : CloneFailure) (details : String) :
    (giveUp order failure details : Script σ α).Orderly := by
  refine .bind (orderly_notice _ _) fun _ => .bind (orderly_reset _) fun r => ?_
  cases r with
  | ok _ => exact .failed _ _
  | error e => exact .bind (orderly_notice _ _) fun _ => .failed _ _

theorem orderly_attempts (transport : Transport σ) (policy : RetryPolicy) (order : CloneOrder)
    (timeout left attempt : Nat) :
    (attempts transport policy order timeout left attempt).Orderly := by
  induction left, attempt using attempts.induct with
  | case1 left attempt ih =>
      rw [attempts]
      refine .bind (orderly_reset _) fun _ => .bind (.lift fun _ => ⟨rfl, rfl⟩) fun r => ?_
      cases r with
      | ok _ => exact .bind (orderly_notice _ _) fun _ => .pure _
      | error e =>
          refine .bind (orderly_notice _ _) fun _ => ?_
          cases left with
          | zero => exact orderly_giveUp _ _ _
          | succ left =>
              dsimp only
              split
              · exact .bind (orderly_notice _ _) fun _ =>
                  .bind (.lift fun _ => ⟨rfl, rfl⟩) fun _ => ih
              · exact orderly_giveUp _ _ _

end Script

namespace Analyzer

open Script

variable (a : Analyzer σ)

theorem orderly_cloneScript (id url : String) (token : Option String) :
    (a.cloneScript id url token).Orderly := by
  refine .bind (orderly_notice _ _) fun _ => .bind ?_ fun _ => .pure _
  unfold Script.clone
  cases checkUrl url with
  | error r => trivial
  | ok _ => exact .bind (orderly_notice _ _) fun _ => orderly_attempts _ _ _ _ _ _

theorem orderly_rootScript (id : String) : (a.rootScript id).Orderly := by
  refine .bind orderly_get fun w => ?_
  dsimp only
  split
  · exact .bind (orderly_notice _ _) fun _ => .pure _
  · exact .pure _

theorem orderly_materializeScript (id : String) (zip : Option Path) :
    (a.materializeScript id zip).Orderly := by
  cases zip with
  | none =>
      refine .bind orderly_get fun w => ?_
      split
      · trivial
      · exact a.orderly_rootScript id
  | some zip =>
      refine .bind (orderly_await (.inr rfl) _ _ _) fun r => .bind (orderly_notice _ _) fun _ => ?_
      exact .bind (.discard (orderly_await (.inl rfl) _ _ _)) fun _ => a.orderly_rootScript id

theorem orderly_notices (id : String) (texts : List String) :
    (lift (texts.forM (Job.notice id)) : Script σ PUnit).Orderly := by
  refine .lift fun w => ?_
  induction texts generalizing w with
  | nil => exact ⟨rfl, rfl⟩
  | cons t ts ih => exact ih _

theorem orderly_analyzeScript (id : String) (zip : Option Path) :
    (a.analyzeScript id zip).Orderly := by
  refine .bind (orderly_notice _ _) fun _ => .bind (a.orderly_materializeScript id zip) fun root => ?_
  refine .bind (.bind (orderly_notice _ _) fun _ => orderly_await (.inl rfl) _ _ _) fun tree => ?_
  refine .bind (.bind (orderly_notice _ _) fun _ => .bind (orderly_notice _ _) fun _ =>
    .bind ⟨⟨⟨trivial, trivial⟩, .inl ⟨.inl rfl, .inl rfl⟩⟩, fun _ _ => trivial⟩ fun r =>
      .bind (orderly_notices _ _) fun _ => .pure _) fun r => ?_
  refine .bind (orderly_notice _ _) fun _ => .bind orderly_get fun w => ?_
  refine .bind (orderly_await (.inl rfl) _ _ _) fun path => ?_
  exact .bind (orderly_notice _ _) fun _ => .bind (orderly_notice _ _) fun _ => .pure _

end Analyzer

theorem CallKind.orderly (a : Analyzer σ) (id : String) (e : CallKind) : (e.script a id).Orderly := by
  cases e with
  | analyze zip => exact .discard (a.orderly_analyzeScript id zip)
  | clone url token => exact .discard (a.orderly_cloneScript id url token)
  | analyzeRepository url token =>
      exact .bind (.discard (a.orderly_cloneScript id url token)) fun _ =>
        .discard (a.orderly_analyzeScript id none)

theorem CallKind.orderly_telling (a : Analyzer σ) (id : String) (e : CallKind) :
    (e.telling a id).Orderly := by
  cases e with
  | analyze zip => exact .map (a.orderly_analyzeScript id zip)
  | clone url token => exact .map (a.orderly_cloneScript id url token)
  | analyzeRepository url token =>
      exact .bind (.discard (a.orderly_cloneScript id url token)) fun _ =>
        .map (a.orderly_analyzeScript id none)

end Run

end SourceAtlas
