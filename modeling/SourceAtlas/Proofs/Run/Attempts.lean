import SourceAtlas.Proofs.Disk.Emptied
import SourceAtlas.Proofs.Run.Analyze

namespace SourceAtlas.Repository

open Disk

variable {σ : Type}

structure Call where
  request : Request
  found : Disk
  result : Except Diagnostic Unit
  left : Disk

def Call.details (token : Option String) (c : Call) : Option String :=
  match c.result with
  | .ok _ => none
  | .error e => some (Text.redactSecret token e.chain)

namespace Transport

/-- The same transport, which also keeps a record of its calls. -/
def recorded (t : Transport σ) : Transport (σ × List Call) := fun r d m =>
  ((t r d m.1).1, (t r d m.1).2.1, (t r d m.1).2.2,
    m.2 ++ [⟨r, d, (t r d m.1).1, (t r d m.1).2.1⟩])

/-- All that the transport changes lies in the folder it is given. -/
def IsConfined (t : Transport σ) : Prop :=
  ∀ r d m T, IsTree d → d.FolderAt r.target T → Within T d (t r d m).2.1

end Transport

end SourceAtlas.Repository

namespace SourceAtlas.Run

open Disk Work Repository

variable {σ τ : Type}

def Workspace.remember (w : Workspace σ) (m : τ) : Workspace τ :=
  ⟨w.disk, w.leases, w.pending, w.notices, w.waits, m⟩

def Workspace.forget (w : Workspace (σ × τ)) : Workspace σ := w.remember w.memory.1

section Order

variable (order : CloneOrder) (limit : Nat) (base : Span) (timeout : Nat)

def Settles (k : Nat) (c : Call) : Prop :=
  match c.details order.token with
  | none => True
  | some m => CloneFailure.classify m = .notFound ∨ CloneFailure.classify m = .authFailed ∨
      k = max 1 limit

/-- What is answered if the last attempt has the number `n`. -/
def answerOf (n : Nat) (c : Call) : Except Failure CloneReport :=
  match c.details order.token with
  | none => .ok ⟨order.target, n⟩
  | some m => .error (.cloneFailed (CloneFailure.classify m) m)

structure IsAttempt (waits : List Span) (c : Call) : Prop where
  request : c.request = ⟨authenticated order.token order.url, order.target, timeout, waits⟩
  found : c.found.list order.target = .ok []

def delay (k : Nat) : Span := base.times (2 ^ min (k - 1) 16)

inductive Series : Nat → List Span → List Call → Call → Prop
  | last {k s c} : IsAttempt order timeout s c → Settles order limit k c → Series k s [c] c
  | next {k s c cs e} : IsAttempt order timeout s c → ¬ Settles order limit k c →
      Series (k + 1) (s ++ [delay base k]) cs e → Series k s (c :: cs) e

/-- A record of all calls, with the waits `waits` before the first of them. -/
structure IsRecord (waits : List Span) (calls : List Call) : Prop where
  request : ∀ c ∈ calls, ∃ s,
    c.request = ⟨authenticated order.token order.url, order.target, timeout, s⟩
  empty : ∀ c ∈ calls, c.found.list order.target = .ok []
  first : ∀ {c}, calls[0]? = some c → c.request.waits = waits
  next : ∀ {i c c'}, calls[i]? = some c → calls[i + 1]? = some c' →
    c'.request.waits = c.request.waits ++ [base.times (2 ^ min i 16)]
  least : ∀ {i c}, calls[i]? = some c → (Settles order limit (i + 1) c ↔ i + 1 = calls.length)

end Order

section Series

variable {order : CloneOrder} {limit timeout k : Nat} {base : Span}
  {s : List Span} {calls : List Call} {e : Call}

theorem Series.getLast? (h : Series order limit base timeout k s calls e) :
    calls.getLast? = some e := by
  induction h with
  | last _ _ => rfl
  | next _ _ _ ih => rw [List.getLast?_cons, ih]; rfl

theorem Series.isAttempt (h : Series order limit base timeout k s calls e) :
    ∀ c ∈ calls, ∃ waits, IsAttempt order timeout waits c := by
  induction h with
  | last hc _ =>
      intro c hm
      rw [List.mem_singleton.mp hm]
      exact ⟨_, hc⟩
  | next hc _ _ ih =>
      intro c hm
      rcases List.mem_cons.mp hm with rfl | hm
      · exact ⟨_, hc⟩
      · exact ih c hm

theorem Series.settles (h : Series order limit base timeout k s calls e) {i : Nat} {c : Call}
    (hc : calls[i]? = some c) : Settles order limit (k + i) c ↔ i + 1 = calls.length := by
  induction h generalizing i with
  | last _ hs =>
      cases i with
      | zero =>
          cases hc
          exact ⟨fun _ => rfl, fun _ => hs⟩
      | succ i => cases hc
  | @next k _ _ cs _ _ hs hrest ih =>
      cases i with
      | zero =>
          cases hc
          have hne : cs ≠ [] := by
            rintro rfl
            cases hrest
          have := List.length_pos_iff.mpr hne
          constructor
          · exact fun h => absurd h hs
          · intro hl
            rw [List.length_cons] at hl
            omega
      | succ i =>
          have hk : k + (i + 1) = k + 1 + i := by omega
          rw [hk, ih hc, List.length_cons]
          omega

theorem Series.waits (h : Series order limit base timeout k s calls e) {i : Nat} {c : Call}
    (hc : calls[i]? = some c) :
    c.request.waits = s ++ (List.range i).map fun j => delay base (k + j) := by
  induction h generalizing i with
  | last ha _ =>
      cases i with
      | zero =>
          cases hc
          rw [ha.request]
          exact (List.append_nil _).symm
      | succ i => cases hc
  | @next k _ _ _ _ ha _ _ ih =>
      cases i with
      | zero =>
          cases hc
          rw [ha.request]
          exact (List.append_nil _).symm
      | succ i =>
          rw [ih hc, List.range_succ_eq_map, List.map_cons, List.map_map, List.append_assoc]
          simp only [Function.comp_def, Nat.add_zero, Nat.succ_eq_add_one, Nat.add_assoc,
            Nat.add_comm 1, List.singleton_append]

theorem Series.isRecord {s : List Span} {calls : List Call} {e : Call}
    (h : Series order limit base timeout 1 s calls e) :
    IsRecord order limit base timeout s calls where
  request := by
    intro c hc
    obtain ⟨s, ha⟩ := h.isAttempt c hc
    exact ⟨s, ha.request⟩
  empty := by
    intro c hc
    obtain ⟨_, ha⟩ := h.isAttempt c hc
    exact ha.found
  first := fun hc => by rw [h.waits hc, List.range_zero, List.map_nil, List.append_nil]
  next := by
    intro i c c' hc hc'
    rw [h.waits hc', h.waits hc, List.range_succ, List.map_append, List.append_assoc]
    simp [delay]
  least := by
    intro i c hc
    rw [← h.settles hc, Nat.add_comm]

end Series

namespace Job

variable {order : CloneOrder} {limit timeout : Nat} {base : Span} {d : Disk} {T : Place}

theorem resetTarget_run {w : Workspace σ} {target : Path}
    (h : (emptyFolder target).run w.disk = (.ok (), d)) :
    (resetTarget target : Job σ Unit).run w = (.ok (), { w with disk := d }) := by
  rw [resetTarget, ofTask_run, toTask, run_bind, run_get]
  dsimp only
  rw [run_edit, h]
  rfl

theorem request_run (t : Transport σ) (order : CloneOrder) (timeout : Nat) (w : Workspace σ) :
    let x := t ⟨authenticated order.token order.url, order.target, timeout, w.waits⟩ w.disk w.memory
    (request t order timeout).run w = (.ok x.1, { w with disk := x.2.1, memory := x.2.2 }) := rfl

theorem notice_run (id text : String) (w : Workspace σ) : (notice id text : Job σ Unit).run w =
    (.ok (), { w with notices := w.notices ++ [⟨id, text⟩] }) := rfl

theorem giveUp_run {α : Type} {w : Workspace σ} (f : CloneFailure) (details : String)
    (h : (emptyFolder order.target).run w.disk = (.ok (), d)) :
    ∃ w', (giveUp order f details : Job σ α).run w = (.error (.cloneFailed f details), w') ∧
      w'.disk = d ∧ w'.memory = w.memory ∧ w'.waits = w.waits := by
  rw [giveUp, run_bind, notice_run]
  dsimp only
  rw [run_bind, run_get]
  dsimp only
  have hreset : (resetTarget order.target : Job σ Unit).run
      { w with notices := w.notices ++ [⟨order.id, f.message⟩] } =
        (.ok (), { w with disk := d, notices := w.notices ++ [⟨order.id, f.message⟩] }) :=
    resetTarget_run h
  rw [hreset]
  exact ⟨_, rfl, rfl, rfl, rfl⟩

theorem isTransient_iff {f : CloneFailure} :
    f.isTransient = true ↔ ¬ (f = .notFound ∨ f = .authFailed) := by
  cases f <;> simp [CloneFailure.isTransient]

section Once

variable {t : Transport σ} {left k : Nat} {w : Workspace (σ × List Call)}

def callOn (t : Transport σ) (order : CloneOrder) (timeout : Nat) (s : List Span) (d : Disk) (m : σ) :
    Call :=
  let r : Request := ⟨authenticated order.token order.url, order.target, timeout, s⟩
  ⟨r, d, (t r d m).1, (t r d m).2.1⟩

theorem isAttempt_callOn (hd : d.Vacant order.target T) (s : List Span) (m : σ) :
    IsAttempt order timeout s (callOn t order timeout s d m) := ⟨rfl, hd.list⟩

theorem within_callOn (ht : t.IsConfined) (hd : d.Vacant order.target T) (s : List Span) (m : σ) :
    Within T d (callOn t order timeout s d m).left :=
  ht _ d m T hd.tree hd.reached

theorem shouldRetry_iff {f : CloneFailure} :
    (RetryPolicy.ofAttempts limit base).shouldRetry k f = true ↔
      k < max limit 1 ∧ ¬ (f = .notFound ∨ f = .authFailed) := by
  rw [RetryPolicy.shouldRetry, Bool.and_eq_true, decide_eq_true_iff]
  exact and_congr_right fun _ => isTransient_iff

def react (policy : RetryPolicy) (transport : Transport τ) (order : CloneOrder) (timeout left k : Nat)
    (c : Call) : Job τ CloneReport :=
  match c.details order.token with
  | none => do
      notice order.id ("Cloned on attempt " ++ count k policy)
      return ⟨order.target, k⟩
  | some m => do
      notice order.id ("Clone attempt " ++ count k policy ++ " failed (" ++
        (CloneFailure.classify m).kind ++ "): " ++ m)
      match left with
      | 0 => giveUp order (.classify m) m
      | left + 1 =>
          if policy.shouldRetry k (.classify m) then
            notice order.id ("Retrying in " ++ secondsText (policy.delayAfter k) ++ "s")
            wait (policy.delayAfter k)
            attempts transport policy order timeout left (k + 1)
          else giveUp order (.classify m) m

theorem attempts_step (t : Transport σ) (policy : RetryPolicy) (timeout left k : Nat)
    (hempty : (emptyFolder order.target).run w.disk = (.ok (), d)) :
    ∃ s, (attempts t.recorded policy order timeout left k).run w =
      (react policy t.recorded order timeout left k
        (callOn t order timeout w.waits d w.memory.1)).run
        { w with
          disk := (callOn t order timeout w.waits d w.memory.1).left
          memory := (s, w.memory.2 ++ [callOn t order timeout w.waits d w.memory.1]) } := by
  refine ⟨(t ⟨authenticated order.token order.url, order.target, timeout, w.waits⟩ d
    w.memory.1).2.2, ?_⟩
  rw [attempts, run_bind, resetTarget_run hempty]
  dsimp only
  rw [run_bind, request_run]
  dsimp only
  rcases hr : (callOn t order timeout w.waits d w.memory.1).result with e | u
  · have hresult : (t.recorded ⟨authenticated order.token order.url, order.target, timeout, w.waits⟩
        d w.memory).1 = .error e := hr
    rw [hresult, react, Call.details, hr]
    cases left <;> rfl
  · have hresult : (t.recorded ⟨authenticated order.token order.url, order.target, timeout, w.waits⟩
        d w.memory).1 = .ok u := hr
    rw [hresult, react, Call.details, hr]
    rfl

section React

variable {c : Call}

theorem react_last (base : Span) (transport : Transport τ) (timeout : Nat) (v : Workspace τ)
    (hk : k + left = max limit 1) (hs : Settles order limit k c)
    (hv : v.disk = c.left) (hagain : (emptyFolder order.target).run c.left = (.ok (), d))
    (hd : d.Vacant order.target T) :
    ∃ w', (react (.ofAttempts limit base) transport order timeout left k c).run v =
        (answerOf order k c, w') ∧ w'.memory = v.memory ∧ w'.waits = v.waits ∧
      (c.details order.token = none → w'.disk = c.left) ∧
      (c.details order.token ≠ none → w'.disk.list order.target = .ok []) := by
  unfold Settles at hs
  unfold react answerOf
  rcases hdet : c.details order.token with _ | m
  · exact ⟨_, rfl, rfl, rfl, fun _ => hv, fun h => absurd rfl h⟩
  · rw [hdet] at hs
    dsimp only at hs ⊢
    have hgive : ∀ v' : Workspace τ, v'.disk = c.left → ∃ w',
        (giveUp order (.classify m) m : Job τ CloneReport).run v' =
          (.error (.cloneFailed (.classify m) m), w') ∧ w'.memory = v'.memory ∧
        w'.waits = v'.waits ∧ (some m = none → w'.disk = c.left) ∧
        (some m ≠ none → w'.disk.list order.target = .ok []) := by
      intro v' hv'
      obtain ⟨w', hrun, hw', hm', hs'⟩ := giveUp_run (.classify m) m (hv' ▸ hagain)
      exact ⟨w', hrun, hm', hs', nofun, fun _ => hw' ▸ hd.list⟩
    rw [run_bind, notice_run]
    cases left with
    | zero => exact hgive _ hv
    | succ left =>
        dsimp only
        rw [if_neg]
        · exact hgive _ hv
        · rw [shouldRetry_iff]
          rintro ⟨hlt, hf⟩
          rcases hs with hs | hs | hs
          · exact hf (.inl hs)
          · exact hf (.inr hs)
          · omega

theorem react_next (base : Span) (transport : Transport τ) (timeout : Nat) (v : Workspace τ)
    (hk : k + left = max limit 1) (hs : ¬ Settles order limit k c)
    (hv : v.disk = c.left) : ∃ l v', left = l + 1 ∧
      (react (.ofAttempts limit base) transport order timeout left k c).run v =
        (attempts transport (.ofAttempts limit base) order timeout l (k + 1)).run v' ∧
      v'.disk = c.left ∧ v'.memory = v.memory ∧ v'.waits = v.waits ++ [delay base k] := by
  unfold Settles at hs
  rcases hdet : c.details order.token with _ | m
  · rw [hdet] at hs
    exact absurd trivial hs
  · rw [hdet] at hs
    dsimp only at hs
    rw [not_or, not_or] at hs
    obtain ⟨l, rfl⟩ : ∃ l, left = l + 1 := by
      refine Nat.exists_eq_succ_of_ne_zero ?_
      rintro rfl
      exact hs.2.2 (by omega)
    have hretry : (RetryPolicy.ofAttempts limit base).shouldRetry k (CloneFailure.classify m) = true :=
      shouldRetry_iff.mpr ⟨by omega, fun h => h.elim hs.1 hs.2.1⟩
    unfold react
    rw [hdet]
    dsimp only
    rw [if_pos hretry]
    exact ⟨l, _, rfl, rfl, hv, rfl, rfl⟩

end React

end Once

def Comes (order : CloneOrder) (limit : Nat) (base : Span) (timeout k : Nat)
    (w w' : Workspace (σ × List Call)) (x : Except Failure CloneReport) : Prop :=
  ∃ calls c, Series order limit base timeout k w.waits calls c ∧
    x = answerOf order (k + calls.length - 1) c ∧ w'.memory.2 = w.memory.2 ++ calls ∧
    w'.waits = c.request.waits ∧ (c.details order.token = none → w'.disk = c.left) ∧
    (c.details order.token ≠ none → w'.disk.list order.target = .ok [])

theorem comes_last {t : Transport σ} (ht : t.IsConfined) {left k : Nat}
    (hk : k + left = max limit 1) {w : Workspace (σ × List Call)}
    (hempty : (emptyFolder order.target).run w.disk = (.ok (), d)) (hd : d.Vacant order.target T)
    (hs : Settles order limit k (callOn t order timeout w.waits d w.memory.1)) :
    ∃ x w', (attempts t.recorded (.ofAttempts limit base) order timeout left k).run w = (x, w') ∧
      Comes order limit base timeout k w w' x := by
  obtain ⟨s, hstep⟩ := attempts_step t (.ofAttempts limit base) timeout left k hempty
  obtain ⟨d', hagain, hd'⟩ := hd.again (within_callOn ht hd w.waits w.memory.1)
  obtain ⟨w', hrun, hmem, hwaits, hok, herr⟩ := react_last base t.recorded timeout
    { w with
      disk := (callOn t order timeout w.waits d w.memory.1).left
      memory := (s, w.memory.2 ++ [callOn t order timeout w.waits d w.memory.1]) }
    hk hs rfl hagain hd'
  refine ⟨_, w', hstep.trans hrun, _, _, .last (isAttempt_callOn hd _ _) hs, rfl, ?_, hwaits, hok,
    herr⟩
  rw [hmem]

theorem attempts_comes {t : Transport σ} (ht : t.IsConfined) (base : Span) (timeout : Nat)
    {left k : Nat}
    (hk : k + left = max limit 1) {w : Workspace (σ × List Call)}
    (hempty : (emptyFolder order.target).run w.disk = (.ok (), d)) (hd : d.Vacant order.target T) :
    ∃ x w', (attempts t.recorded (.ofAttempts limit base) order timeout left k).run w = (x, w') ∧
      Comes order limit base timeout k w w' x := by
  -- on the attempts that may follow; all that a transport leaves lies in the target, so that it can be
  -- emptied again
  induction left generalizing k w d with
  | zero =>
      have hs : Settles order limit k (callOn t order timeout w.waits d w.memory.1) := by
        unfold Settles
        split
        · trivial
        · exact .inr (.inr (by omega))
      exact comes_last ht hk hempty hd hs
  | succ left ih =>
      by_cases hs : Settles order limit k (callOn t order timeout w.waits d w.memory.1)
      · exact comes_last ht hk hempty hd hs
      · obtain ⟨s, hstep⟩ := attempts_step t (.ofAttempts limit base) timeout (left + 1) k hempty
        obtain ⟨l, v, hl, hreact, hdisk, hmem, hwaits⟩ := react_next base t.recorded timeout
          { w with
            disk := (callOn t order timeout w.waits d w.memory.1).left
            memory := (s, w.memory.2 ++ [callOn t order timeout w.waits d w.memory.1]) } hk hs rfl
        obtain rfl := Nat.succ.inj hl
        obtain ⟨d', hagain, hd'⟩ := hd.again (within_callOn ht hd _ _)
        obtain ⟨x, w', hrun, calls, e, hseries, hx, hm, hlast, hok, herr⟩ :=
          ih (w := v) (k := k + 1) (by omega) (hdisk ▸ hagain) hd'
        rw [hwaits] at hseries
        refine ⟨x, w', hstep.trans (hreact.trans hrun), _, e,
          .next (isAttempt_callOn hd _ _) hs hseries, ?_, ?_, hlast, hok, herr⟩
        · rw [hx, List.length_cons]
          congr 1
          omega
        · rw [hm, hmem, List.append_assoc]
          rfl

def Mirrors {α : Type} (j : Job σ α) (j' : Job (σ × τ) α) : Prop :=
  ∀ w, j.run w.forget = ((j'.run w).1, (j'.run w).2.forget)

namespace Mirrors

variable {α β : Type}

theorem bind {j : Job σ α} {j' : Job (σ × τ) α} {f : α → Job σ β} {f' : α → Job (σ × τ) β}
    (h : Mirrors j j') (hf : ∀ a, Mirrors (f a) (f' a)) : Mirrors (j >>= f) (j' >>= f') := by
  intro w
  rw [run_bind, run_bind, h w]
  rcases j'.run w with ⟨e | a, w'⟩
  · rfl
  · exact hf a w'

theorem pure (x : α) : Mirrors (Pure.pure x : Job σ α) (Pure.pure x : Job (σ × τ) α) :=
  fun _ => rfl

theorem throw (f : Failure) :
    Mirrors (MonadExcept.throw f : Job σ α) (MonadExcept.throw f : Job (σ × τ) α) := fun _ => rfl

theorem notice (id text : String) :
    Mirrors (Job.notice id text : Job σ Unit) (Job.notice id text : Job (σ × τ) Unit) := fun _ => rfl

theorem wait (s : Span) : Mirrors (Job.wait s : Job σ Unit) (Job.wait s : Job (σ × τ) Unit) :=
  fun _ => rfl

theorem ofTask (t : Task α) : Mirrors (Job.ofTask t : Job σ α) (Job.ofTask t : Job (σ × τ) α) := by
  intro w
  rw [ofTask_run, ofTask_run, show w.forget.disk = w.disk from rfl]
  rcases t.run w.disk with ⟨f | a, d⟩ <;> rfl

theorem giveUp (order : CloneOrder) (f : CloneFailure) (details : String) :
    Mirrors (Job.giveUp order f details : Job σ α) (Job.giveUp order f details : Job (σ × τ) α) := by
  unfold Job.giveUp
  refine .bind (.notice _ _) fun _ w => ?_
  have hreset : Mirrors (resetTarget order.target : Job σ Unit)
    (resetTarget order.target : Job (σ × τ) Unit) := ofTask _
  rw [run_bind, run_bind, run_get, run_get]
  dsimp only
  rw [hreset w]
  rcases (resetTarget order.target : Job (σ × τ) Unit).run w with ⟨e | u, w'⟩ <;> rfl

theorem attempts (t : Transport σ) (policy : RetryPolicy) (order : CloneOrder)
    (timeout left k : Nat) : Mirrors (Job.attempts t policy order timeout left k)
      (Job.attempts t.recorded policy order timeout left k) := by
  induction left, k using Job.attempts.induct with
  | case1 left k ih =>
      rw [Job.attempts, Job.attempts]
      refine .bind (.ofTask _) fun _ => .bind (fun _ => rfl) fun x => ?_
      cases x with
      | ok _ => exact .bind (.notice _ _) fun _ => .pure _
      | error e =>
          refine .bind (.notice _ _) fun _ => ?_
          cases left with
          | zero => exact giveUp order _ _
          | succ left =>
              dsimp only
              split
              · exact .bind (.notice _ _) fun _ => .bind (.wait _) fun _ => ih
              · exact giveUp order _ _

theorem clone (t : Transport σ) (policy : RetryPolicy) (timeout : Nat) (order : CloneOrder) :
    Mirrors (Job.clone t policy timeout order) (Job.clone t.recorded policy timeout order) := by
  unfold Job.clone
  split
  · exact .throw _
  · exact .bind (.notice _ _) fun _ => attempts t policy order timeout _ _

end Mirrors

/-- A repository is asked for until an attempt succeeds, fails for good or is the last one allowed,
each time with an empty target and after a wait that doubles; the target is left with what the
last attempt put there, or empty. -/
theorem clone_attempts {t : Transport σ} (ht : t.IsConfined) {w : Workspace σ} (hw : IsTree w.disk)
    {order : CloneOrder} (hurl : checkUrl order.url = .ok ())
    (hempty : w.disk.CanEmpty order.target) (limit : Nat) (base : Span) (timeout : Nat) :
    ∃ calls c w',
      (clone t.recorded (.ofAttempts limit base) timeout order).run (w.remember (w.memory, [])) =
        (answerOf order calls.length c, w') ∧
      (clone t (.ofAttempts limit base) timeout order).run w =
        (answerOf order calls.length c, w'.forget) ∧
      w'.memory.2 = calls ∧ calls.getLast? = some c ∧
      IsRecord order limit base timeout w.waits calls ∧ w'.waits = c.request.waits ∧
      (c.details order.token = none → w'.disk = c.left) ∧
      (c.details order.token ≠ none → w'.disk.list order.target = .ok []) := by
  obtain ⟨d, T, hrun, hd⟩ := hempty.vacant hw
  have hk : 1 + ((RetryPolicy.ofAttempts limit base).maxAttempts - 1) = max limit 1 := by
    show 1 + (max limit 1 - 1) = max limit 1
    omega
  obtain ⟨v, hv, hdisk, hwaits, hmem⟩ : ∃ v : Workspace (σ × List Call),
      (notice order.id ("Cloning " ++ Text.redactUrl order.url ++ " (shallow)") :
        Job (σ × List Call) Unit).run (w.remember (w.memory, [])) = (.ok (), v) ∧
      v.disk = w.disk ∧ v.waits = w.waits ∧ v.memory.2 = [] := ⟨_, rfl, rfl, rfl, rfl⟩
  obtain ⟨x, w', hattempts, calls, c, hseries, rfl, hm, hlast, hok, herr⟩ :=
    attempts_comes ht base timeout hk (w := v) (hdisk.symm ▸ hrun) hd
  have hclone : (clone t.recorded (.ofAttempts limit base) timeout order).run
      (w.remember (w.memory, [])) = (answerOf order calls.length c, w') := by
    unfold clone
    rw [hurl]
    dsimp only
    rw [run_bind, hv]
    dsimp only
    rw [hattempts, Nat.add_sub_cancel_left]
  rw [hwaits] at hseries
  rw [hmem, List.nil_append] at hm
  -- without the record the run is the same
  have hplain := Mirrors.clone t (.ofAttempts limit base) timeout order (w.remember (w.memory, []))
  rw [hclone] at hplain
  exact ⟨calls, c, w', hclone, hplain, hm, hseries.getLast?, hseries.isRecord, hlast, hok,
    herr⟩

def fickle : Transport Nat := fun r d n =>
  if n = 0 then (.error (.ofText "timeout"), d, 1)
  else (.ok (), ((replaceBytes (r.target.join ⟨["a"]⟩) ByteArray.empty).run d).2, n + 1)

theorem isConfined_fickle : fickle.IsConfined := by
  intro r d n T hd hT
  unfold fickle
  split
  · exact ⟨hd, rfl, hT.folder, fun _ => rfl⟩
  · have hn : IsEntryName "a" := by decide
    show Within T d ((replaceBytes (r.target.join ⟨["a"]⟩) ByteArray.empty).run d).2
    rw [replaceBytes_child hd hT hn]
    split
    · exact ⟨hd, rfl, hT.folder, fun _ => rfl⟩
    · next hfree =>
        have hother : ∀ {q}, q ≠ T ++ ["a"] →
            (d.newFile (T ++ ["a"]) ByteArray.empty false).found? q = d.found? q := by
          intro q hq
          rw [found?_newFile, found?_put_of_ne hq]
        refine ⟨hd.newFile (by simp) hfree ?_ _ _, newFile_base .., ?_, fun hq => hother ?_⟩
        · rw [List.dropLast_concat]
          exact hT.folder
        · rw [hother (by simp), hT.folder]
        · rintro rfl
          exact hq (List.prefix_append ..)

def fickleOrder : CloneOrder := ⟨"p", "https://example.com/a", none, ⟨["t"]⟩⟩

theorem clone_attempts_twice : fickle.IsConfined ∧ IsTree blank ∧
    checkUrl fickleOrder.url = .ok () ∧ blank.CanEmpty fickleOrder.target ∧
    ∃ calls, IsRecord fickleOrder 3 (.ofSeconds 2) 60 [] calls ∧ calls.length = 2 := by
  have htree : IsTree blank := by decide
  have hurl : checkUrl fickleOrder.url = .ok () := by decide
  have hempty : blank.CanEmpty fickleOrder.target :=
    ⟨_, rfl, rfl, fun _ h => absurd h (by decide)⟩
  obtain ⟨calls, c, w', _, hplain, _, _, hrecord, _⟩ :=
    clone_attempts isConfined_fickle (w := .ofDisk blank [] 0) htree hurl hempty 3 (.ofSeconds 2) 60
  have hrun : (((clone fickle (.ofAttempts 3 (.ofSeconds 2)) 60 fickleOrder).run
      (.ofDisk blank [] 0)).1.toOption.map (·.attempts)) = some 2 := by decide +kernel
  rw [hplain] at hrun
  refine ⟨isConfined_fickle, htree, hurl, hempty, calls, hrecord, ?_⟩
  unfold answerOf at hrun
  split at hrun
  · injection hrun
  · cases hrun

end Job

end SourceAtlas.Run
