import Mathlib.Logic.Relation
import SourceAtlas.Proofs.Run.Courses

namespace SourceAtlas.Store

open Disk

def logPlace (s : Settings) (d : Disk) : Option Place :=
  match d.locate true s.errorLog with
  | .ok spot => some spot.place
  | .error _ => none

end SourceAtlas.Store

namespace SourceAtlas.Run

open Disk Work

variable {σ α β γ : Type}

structure Hold (σ : Type) where
  site : Workspace σ
  shares : Nat

namespace Hold

def onDisk (f : Disk → Disk) (h : Hold σ) : Hold σ :=
  { h with site := { h.site with disk := f h.site.disk } }

def share (h : Hold σ) (carries : Bool) : Hold σ :=
  if carries then { h with shares := h.shares + 1 } else h

def drop (lease : Lease) (h : Hold σ) (carries : Bool) : Hold σ :=
  if carries then
    { site :=
        if h.shares = 1 then
          { h.site with leases := h.site.leases.release lease.holder lease.id }
        else h.site
      shares := h.shares - 1 }
  else h

theorem drop_site (lease : Lease) (h : Hold σ) (carries : Bool) :
    ∃ ls, (h.drop lease carries).site = { h.site with leases := ls } := by
  cases carries with
  | false => exact ⟨h.site.leases, rfl⟩
  | true =>
      show ∃ ls, (if h.shares = 1 then _ else h.site : Workspace σ) = _
      split <;> exact ⟨_, rfl⟩

theorem drop_disk {lease : Lease} (h : Hold σ) (carries : Bool) :
    (h.drop lease carries).site.disk = h.site.disk := by
  obtain ⟨ls, hsite⟩ := h.drop_site lease carries
  rw [hsite]

theorem drop_notices {lease : Lease} (h : Hold σ) (carries : Bool) :
    (h.drop lease carries).site.notices = h.site.notices := by
  obtain ⟨ls, hsite⟩ := h.drop_site lease carries
  rw [hsite]

theorem share_disk (h : Hold σ) (carries : Bool) : (h.share carries).site.disk = h.site.disk := by
  cases carries <;> rfl

end Hold

structure Pooled : Type 1 where
  {answer : Type}
  labor : Labor answer

def Slot.pool : Slot β → List Pooled
  | .busy l => [⟨l⟩]
  | _ => []

theorem Slot.mem_pool {x : Slot β} {m : Pooled} (hm : m ∈ x.pool) : ∃ l, x = .busy l ∧ m = ⟨l⟩ := by
  cases x with
  | busy l => exact ⟨l, rfl, List.mem_singleton.mp hm⟩
  | ready _ => cases hm
  | back _ => cases hm

def Script.pool : Script σ α → List Pooled
  | .await x y _ _ _ => x.pool ++ y.pool
  | _ => []

/-- The next thing that happens to a labor. -/
inductive Turn (lease : Lease) : Hold σ → Slot β → Hold σ → Slot β → Prop
  | spawn {h l} : Turn lease h (.ready l) (h.share l.kind.carriesLease) (.busy l)
  | work {h kind f k} :
      Turn lease h (.busy ⟨kind, .act f k⟩) (h.onDisk f) (.busy ⟨kind, k h.site.disk⟩)
  | answer {h kind r} :
      Turn lease h (.busy ⟨kind, .stop r⟩) (h.drop lease kind.carriesLease) (.back r)

inductive PairTurn (lease : Lease) :
    Hold σ → Slot β → Slot γ → Hold σ → Slot β → Slot γ → Prop
  | left {h x y h' x'} : Turn lease h x h' x' → PairTurn lease h x y h' x' y
  | right {h x y h' y'} : Turn lease h y h' y' → PairTurn lease h x y h' x y'

inductive PairFailed (f : Failure) : Slot β → Slot γ → List Pooled → Prop
  | left {y} : PairFailed f (.back (.error f)) y y.pool
  | right {x} : PairFailed f x (.back (.error f)) x.pool

/-- The script from here on, what it holds, the labors it has left behind, whether it has ended, and
where its failure was written. -/
structure RunState (σ α : Type) : Type 1 where
  script : Script σ α
  hold : Hold σ
  strays : List Pooled
  ended : Bool
  logged : Option Place

def RunState.pool (f : RunState σ α) : List Pooled := f.script.pool ++ f.strays

/-- One step of a run: its own, or one of a labor. A limit may be over at any time. -/
inductive Step (a : Analyzer σ) (operation : String) (lease : Lease) :
    RunState σ α → RunState σ α → Prop
  | go {g k h st e l} : Step a operation lease ⟨.go g k, h, st, e, l⟩
      ⟨k h.site, { h with site := g h.site }, st, e, l⟩
  | turn {β γ : Type} {x x' : Slot β} {y y' : Slot γ} {r ls k h h' st e l} :
      PairTurn lease h x y h' x' y' →
      Step a operation lease ⟨.await x y r ls k, h, st, e, l⟩ ⟨.await x' y' r ls k, h', st, e, l⟩
  | proceed {β γ : Type} {b : β} {c : γ} {r ls k h st e l} : Step a operation lease
      ⟨.await (.back (.ok b)) (.back (.ok c)) r ls k, h, st, e, l⟩ ⟨k b c, h, st, e, l⟩
  | fail {β γ : Type} {x : Slot β} {y : Slot γ} {f ms r ls} {k : β → γ → Script σ α} {h st e l} :
      PairFailed f x y ms →
      Step a operation lease ⟨.await x y r ls k, h, st, e, l⟩ ⟨.failed r f, h, ms ++ st, e, l⟩
  | limit {β γ : Type} {x : Slot β} {y : Slot γ} {r ls k h st e l} {m : Limit} : m ∈ ls →
      Step a operation lease ⟨.await x y r ls k, h, st, e, l⟩
        ⟨.failed m.rejects m.failure, h, x.pool ++ (y.pool ++ st), e, l⟩
  | stray {β : Type} {m : Labor β} {x : Slot β} {s h h' pre post e l} : Turn lease h (.busy m) h' x →
      Step a operation lease ⟨s, h, pre ++ ⟨m⟩ :: post, e, l⟩ ⟨s, h', pre ++ (x.pool ++ post), e, l⟩
  | finish {v h st} : Step a operation lease ⟨.done v, h, st, false, none⟩
      ⟨.done v, h.drop lease true, st, true, none⟩
  | report {r f h st} : Step a operation lease ⟨.failed r f, h, st, false, none⟩
      ⟨.failed r f, { h with site := ((a.report operation lease.id f).run h.site).2 }.drop lease true,
        st, true, Store.logPlace a.settings h.site.disk⟩

/-- What others may do between two steps: anything but take away the lease. -/
inductive Others (lease : Lease) : RunState σ α → RunState σ α → Prop
  | mk {s h w st e l} : (lease ∈ h.site.leases → lease ∈ w.leases) →
      Others lease ⟨s, h, st, e, l⟩ ⟨s, { h with site := w }, st, e, l⟩

def launch (s : Script σ α) (w : Workspace σ) : RunState σ α := ⟨s, ⟨w, 1⟩, [], false, none⟩

abbrev RunSteps (a : Analyzer σ) (operation : String) (lease : Lease) :
    RunState σ α → RunState σ α → Prop :=
  Relation.ReflTransGen (Step a operation lease)

section

variable {a : Analyzer σ} {operation : String} {lease : Lease} {w : Workspace σ} {n : Nat}
  {st : List Pooled}

abbrev Turns (lease : Lease) (β : Type) : Hold σ × Slot β → Hold σ × Slot β → Prop :=
  Relation.ReflTransGen fun p q => Turn lease p.1 p.2 q.1 q.2

theorem Chain.play_stop (r : Except Failure β) (d : Disk) : (Chain.stop r).play.run d = (r, d) :=
  run_ofExcept d r

theorem Turns.work (kind : Kind) (c : Chain β) (w : Workspace σ) :
    Turns lease β (⟨w, n⟩, .busy ⟨kind, c⟩)
      (⟨{ w with disk := (c.play.run w.disk).2 }, n⟩,
        .busy ⟨kind, .stop (c.play.run w.disk).1⟩) := by
  induction c generalizing w with
  | stop r => rw [Chain.play_stop]
  | act f k ih => exact .head .work (ih w.disk { w with disk := f w.disk })

theorem Hold.drop_share (lease : Lease) (n : Nat) (carries : Bool) : ∃ m, ∀ w : Workspace σ,
    Hold.share ⟨w, n + 1⟩ carries = ⟨w, m⟩ ∧ Hold.drop lease ⟨w, m⟩ carries = ⟨w, n + 1⟩ := by
  cases carries with
  | false => exact ⟨n + 1, fun w => ⟨rfl, rfl⟩⟩
  | true => exact ⟨n + 2, fun w => ⟨rfl, rfl⟩⟩

theorem Turns.all (l : Labor β) (w : Workspace σ) :
    Turns lease β (⟨w, n + 1⟩, .ready l)
      (⟨{ w with disk := (l.rest.play.run w.disk).2 }, n + 1⟩,
        .back (l.rest.play.run w.disk).1) := by
  obtain ⟨m, hm⟩ := Hold.drop_share lease n l.kind.carriesLease
  have hspawn : Turn lease ⟨w, n + 1⟩ (.ready l) ⟨w, m⟩ (.busy l) := (hm w).1 ▸ .spawn
  have hanswer : Turn lease ⟨{ w with disk := (l.rest.play.run w.disk).2 }, m⟩
      (.busy ⟨l.kind, .stop (l.rest.play.run w.disk).1⟩)
      ⟨{ w with disk := (l.rest.play.run w.disk).2 }, n + 1⟩ (.back (l.rest.play.run w.disk).1) :=
    (hm _).2 ▸ .answer
  exact .head hspawn (.tail (Turns.work l.kind l.rest w) hanswer)

theorem RunSteps.turns {s : Slot β → Script σ α} {x x' : Slot β} {h h' : Hold σ}
    (hs : ∀ {x h x' h'}, Turn lease h x h' x' →
      Step a operation lease ⟨s x, h, st, false, none⟩ ⟨s x', h', st, false, none⟩)
    (ht : Turns lease β (h, x) (h', x')) :
    RunSteps a operation lease ⟨s x, h, st, false, none⟩ ⟨s x', h', st, false, none⟩ :=
  Relation.ReflTransGen.lift (fun p : Hold σ × Slot β =>
    (⟨s p.2, p.1, st, false, none⟩ : RunState σ α)) (fun _ _ h => hs h) _ _ ht

theorem Turns.rest {x : Slot β} (hx : x.IsFresh) (w : Workspace σ) :
    Turns lease β (⟨w, n + 1⟩, x)
      (⟨{ w with disk := (x.rest.play.run w.disk).2 }, n + 1⟩, .back (x.rest.play.run w.disk).1) := by
  cases x with
  | ready l => exact Turns.all l w
  | busy l => cases hx
  | back r =>
      rw [Slot.rest, Chain.play_stop]

def Slot.share (x : Slot β) : Nat := if x.carriesLease then 1 else 0

theorem Turns.spawn {x : Slot β} (hx : x.IsFresh) (lease : Lease) (n : Nat) (w : Workspace σ) :
    ∃ x', Turns lease β (⟨w, n⟩, x) (⟨w, n + x.share⟩, x') := by
  cases x with
  | busy l => cases hx
  | back r => exact ⟨_, .refl⟩
  | ready l =>
      refine ⟨.busy l, .single ?_⟩
      have hs : Hold.share ⟨w, n⟩ l.kind.carriesLease = ⟨w, n + (Slot.ready l).share⟩ := by
        unfold Hold.share Slot.share Slot.carriesLease
        split <;> rfl
      exact hs ▸ .spawn

theorem mem_of_soonest {ls : List Limit} {l : Limit} (h : soonest ls = some l) : l ∈ ls := by
  induction ls generalizing l with
  | nil => cases h
  | cons m ls ih =>
      rw [soonest] at h
      split at h
      · next hs =>
          split at h <;> cases h
          · exact .head _
          · exact .tail _ (ih hs)
      · cases h
        exact .head _

theorem mem_of_overdue {isBusy : Bool} {ls : List Limit} {l : Limit}
    (h : overdue isBusy ls = some l) : l ∈ ls := by
  rw [overdue, Option.filter_eq_some_iff] at h
  exact mem_of_soonest h.1

def Script.outcome : Script σ α → Option (Except Failure α)
  | .done a => some (.ok a)
  | .failed _ f => some (.error f)
  | _ => none

theorem Script.outcome_eq_ok {s : Script σ α} {v : α} (h : s.outcome = some (.ok v)) : s = .done v := by
  cases s <;> cases h
  rfl

theorem Script.outcome_eq_error {s : Script σ α} {f : Failure} (h : s.outcome = some (.error f)) :
    ∃ b, s = .failed b f := by
  cases s <;> cases h
  exact ⟨_, rfl⟩

def RunSteps.Comes (a : Analyzer σ) (operation : String) (lease : Lease) (n : Nat) (st : List Pooled)
    (s : Script σ α) (r : Except Failure α) (w w' : Workspace σ) : Prop :=
  ∃ s' m st', RunSteps a operation lease ⟨s, ⟨w, n + 1⟩, st, false, none⟩
      ⟨s', ⟨{ w' with pending := w.pending }, m + 1⟩, st', false, none⟩ ∧
    s'.outcome = some r ∧
    (m = n ∧ w'.pending = w.pending ∨ n < m ∧ w'.pending = lease :: w.pending)

theorem Slot.share_pos {x : Slot β} {y : Slot γ} :
    (x.carriesLease || y.carriesLease) = true ↔ 0 < x.share + y.share := by
  unfold Slot.share
  cases x.carriesLease <;> cases y.carriesLease <;> decide

namespace RunSteps

variable {x : Slot β} {y : Slot γ} {b : Bool} {ls : List Limit} {k : β → γ → Script σ α}
  {r : Except Failure α} {w' : Workspace σ}

theorem comes_ended {s s' : Script σ α} {st' : List Pooled} (hs : s'.outcome = some r)
    (h : RunSteps a operation lease ⟨s, ⟨w, n + 1⟩, st, false, none⟩
      ⟨s', ⟨{ w' with pending := w.pending }, n + 1⟩, st', false, none⟩)
    (hw : w'.pending = w.pending) : Comes a operation lease n st s r w w' :=
  ⟨s', n, st', h, hs, .inl ⟨rfl, hw⟩⟩

theorem comes_busy (hx : x.IsFresh) (hy : y.IsFresh) {l : Limit} (hl : l ∈ ls) :
    Comes a operation lease n st (.await x y b ls k) (.error l.failure) w
      (if x.carriesLease || y.carriesLease then { w with pending := lease :: w.pending } else w) := by
  obtain ⟨x', hx'⟩ := Turns.spawn hx lease (n + 1) w
  obtain ⟨y', hy'⟩ := Turns.spawn hy lease (n + 1 + x.share) w
  have hboth : RunSteps a operation lease ⟨.await x y b ls k, ⟨w, n + 1⟩, st, false, none⟩
      ⟨.await x' y' b ls k, ⟨w, n + 1 + x.share + y.share⟩, st, false, none⟩ :=
    (RunSteps.turns (s := fun x => .await x y b ls k) (fun ht => .turn (.left ht)) hx').trans
      (RunSteps.turns (s := fun y => .await x' y b ls k) (fun ht => .turn (.right ht)) hy')
  have hf := hboth.tail (.limit hl)
  rw [show n + 1 + x.share + y.share = n + (x.share + y.share) + 1 by omega] at hf
  split
  · next hc =>
      have := Slot.share_pos.mp hc
      exact ⟨_, _, _, hf, rfl, .inr ⟨by omega, rfl⟩⟩
  · next hc =>
      have := mt Slot.share_pos.mpr hc
      exact ⟨_, _, _, hf, rfl, .inl ⟨by omega, rfl⟩⟩

theorem comes_await (hx : x.IsFresh) (hy : y.IsFresh) {isBusy : Bool}
    (hk : ∀ v u w, ((k v u).run isBusy lease).run w = (r, w') →
      Comes a operation lease n st (k v u) r w w')
    (h : ((do
      let v ← Job.ofTask x.rest.play
      let u ← Job.ofTask y.rest.play
      (k v u).run isBusy lease : Job σ α)).run w = (r, w')) :
    Comes a operation lease n st (.await x y b ls k) r w w' := by
  rw [Work.run_bind, Job.ofTask_run] at h
  have hleft : RunSteps a operation lease ⟨.await x y b ls k, ⟨w, n + 1⟩, st, false, none⟩
      ⟨.await (.back (x.rest.play.run w.disk).1) y b ls k,
        ⟨{ w with disk := (x.rest.play.run w.disk).2 }, n + 1⟩, st, false, none⟩ :=
    RunSteps.turns (s := fun x => .await x y b ls k) (fun ht => .turn (.left ht)) (Turns.rest hx w)
  rcases hrx : x.rest.play.run w.disk with ⟨f | v, d⟩
  · rw [hrx] at h hleft
    cases h
    exact comes_ended rfl (hleft.tail (.fail .left)) rfl
  · rw [hrx] at h hleft
    dsimp only at h
    rw [Work.run_bind, Job.ofTask_run] at h
    have hright := hleft.trans (RunSteps.turns (s := fun y => .await (.back (.ok v)) y b ls k)
      (fun ht => .turn (.right ht)) (Turns.rest hy { w with disk := d }))
    dsimp only at h hright
    rcases hry : y.rest.play.run d with ⟨f | u, d'⟩
    · rw [hry] at h hright
      cases h
      exact comes_ended rfl (hright.tail (.fail .right)) rfl
    · rw [hry] at h hright
      obtain ⟨s', m, st', hf, ho, hp⟩ := hk v u _ h
      exact ⟨s', m, st', (hright.tail .proceed).trans hf, ho, hp⟩

theorem run (a : Analyzer σ) (operation : String) (n : Nat) (st : List Pooled) {isBusy : Bool}
    {s : Script σ α} (hs : s.Orderly) (h : (s.run isBusy lease).run w = (r, w')) :
    Comes a operation lease n st s r w w' := by
  -- labors are done in the order in which the script waits for them, and no limit strikes in between
  induction s generalizing w with
  | done v =>
      cases h
      exact comes_ended rfl .refl rfl
  | failed b f =>
      cases h
      exact comes_ended rfl .refl rfl
  | go g k ih =>
      obtain ⟨s', m, st', hf, ho, hp⟩ := ih w (hs.2 w) (w := g w) h
      rw [(hs.1 w).2] at hf hp
      exact ⟨s', m, st', .head .go hf, ho, hp⟩
  | await x y b ls k ih =>
      obtain ⟨⟨⟨hx, hy⟩, _⟩, hk⟩ := hs
      rw [Script.run] at h
      cases hover : overdue isBusy ls with
      | some l =>
          rw [hover] at h
          have hl := mem_of_overdue hover
          cases isBusy with
          | false =>
              cases h
              exact comes_ended rfl (.single (.limit hl)) rfl
          | true =>
              have hbusy : Comes a operation lease n st (.await x y b ls k) (.error l.failure) w _ :=
                comes_busy hx hy hl
              dsimp only at h
              rw [Bool.true_and] at h
              by_cases hc : (x.carriesLease || y.carriesLease) = true
              · rw [if_pos hc] at h hbusy
                cases h
                exact hbusy
              · rw [if_neg hc] at h hbusy
                cases h
                exact hbusy
      | none =>
          rw [hover] at h
          exact comes_await hx hy (fun v u w h => ih v u (hk v u) h) h

end RunSteps

end

namespace Analyzer

variable {a : Analyzer σ} {operation id : String}

theorem report_run (a : Analyzer σ) (operation id : String) (f : Failure) (w : Workspace σ) :
    ∃ ns, ∀ p ls,
    (a.report operation id f).run { w with pending := p, leases := ls } =
      (.ok (), { w with
        disk := ((Store.recordFailure a.settings operation id f).run w.disk).2
        notices := ns
        pending := p
        leases := ls }) := by
  unfold report
  simp only [Work.run_bind, Job.enter, Job.notice_run, Work.run_get]
  rcases (Store.recordFailure a.settings operation id f).run w.disk with ⟨e | _, d⟩
  · exact ⟨w.notices ++ [⟨id, "Stage: " ++ (Stage.failed f.message).text⟩] ++
      [⟨id, "Could not write error log: " ++ e.chain⟩], fun _ _ => rfl⟩
  · exact ⟨_, fun _ _ => rfl⟩

theorem report_self (a : Analyzer σ) (operation id : String) (f : Failure) (w : Workspace σ) :
    ∃ ns, (a.report operation id f).run w = (.ok (), { w with
      disk := ((Store.recordFailure a.settings operation id f).run w.disk).2
      notices := ns }) := by
  obtain ⟨ns, h⟩ := a.report_run operation id f w
  exact ⟨ns, h w.pending w.leases⟩

def finished (lease : Lease) (w : Workspace σ) : Workspace σ :=
  if w.pending.contains lease then w
  else { w with leases := w.leases.release lease.holder lease.id }

theorem finished_disk (lease : Lease) (w : Workspace σ) : (finished lease w).disk = w.disk := by
  unfold finished
  split <;> rfl

theorem finished_notices (lease : Lease) (w : Workspace σ) :
    (finished lease w).notices = w.notices := by
  unfold finished
  split <;> rfl

theorem leased_run {lease : Lease} {job : Lease → Job σ α} {w w₀ : Workspace σ}
    (h : (a.start id).run w = (.ok lease, w₀)) : (a.leased operation id job).run w =
      match (job lease).run w₀ with
      | (.ok r, w₁) => (.ok r, finished lease w₁)
      | (.error f, w₁) => (.error f, finished lease ((a.report operation id f).run w₁).2) := by
  unfold leased
  rw [Work.run_bind, h]
  dsimp only
  rw [Work.run_bind, Work.run_get]
  dsimp only
  rcases (job lease).run w₀ with ⟨f | r, w₁⟩
  · obtain ⟨ns, hrep⟩ := a.report_self operation id f w₁
    dsimp only
    simp only [Work.run_bind, Work.run_set, hrep]
    rfl
  · rfl

end Analyzer

theorem RunSteps.leased {a : Analyzer σ} {operation : String} {lease : Lease} {s : Script σ α}
    (hs : s.Orderly) {w w₀ w' : Workspace σ} {r : Except Failure α}
    (hstart : (a.start lease.id).run w = (.ok lease, w₀))
    (h : (a.leased operation lease.id fun l => s.run a.isBusy l).run w = (r, w')) :
    ∃ f : RunState σ α, RunSteps a operation lease (launch s w₀) f ∧ f.ended = true ∧
      f.script.outcome = some r ∧
      (f.hold.site.disk = w'.disk ∧ f.hold.site.notices = w'.notices) ∧
      (w₀.pending.contains lease = false → f.hold.site = { w' with pending := w₀.pending }) := by
  rw [Analyzer.leased_run hstart] at h
  rcases hr : (s.run a.isBusy lease).run w₀ with ⟨f | v, w₁⟩
  all_goals
    rw [hr] at h
    obtain ⟨s', m, st', hf, ho, hp⟩ := RunSteps.run a operation 0 [] hs hr
    have hgive : w₀.pending.contains lease = false →
        (m + 1 = 1 ↔ w₁.pending.contains lease = false) := by
      intro hw
      rcases hp with ⟨rfl, hp⟩ | ⟨hm, hp⟩
      · simpa [hp] using hw
      · rw [hp]
        simpa using hm.ne'
  · obtain ⟨b, rfl⟩ := Script.outcome_eq_error ho
    obtain ⟨ns, hrep⟩ := a.report_run operation lease.id f w₁
    cases h
    have hrun : (a.report operation lease.id f).run w₁ = _ := hrep w₁.pending w₁.leases
    have hrest : (a.report operation lease.id f).run { w₁ with pending := w₀.pending } = _ :=
      hrep w₀.pending w₁.leases
    refine ⟨_, hf.tail .report, rfl, rfl, ⟨?_, ?_⟩, fun hw => ?_⟩
    · rw [Hold.drop_disk, hrun, hrest, Analyzer.finished_disk]
    · rw [Hold.drop_notices, hrun, hrest, Analyzer.finished_notices]
    · simp only [Hold.drop, if_true, hrun, hrest, Analyzer.finished, hgive hw]
      cases w₁.pending.contains lease <;> rfl
  · obtain rfl := Script.outcome_eq_ok ho
    cases h
    refine ⟨_, hf.tail .finish, rfl, rfl, ⟨?_, ?_⟩, fun hw => ?_⟩
    · rw [Hold.drop_disk, Analyzer.finished_disk]
    · rw [Hold.drop_notices, Analyzer.finished_notices]
    · simp only [Hold.drop, if_true, Analyzer.finished, hgive hw]
      cases w₁.pending.contains lease <;> rfl

end SourceAtlas.Run
