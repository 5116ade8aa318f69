import SourceAtlas.Proofs.Run.Held
import SourceAtlas.Proofs.Run.Notices

namespace SourceAtlas.Run

open Disk Work

variable {σ α β γ : Type}

inductive Milestone where
  | under (n : Nat)
  | saved (r : Analysis)
  | persisted (r : Analysis)

def IsClimb (n : Nat) (tr : List Stage) : Prop :=
  n ≤ Stage.assembling.rank ∧ tr.Pairwise (·.rank ≤ ·.rank) ∧ ∀ s ∈ tr, s.rank ≤ n

namespace Milestone

def IsOpen : Milestone → Prop
  | .persisted _ => False
  | _ => True

inductive Enters : Milestone → List Stage → Milestone → Prop
  | none {q} : Enters q [] q
  | climb {n s} : n ≤ s.rank → s.rank ≤ Stage.assembling.rank → Enters (.under n) [s] (.under s.rank)
  | persist {r} : Enters (.saved r) [.persisted] (.persisted r)

/-- These are the stages entered up to the milestone. -/
def Ends (tr : List Stage) : Milestone → Prop
  | .under n => IsClimb n tr
  | .saved _ => IsClimb Stage.assembling.rank tr
  | .persisted _ => ∃ pre, tr = pre ++ [.persisted] ∧ IsClimb Stage.assembling.rank pre

end Milestone

namespace IsClimb

variable {n m : Nat} {tr : List Stage}

theorem mono (h : IsClimb n tr) (hnm : n ≤ m) (hm : m ≤ Stage.assembling.rank) : IsClimb m tr :=
  ⟨hm, h.2.1, fun s hs => (h.2.2 s hs).trans hnm⟩

theorem top (h : IsClimb n tr) : IsClimb Stage.assembling.rank tr := h.mono h.1 le_rfl

theorem concat (h : IsClimb n tr) {s : Stage} (hn : n ≤ s.rank) :
    (tr ++ [s]).Pairwise (·.rank ≤ ·.rank) := by
  refine List.pairwise_append.mpr ⟨h.2.1, List.pairwise_singleton .., fun t ht u hu => ?_⟩
  rw [List.mem_singleton.mp hu]
  exact (h.2.2 t ht).trans hn

theorem not_mem (h : IsClimb n tr) {s : Stage} (hs : Stage.assembling.rank < s.rank) : s ∉ tr :=
  fun hm => absurd (h.2.2 s hm) (by have := h.1; omega)

end IsClimb

namespace Milestone

variable {q q' : Milestone} {tr ss : List Stage}

theorem Enters.ends (h : q.Enters ss q') (ht : q.Ends tr) : q'.Ends (tr ++ ss) := by
  cases h with
  | none => rwa [List.append_nil]
  | @climb n s hn hs =>
      refine ⟨hs, ht.concat hn, fun t hm => ?_⟩
      rw [List.mem_append, List.mem_singleton] at hm
      rcases hm with hm | rfl
      · exact (ht.2.2 t hm).trans hn
      · exact le_rfl
  | persist => exact ⟨tr, rfl, ht⟩

theorem Ends.climb (h : q.Ends tr) (hq : q.IsOpen) : IsClimb Stage.assembling.rank tr := by
  cases q with
  | under n => exact IsClimb.top h
  | saved r => exact h
  | persisted r => cases hq

theorem Ends.pairwise (h : q.Ends tr) : tr.Pairwise (·.rank ≤ ·.rank) := by
  cases q with
  | under n => exact h.2.1
  | saved r => exact h.2.1
  | persisted r =>
      obtain ⟨pre, rfl, hpre⟩ := h
      exact hpre.concat (by decide)

theorem Ends.not_failed (h : q.Ends tr) (reason : String) : .failed reason ∉ tr := by
  cases q with
  | under n => exact IsClimb.not_mem h (by show 5 < 7; omega)
  | saved r => exact IsClimb.not_mem h (by show 5 < 7; omega)
  | persisted r =>
      obtain ⟨pre, rfl, hpre⟩ := h
      have := hpre.not_mem (s := .failed reason) (by show 5 < 7; omega)
      simp [this]

theorem Ends.persisted_iff (h : q.Ends tr) : .persisted ∈ tr ↔ ¬q.IsOpen := by
  cases q with
  | under n => simpa [IsOpen] using IsClimb.not_mem h (s := .persisted) (by decide)
  | saved r => simpa [IsOpen] using IsClimb.not_mem h (s := .persisted) (by decide)
  | persisted r =>
      obtain ⟨pre, rfl, _⟩ := h
      simp [IsOpen]

end Milestone

def Chain.MayAnswer (c : Chain β) (b : β) : Prop := ∀ r, c = .stop r → r = .ok b

def Chain.Stores (s : Settings) (r : Analysis) (post : β → Prop) : Chain β → Prop
  | .stop _ => False
  | .act f k => ∀ d,
      (∃ p, (Store.save s r).run d = (.ok p, f d) ∧ ∃ b, k d = .stop (.ok b) ∧ post b) ∨
      ∃ e, k d = .stop (.error e)

def Script.Climbs (s : Settings) (id : String) (stores : Bool)
    (post : α → Milestone → Prop) : Script σ α → Milestone → Prop
  | .done a, q => post a q
  | .failed _ _, q => q.IsOpen
  | .go g k, q => ∀ w, ∃ ss q', entered id (g w).notices = entered id w.notices ++ ss ∧
      q.Enters ss q' ∧ (k w).Climbs s id stores post q'
  | .await x _ _ _ k, q => q.IsOpen ∧
      ((∀ b c, x.rest.MayAnswer b → (k b c).Climbs s id stores post q) ∨
        ∃ n r, q = .under n ∧ (stores = true ∧ r.projectId = id) ∧
          x.rest.Stores s r fun b => ∀ c, (k b c).Climbs s id stores post (.saved r))

section

variable {s : Settings} {id : String} {stores : Bool} {q q' : Milestone}

theorem Chain.Stores.mono {r : Analysis} {post post' : β → Prop} {c : Chain β}
    (h : c.Stores s r post) (hpost : ∀ b, post b → post' b) : c.Stores s r post' := by
  cases c with
  | stop r => cases h
  | act f k =>
      intro d
      rcases h d with ⟨p, hsave, b, hk, hb⟩ | he
      · exact .inl ⟨p, hsave, b, hk, hpost b hb⟩
      · exact .inr he

theorem Chain.stores_save (s : Settings) {r : Analysis} {post : Path → Prop} (h : ∀ p, post p) :
    (Chain.ofTask (Store.save s r).toTask).Stores s r post := by
  intro d
  show (∃ p, (Store.save s r).run d = (.ok p, ((Store.save s r).toTask.run d).2) ∧ _) ∨ _
  rcases hrun : (Store.save s r).toTask.run d with ⟨e | p, d'⟩
  · exact .inr ⟨e, congrArg Chain.stop (congrArg Prod.fst hrun)⟩
  · exact .inl ⟨p, run_toTask_ok hrun, p, congrArg Chain.stop (congrArg Prod.fst hrun), h p⟩

namespace Script.Climbs

variable {post post' : α → Milestone → Prop}

theorem await {x : Slot β} {y : Slot γ} {r : Bool} {ls : List Limit} {k : β → γ → Script σ α} :
    (Script.await x y r ls k).Climbs s id stores post q ↔ q.IsOpen ∧
      ((∀ b c, x.rest.MayAnswer b → (k b c).Climbs s id stores post q) ∨
        ∃ n r, q = .under n ∧ (stores = true ∧ r.projectId = id) ∧
          x.rest.Stores s r fun b => ∀ c, (k b c).Climbs s id stores post (.saved r)) := Iff.rfl

theorem bind {c : Script σ α} {g : α → Script σ β} {post : β → Milestone → Prop}
    (h : c.Climbs s id stores (fun a q => (g a).Climbs s id stores post q) q) :
    (c >>= g).Climbs s id stores post q := by
  induction c generalizing q with
  | done a => exact h
  | failed _ _ => exact h
  | go f k ih =>
      intro w
      obtain ⟨ss, q', hss, hq, hk⟩ := h w
      exact ⟨ss, q', hss, hq, ih w hk⟩
  | await x y r ls k ih =>
      obtain ⟨hopen, h⟩ := await.mp h
      refine await.mpr ⟨hopen, ?_⟩
      rcases h with h | ⟨n, r, hn, hr, hx⟩
      · exact .inl fun b c hb => ih b c (h b c hb)
      · exact .inr ⟨n, r, hn, hr, hx.mono fun b hb c => ih b c (hb c)⟩

theorem map {f : α → β} {c : Script σ α} {post : β → Milestone → Prop}
    (h : c.Climbs s id stores (fun a q => post (f a) q) q) : (f <$> c).Climbs s id stores post q := bind h

theorem discard {c : Script σ α} {post : PUnit → Milestone → Prop}
    (h : c.Climbs s id stores (fun _ q => post ⟨⟩ q) q) :
    (discard c : Script σ PUnit).Climbs s id stores post q := bind h

theorem get {post : Workspace σ → Milestone → Prop} (h : ∀ w, post w q) :
    (get : Script σ (Workspace σ)).Climbs s id stores post q := fun w =>
  ⟨[], q, (List.append_nil _).symm, .none, h w⟩

theorem lift {j : Job σ α} (hq : q.IsOpen) (hj : Hush id j) (h : ∀ a, post a q) :
    (lift j).Climbs s id stores post q := by
  intro w
  refine ⟨[], q, ?_, .none, ?_⟩
  · rw [List.append_nil]
    exact hj w
  · dsimp only
    split
    · exact h _
    · exact hq

theorem notice {text : String} {post : Unit → Milestone → Prop} (hquiet : IsQuiet text)
    (h : post () q) : (Script.lift (Job.notice id text) : Script σ Unit).Climbs s id stores post q := by
  intro w
  refine ⟨[], q, ?_, .none, h⟩
  rw [List.append_nil]
  exact hush_notice (σ := σ) hquiet w

theorem enter {stage : Stage} {post : Unit → Milestone → Prop} (hq : q.Enters [stage] q')
    (h : post () q') : (Script.lift (Job.enter id stage) : Script σ Unit).Climbs s id stores post q := by
  intro w
  refine ⟨[stage], q', ?_, hq, h⟩
  show entered id (w.notices ++ [⟨id, "Stage: " ++ stage.text⟩]) = _
  rw [entered_append, entered_stage]

theorem awaitOne {kind : Kind} {c : Chain α} {r : Bool} {ls : List Limit} (hq : q.IsOpen)
    (h : ∀ a, post a q) : (awaitOne kind c r ls : Script σ α).Climbs s id stores post q :=
  await.mpr ⟨hq, .inl fun a _ _ => h a⟩

theorem save {r : Analysis} {n : Nat} {post : Path → Milestone → Prop} (hr : stores = true ∧ r.projectId = id)
    (h : ∀ p, post p (.saved r)) :
    (Script.awaitOne .save (.ofTask (Store.save s r).toTask) false [] : Script σ Path).Climbs s id
      stores post (.under n) :=
  await.mpr ⟨trivial, .inr ⟨n, r, rfl, hr, Chain.stores_save s fun p _ => h p⟩⟩

theorem giveUp {order : CloneOrder} (hid : order.id = id) (failure : Repository.CloneFailure)
    (details : String) (hq : q.IsOpen) :
    (giveUp order failure details : Script σ α).Climbs s id stores post q := by
  subst hid
  refine bind (notice (quiet_message failure) (bind (awaitOne hq fun r => ?_)))
  cases r with
  | ok _ => exact hq
  | error e => exact bind (notice (IsQuiet.append (by decide) _) hq)

theorem attempts (transport : Repository.Transport σ) (policy : Repository.RetryPolicy)
    {order : CloneOrder} (hid : order.id = id) (timeout left attempt : Nat)
    {post : CloneReport → Milestone → Prop} (hq : q.IsOpen) (h : ∀ r, post r q) :
    (Script.attempts transport policy order timeout left attempt).Climbs s id stores post q := by
  subst hid
  have hcloned : IsQuiet "Cloned on attempt " := by decide
  have hfailed : IsQuiet "Clone attempt " := by decide
  have hretry : IsQuiet "Retrying in " := by decide
  induction left, attempt using Script.attempts.induct with
  | case1 left attempt ih =>
      rw [Script.attempts]
      refine bind (awaitOne hq fun _ => bind (lift hq (fun _ => rfl) fun r => ?_))
      cases r with
      | ok _ => exact bind (notice (hcloned.append _) (h _))
      | error e =>
          refine bind (notice ((((hfailed.append _).append _).append _).append _ |>.append _) ?_)
          cases left with
          | zero => exact giveUp rfl _ _ hq
          | succ left =>
              dsimp only
              split
              · exact bind (notice ((hretry.append _).append _)
                  (bind (lift hq (fun _ => rfl) fun _ => ih)))
              · exact giveUp rfl _ _ hq

end Script.Climbs

namespace Analyzer

open Script.Climbs

variable (a : Analyzer σ) {n : Nat}

theorem climbs_cloneScript (url : String) (token : Option String) (hn : n ≤ 1)
    {post : Path → Milestone → Prop} (h : ∀ p, post p (.under 1)) :
    (a.cloneScript id url token).Climbs s id stores post (.under n) := by
  refine bind (enter (.climb hn (by decide)) (bind ?_))
  unfold Script.clone
  cases Repository.checkUrl url with
  | error r => trivial
  | ok _ =>
      have hquiet : IsQuiet "Cloning " := by decide
      have hid : (⟨id, url, token, a.settings.projectDir id⟩ : CloneOrder).id = id := rfl
      have hopen : (Milestone.under Stage.materializing.rank).IsOpen := trivial
      exact bind (notice ((hquiet.append _).append _)
        (attempts _ _ hid _ _ _ hopen fun r => h r.target))

theorem climbs_rootScript {post : Path → Milestone → Prop} (h : ∀ p, post p q) :
    (a.rootScript id).Climbs s id stores post q := by
  refine bind (get fun w => ?_)
  dsimp only
  split
  · exact bind (notice (IsQuiet.append (by decide) _) (h _))
  · exact h _

theorem climbs_materializeScript (zip : Option Path) (hq : q.IsOpen)
    {post : Path → Milestone → Prop} (h : ∀ p, post p q) :
    (a.materializeScript id zip).Climbs s id stores post q := by
  cases zip with
  | none =>
      refine bind (get fun w => ?_)
      split
      · exact hq
      · exact a.climbs_rootScript h
  | some zip =>
      have hquiet : IsQuiet "Extracting " := by decide
      refine bind (awaitOne hq fun r => bind (notice ((hquiet.append _).append _) ?_))
      exact bind (discard (awaitOne hq fun _ => a.climbs_rootScript h))

theorem climbs_analyzeScript (zip : Option Path) (hn : n ≤ 1)
    (hstores : stores = true) {post : Analysis → Milestone → Prop}
    (h : ∀ r, post r (.persisted r)) :
    (a.analyzeScript id zip).Climbs a.settings id stores post (.under n) := by
  refine bind (enter (.climb hn (by decide)) ?_)
  refine bind (a.climbs_materializeScript zip (q := .under 1) trivial fun root => ?_)
  refine bind (bind (enter (.climb (by decide) (by decide)) (awaitOne trivial fun tree => ?_)))
  refine bind (bind (enter (.climb (by decide) (by decide)) ?_))
  refine bind (enter (.climb (by decide) (by decide)) ?_)
  refine bind (await.mpr ⟨trivial, .inl fun g c _ => ?_⟩)
  refine bind (lift trivial (hush_notices (quiet_warnings g c _)) fun _ => ?_)
  refine bind (enter (.climb (by decide) (by decide)) (bind (get fun w => ?_)))
  refine bind (save ⟨hstores, rfl⟩ fun path => bind (enter .persist ?_))
  exact bind (notice (IsQuiet.append (by decide) _) (h _))

end Analyzer

end

end SourceAtlas.Run
