import SourceAtlas.Proofs.Run.Analyze

namespace SourceAtlas.Run

open Work

inductive Chain (β : Type) where
  | stop (r : Except Failure β)
  | act (f : Disk → Disk) (k : Disk → Chain β)

namespace Chain

variable {β γ : Type}

def bind : Chain β → (β → Chain γ) → Chain γ
  | .stop (.ok b), g => g b
  | .stop (.error e), _ => .stop (.error e)
  | .act f k, g => .act f fun d => (k d).bind g

instance : Monad Chain where
  pure b := .stop (.ok b)
  bind := bind

def ofTask (t : Task β) : Chain β := .act (fun d => (t.run d).2) fun d => .stop (t.run d).1

def ofQuery (f : Disk → Except Failure β) : Chain β := .act id fun d => .stop (f d)

def attempt (t : Task β) : Chain (Except Failure β) :=
  .act (fun d => (t.run d).2) fun d => .stop (.ok (t.run d).1)

def play : Chain β → Task β
  | .stop r => Work.ofExcept r
  | .act f k => do
      let d ← get
      set (f d)
      (k d).play

theorem play_pure (b : β) : (pure b : Chain β).play = pure b := rfl

theorem play_bind (c : Chain β) (g : β → Chain γ) :
    (c >>= g).play = c.play >>= fun b => (g b).play := by
  induction c with
  | stop r => cases r <;> rfl
  | act f k ih =>
      show (do let d ← get; set (f d); (k d >>= g).play) = _
      simp only [ih, play, bind_assoc]

theorem play_ofTask (t : Task β) : (ofTask t).play = t := by
  refine funext fun d => ?_
  show ((do let d ← get; set (t.run d).2; Work.ofExcept (t.run d).1) : Task β).run d = t.run d
  rw [run_bind, run_get]
  dsimp only
  rw [run_bind, run_set]
  dsimp only
  exact run_ofExcept _ _

theorem play_foldlM {δ : Type} (f : β → δ → Chain β) (ds : List δ) (b : β) :
    (ds.foldlM f b).play = ds.foldlM (fun b x => (f b x).play) b := by
  induction ds generalizing b with
  | nil => rfl
  | cons x ds ih =>
      rw [List.foldlM_cons, List.foldlM_cons, play_bind]
      exact bind_congr fun b => ih b

end Chain

inductive Kind where
  | reset
  | look
  | unpack
  | list
  | graph
  | components
  | save
  deriving DecidableEq

def Kind.carriesLease : Kind → Bool
  | .reset | .look => false
  | _ => true

structure Labor (β : Type) where
  kind : Kind
  rest : Chain β

inductive Slot (β : Type) where
  | ready (l : Labor β)
  | busy (l : Labor β)
  | back (r : Except Failure β)

namespace Slot

variable {β : Type}

def rest : Slot β → Chain β
  | .ready l | .busy l => l.rest
  | .back r => .stop r

def carriesLease : Slot β → Bool
  | .ready l | .busy l => l.kind.carriesLease
  | .back _ => false

def IsFresh : Slot β → Prop
  | .busy _ => False
  | _ => True

def IsSpare : Slot β → Prop
  | .ready l | .busy l => l.kind.carriesLease = true ∨ l.kind = .look
  | .back _ => True

end Slot

structure Limit where
  seconds : Nat
  failure : Failure
  rejects : Bool

def soonest : List Limit → Option Limit
  | [] => none
  | l :: ls => match soonest ls with
    | some m => if l.seconds ≤ m.seconds then some l else some m
    | none => some l

def overdue (isBusy : Bool) (limits : List Limit) : Option Limit :=
  (soonest limits).filter fun l => isBusy || l.seconds = 0

inductive Script (σ α : Type) : Type 1 where
  | done (a : α)
  | failed (rejects : Bool) (f : Failure)
  | go (f : Workspace σ → Workspace σ) (k : Workspace σ → Script σ α)
  | await {β γ : Type} (x : Slot β) (y : Slot γ) (rejects : Bool) (limits : List Limit)
      (k : β → γ → Script σ α)

namespace Script

variable {σ α β γ : Type}

def bind : Script σ α → (α → Script σ β) → Script σ β
  | .done a, g => g a
  | .failed r f, _ => .failed r f
  | .go f k, g => .go f fun w => (k w).bind g
  | .await x y r ls k, g => .await x y r ls fun b c => (k b c).bind g

instance : Monad (Script σ) where
  pure := .done
  bind := bind

theorem bind_done (s : Script σ α) : s >>= pure = s := by
  induction s with
  | done a => rfl
  | failed r f => rfl
  | go f k ih => exact congrArg (Script.go f) (funext ih)
  | await x y r ls k ih =>
      exact congrArg (Script.await x y r ls) (funext fun b => funext (ih b))

def get : Script σ (Workspace σ) := .go id .done

def lift (j : Job σ α) : Script σ α :=
  .go (fun w => (j.run w).2) fun w => match (j.run w).1 with
    | .ok a => .done a
    | .error f => .failed false f

def awaitOne (kind : Kind) (c : Chain α) (rejects : Bool) (limits : List Limit) : Script σ α :=
  .await (.ready ⟨kind, c⟩) (.back (.ok ())) rejects limits fun a _ => .done a

/-- The run if nobody else comes in between: a limit is kept to if there is time at all. -/
def run (isBusy : Bool) (lease : Lease) : Script σ α → Job σ α
  | .done a => pure a
  | .failed _ f => throw f
  | .go f k => do
      let w ← MonadState.get
      set (f w)
      (k w).run isBusy lease
  | .await x y _ limits k =>
      match overdue isBusy limits with
      | some l => do
          if isBusy && (x.carriesLease || y.carriesLease) then
            modify fun w => { w with pending := lease :: w.pending }
          throw l.failure
      | none => do
          let b ← Job.ofTask x.rest.play
          let c ← Job.ofTask y.rest.play
          (k b c).run isBusy lease

section

variable (isBusy : Bool) (lease : Lease)

@[simp] theorem run_pure (a : α) : (pure a : Script σ α).run isBusy lease = pure a := rfl

@[simp] theorem run_bind (s : Script σ α) (g : α → Script σ β) :
    (s >>= g).run isBusy lease = s.run isBusy lease >>= fun a => (g a).run isBusy lease := by
  induction s with
  | done a => rfl
  | failed r f => rfl
  | go f k ih =>
      show (do let w ← MonadState.get; set (f w); ((k w) >>= g).run isBusy lease) = _
      simp only [ih, run, bind_assoc]
  | await x y r ls k ih =>
      show run isBusy lease (.await x y r ls fun b c => k b c >>= g) = _
      simp only [run]
      cases overdue isBusy ls with
      | none => simp only [ih, bind_assoc]
      | some l =>
          dsimp only
          split <;> rfl

theorem run_map (f : α → β) (s : Script σ α) :
    (f <$> s).run isBusy lease = f <$> s.run isBusy lease := run_bind isBusy lease s _

theorem run_discard (s : Script σ α) :
    (discard s).run isBusy lease = discard (s.run isBusy lease) := run_bind isBusy lease s _

@[simp] theorem run_get : (get : Script σ (Workspace σ)).run isBusy lease = MonadState.get := rfl

@[simp] theorem run_lift (j : Job σ α) : (lift j).run isBusy lease = j := by
  refine funext fun w => ?_
  show ((do
    let w ← MonadState.get
    set (j.run w).2
    run isBusy lease (match (j.run w).1 with
      | .ok a => .done a
      | .error f => .failed false f) : Job σ α)).run w = j.run w
  rw [Work.run_bind, Work.run_get]
  dsimp only
  rw [Work.run_bind, Work.run_set]
  rcases j.run w with ⟨_ | _, w'⟩ <;> rfl

theorem ofTask_pure (a : α) : (Job.ofTask (pure a) : Job σ α) = pure a := rfl

theorem run_awaitOne {kind : Kind} {c : Chain α} {r : Bool} {limits : List Limit}
    (h : overdue isBusy limits = none) :
    (awaitOne kind c r limits : Script σ α).run isBusy lease = Job.ofTask c.play := by
  simp only [awaitOne, run, h]
  show (do let b ← Job.ofTask c.play; let _ ← (Job.ofTask (pure ()) : Job σ Unit); pure b) = _
  simp only [ofTask_pure, pure_bind, bind_pure]

theorem run_awaitOne_overdue {kind : Kind} {c : Chain α} {r : Bool} {limits : List Limit}
    {l : Limit} (h : overdue isBusy limits = some l) :
    (awaitOne kind c r limits : Script σ α).run isBusy lease = (do
      if isBusy && kind.carriesLease then
        modify fun w => { w with pending := lease :: w.pending }
      throw l.failure) := by
  simp only [awaitOne, run, h, Slot.carriesLease, Bool.or_false]

end

def Every (G : (Workspace σ → Workspace σ) → Prop)
    (P : {β γ : Type} → Slot β → Slot γ → List Limit → Prop) : Script σ α → Prop
  | .done _ | .failed .. => True
  | .go g k => G g ∧ ∀ w, (k w).Every G P
  | .await x y _ ls k => P x y ls ∧ ∀ b c, (k b c).Every G P

namespace Every

variable {G : (Workspace σ → Workspace σ) → Prop}
  {P : {β γ : Type} → Slot β → Slot γ → List Limit → Prop}

theorem pure (a : α) : (Pure.pure a : Script σ α).Every G P := trivial

theorem failed (r : Bool) (f : Failure) : (failed r f : Script σ α).Every G P := trivial

theorem bind {s : Script σ α} {g : α → Script σ β} (h : s.Every G P) (hg : ∀ a, (g a).Every G P) :
    (s >>= g).Every G P := by
  induction s with
  | done a => exact hg a
  | failed _ _ => trivial
  | go f k ih => exact ⟨h.1, fun w => ih w (h.2 w)⟩
  | await x y r ls k ih => exact ⟨h.1, fun b c => ih b c (h.2 b c)⟩

theorem map {f : α → β} {s : Script σ α} (h : s.Every G P) : (f <$> s).Every G P :=
  h.bind fun _ => pure _

theorem discard {s : Script σ α} (h : s.Every G P) : (discard s : Script σ PUnit).Every G P :=
  h.bind fun _ => pure _

theorem lift {j : Job σ α} (h : G fun w => (j.run w).2) : (lift j).Every G P := by
  refine ⟨h, fun w => ?_⟩
  dsimp only
  split <;> trivial

theorem get (h : G id) : (get : Script σ (Workspace σ)).Every G P := ⟨h, fun _ => trivial⟩

theorem awaitOne {kind : Kind} {c : Chain α} {r : Bool} {limits : List Limit}
    (h : P (.ready ⟨kind, c⟩) (.back (.ok ())) limits) :
    (awaitOne kind c r limits : Script σ α).Every G P := ⟨h, fun _ _ => trivial⟩

end Every

end Script

end SourceAtlas.Run
