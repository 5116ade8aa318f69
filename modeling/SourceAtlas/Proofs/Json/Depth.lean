import Mathlib.Tactic.Common
import SourceAtlas.Json.Decode

namespace SourceAtlas.Json

namespace Value

mutual

def depth : Value → Nat
  | .array vs => itemsDepth vs + 1
  | .object ps => pairsDepth ps + 1
  | _ => 0

def itemsDepth : List Value → Nat
  | [] => 0
  | v :: vs => max (depth v) (itemsDepth vs)

def pairsDepth : List (String × Value) → Nat
  | [] => 0
  | (_, v) :: r => max (depth v) (pairsDepth r)

end

theorem itemsDepth_le {vs : List Value} {n : Nat} : itemsDepth vs ≤ n ↔ ∀ v ∈ vs, v.depth ≤ n := by
  induction vs with
  | nil => simp [itemsDepth]
  | cons v vs ih => rw [itemsDepth, Nat.max_le, ih, List.forall_mem_cons]

theorem pairsDepth_le {ps : List (String × Value)} {n : Nat} :
    pairsDepth ps ≤ n ↔ ∀ p ∈ ps, p.2.depth ≤ n := by
  induction ps with
  | nil => simp [pairsDepth]
  | cons p ps ih =>
      obtain ⟨k, v⟩ := p
      rw [pairsDepth, Nat.max_le, ih, List.forall_mem_cons]

end Value

namespace Decode

variable {α : Type} {f : Decode α} {encode : α → Value} {C : α → Prop}

def Reads (f : Decode α) (encode : α → Value) (C : α → Prop) (a : α) : Prop :=
  ∀ n, f (n + 1) (encode a) = some a ↔ (encode a).depth ≤ n ∧ C a

theorem text_reads (s : String) : Reads text .text (fun _ => True) s := by
  intro n
  exact ⟨fun _ => ⟨Nat.zero_le n, trivial⟩, fun _ => rfl⟩

theorem mapM_map {β γ : Type} {g : β → γ} {h : γ → Option β} {xs : List β} :
    (xs.map g).mapM h = some xs ↔ ∀ x ∈ xs, h (g x) = some x := by
  induction xs with
  | nil => simp
  | cons x xs ih =>
      rw [List.map_cons, List.mapM_cons, List.forall_mem_cons, ← ih]
      constructor
      · intro hx
        obtain ⟨y, hy, hx⟩ := Option.bind_eq_some_iff.mp hx
        obtain ⟨ys, hys, hx⟩ := Option.bind_eq_some_iff.mp hx
        cases hx
        exact ⟨hy, hys⟩
      · rintro ⟨hx, hxs⟩
        rw [hx, hxs]
        rfl

theorem list_reads {as : List α} (h : ∀ a ∈ as, Reads f encode C a) :
    Reads (list f) (fun as => .array (as.map encode)) (fun as => ∀ a ∈ as, C a) as := by
  intro n
  cases n with
  | zero => exact ⟨nofun, nofun⟩
  | succ n =>
      show (as.map encode).mapM (f (n + 1)) = some as ↔ _ + 1 ≤ n + 1 ∧ _
      rw [mapM_map, Nat.succ_le_succ_iff, Value.itemsDepth_le, List.forall_mem_map,
        ← forall₂_and]
      exact forall₂_congr fun a ha => h a ha n

theorem map_reads {ps : List (String × α)} (h : ∀ p ∈ ps, Reads f encode C p.2) :
    Reads (map f) (fun ps => .object (ps.map fun p => (p.1, encode p.2)))
      (fun ps => ∀ p ∈ ps, C p.2) ps := by
  intro n
  cases n with
  | zero => exact ⟨nofun, nofun⟩
  | succ n =>
      show (ps.map fun p => (p.1, encode p.2)).mapM (fun p => (f (n + 1) p.2).map (p.1, ·)) =
        some ps ↔ _ + 1 ≤ n + 1 ∧ _
      rw [mapM_map, Nat.succ_le_succ_iff, Value.pairsDepth_le, List.forall_mem_map,
        ← forall₂_and]
      refine forall₂_congr fun p hp => ?_
      rw [← h p hp n, Option.map_eq_some_iff]
      constructor
      · rintro ⟨a, ha, he⟩
        rw [ha, ← he]
      · exact fun ha => ⟨p.2, ha, rfl⟩

def DepthBounded (f : Decode α) : Prop := ∀ {n v a}, f (n + 1) v = some a → v.depth ≤ n

theorem mapM_some {β γ : Type} {h : β → Option γ} {xs : List β} {ys : List γ}
    (hx : xs.mapM h = some ys) : ∀ x ∈ xs, ∃ y, h x = some y := by
  induction xs generalizing ys with
  | nil => exact nofun
  | cons x xs ih =>
      rw [List.mapM_cons] at hx
      obtain ⟨y, hy, hx⟩ := Option.bind_eq_some_iff.mp hx
      obtain ⟨zs, hzs, _⟩ := Option.bind_eq_some_iff.mp hx
      exact List.forall_mem_cons.mpr ⟨⟨y, hy⟩, ih hzs⟩

theorem text_depthBounded : DepthBounded text := by
  intro n v a h
  cases v with
  | text s => exact Nat.zero_le n
  | _ => cases h

theorem list_depthBounded (hf : DepthBounded f) : DepthBounded (list f) := by
  intro n v as h
  cases v with
  | array vs =>
      cases n with
      | zero => cases h
      | succ n =>
          refine Nat.succ_le_succ (Value.itemsDepth_le.mpr fun v hv => ?_)
          obtain ⟨a, ha⟩ := mapM_some h v hv
          exact hf ha
  | _ => cases n <;> cases h

theorem map_depthBounded (hf : DepthBounded f) : DepthBounded (map f) := by
  intro n v ps h
  cases v with
  | object qs =>
      cases n with
      | zero => cases h
      | succ n =>
          refine Nat.succ_le_succ (Value.pairsDepth_le.mpr fun q hq => ?_)
          obtain ⟨p, hp⟩ := mapM_some h q hq
          obtain ⟨a, ha, _⟩ := Option.map_eq_some_iff.mp hp
          exact hf ha
  | _ => cases n <;> cases h

end Decode

end SourceAtlas.Json
