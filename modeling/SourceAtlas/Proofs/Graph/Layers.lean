import Mathlib.Data.List.Induction
import Mathlib.Data.List.Nodup
import Mathlib.Logic.Relation
import SourceAtlas.Graph.Module

namespace SourceAtlas.Graph

section Once

variable {α β : Type} [DecidableEq α] [DecidableEq β]

theorem eraseDups_concat (l : List α) (x : α) :
    (l ++ [x]).eraseDups = if x ∈ l then l.eraseDups else l.eraseDups ++ [x] := by
  rw [List.eraseDups_append]
  split
  · next h => simp [List.removeAll, h]
  · next h => simp [List.removeAll, h, List.eraseDups_cons]

theorem nodup_eraseDups (l : List α) : l.eraseDups.Nodup := by
  induction l using List.reverseRecOn with
  | nil => exact .nil
  | append_singleton l x ih =>
      rw [eraseDups_concat]
      split
      · exact ih
      · next h =>
          rw [List.nodup_append]
          refine ⟨ih, List.nodup_singleton x, fun a ha b hb => ?_⟩
          rw [List.mem_singleton.mp hb]
          rintro rfl
          exact h (List.mem_eraseDups.mp ha)

theorem eraseDups_isPrefix {l l' : List α} (h : l <+: l') : l.eraseDups <+: l'.eraseDups := by
  obtain ⟨r, rfl⟩ := h
  rw [List.eraseDups_append]
  exact List.prefix_append ..

theorem distinct_eq (l : List α) : distinct l = l.eraseDups := by
  induction l using List.reverseRecOn with
  | nil => rfl
  | append_singleton l x ih =>
      rw [distinct] at ih ⊢
      rw [List.foldl_append, ih, eraseDups_concat]
      simp only [List.foldl_cons, List.foldl_nil, List.mem_eraseDups]

theorem filterMap_eraseDups {f : α → Option β} {l : List α}
    (hf : ∀ x ∈ l, ∀ y ∈ l, ∀ b, f x = some b → f y = some b → x = y) :
    l.eraseDups.filterMap f = (l.filterMap f).eraseDups := by
  induction l using List.reverseRecOn with
  | nil => rfl
  | append_singleton l x ih =>
      have hl := ih fun a ha b hb => hf a (List.mem_append_left _ ha) b (List.mem_append_left _ hb)
      rw [eraseDups_concat, List.filterMap_append]
      rcases hx : f x with _ | b
      · simp only [List.filterMap_cons_none hx, List.filterMap_nil, List.append_nil, ← hl]
        split
        · rfl
        · rw [List.filterMap_append, List.filterMap_cons_none hx, List.filterMap_nil,
            List.append_nil]
      · rw [List.filterMap_cons_some hx, List.filterMap_nil, eraseDups_concat, ← hl]
        have hmem : b ∈ l.filterMap f ↔ x ∈ l := by
          refine ⟨fun h => ?_, fun h => List.mem_filterMap.mpr ⟨x, h, hx⟩⟩
          obtain ⟨y, hy, hb⟩ := List.mem_filterMap.mp h
          rwa [hf x (by simp) y (by simp [hy]) b hx hb]
        by_cases h : x ∈ l
        · rw [if_pos h, if_pos (hmem.mpr h)]
        · rw [if_neg h, if_neg fun hb => h (hmem.mp hb), List.filterMap_append,
            List.filterMap_cons_some hx, List.filterMap_nil]

end Once

section

variable (imports : Path → List Path) (entry : Path)

def layer : Nat → List Path × List Path
  | 0 => ([], [entry])
  | n + 1 =>
      let nearer := (layer n).1 ++ (layer n).2
      (nearer, (((layer n).2.flatMap imports).filter (· ∉ nearer)).eraseDups)

/-- The files within so many imports of the entry point, in the order of a breadth-first search. -/
def order (n : Nat) : List Path := (layer imports entry n).1 ++ (layer imports entry n).2

def Reaches : Path → Path → Prop := Relation.ReflTransGen fun x y => y ∈ imports x

variable {imports entry}

theorem order_zero : order imports entry 0 = [entry] := rfl

theorem order_succ (n : Nat) :
    order imports entry (n + 1) = (entry :: (order imports entry n).flatMap imports).eraseDups := by
  have hremove : ∀ l seen : List Path, l.removeAll seen = l.filter (· ∉ seen) := by
    intro l seen
    exact List.filter_congr fun x _ => by simp
  have hstep : ∀ n, order imports entry (n + 1) = order imports entry n ++
      (((layer imports entry n).2.flatMap imports).removeAll (order imports entry n)).eraseDups := by
    intro n
    rw [hremove]
    rfl
  -- a layer holds what the one before imports and no earlier one holds
  induction n with
  | zero =>
      rw [hstep, order_zero]
      have happend : ([entry] ++ [entry].flatMap imports).eraseDups = _ := List.eraseDups_append
      exact happend.symm
  | succ n ih =>
      have hlast : order imports entry (n + 1) =
          order imports entry n ++ (layer imports entry (n + 1)).2 := rfl
      have hmem : ∀ l : List Path, l.removeAll (order imports entry (n + 1)) =
          l.removeAll (entry :: (order imports entry n).flatMap imports) := by
        intro l
        rw [hremove, hremove, ih]
        exact List.filter_congr fun x _ => by simp only [List.mem_eraseDups]
      calc order imports entry (n + 2)
          = (entry :: (order imports entry n).flatMap imports).eraseDups ++
              (((layer imports entry (n + 1)).2.flatMap imports).removeAll
                (entry :: (order imports entry n).flatMap imports)).eraseDups := by
            rw [hstep, hmem, ih]
        _ = (entry :: (order imports entry n).flatMap imports ++
              (layer imports entry (n + 1)).2.flatMap imports).eraseDups :=
            List.eraseDups_append.symm
        _ = (entry :: (order imports entry (n + 1)).flatMap imports).eraseDups := by
            rw [List.cons_append, ← List.flatMap_append, ← hlast]

theorem order_isPrefix (n : Nat) : order imports entry n <+: order imports entry (n + 1) :=
  List.prefix_append ..

theorem order_grows (n : Nat) :
    n < (order imports entry n).length ∨ order imports entry (n + 1) = order imports entry n := by
  induction n with
  | zero => exact .inl (by simp [order_zero])
  | succ n ih =>
      rcases ih with ih | ih
      · by_cases he : order imports entry (n + 1) = order imports entry n
        · refine .inr ?_
          rw [order_succ, he, ← order_succ, he]
        · refine .inl ?_
          have hle : (order imports entry n).length ≤ (order imports entry (n + 1)).length :=
            (order_isPrefix n).length_le
          have hne : (order imports entry n).length ≠ (order imports entry (n + 1)).length :=
            fun h => he ((order_isPrefix n).eq_of_length h).symm
          omega
      · refine .inr ?_
        rw [order_succ, ih, ← order_succ, ih]

theorem mem_order_succ {n : Nat} {x y : Path} (hx : x ∈ order imports entry n) (hy : y ∈ imports x) :
    y ∈ order imports entry (n + 1) := by
  rw [order_succ, List.mem_eraseDups]
  exact .tail _ (List.mem_flatMap.mpr ⟨x, hx, hy⟩)

theorem mem_order_of_reaches {n : Nat} (hn : order imports entry (n + 1) = order imports entry n)
    {x : Path} (hx : Reaches imports entry x) : x ∈ order imports entry n := by
  induction hx with
  | refl =>
      rw [← hn, order_succ, List.mem_eraseDups]
      exact List.mem_cons_self
  | tail _ hy ih => exact hn ▸ mem_order_succ ih hy

theorem isPrefix_discover (maxFiles : Nat) (ts seen : List Path) :
    seen <+: ts.foldl (discover maxFiles) seen := by
  induction ts generalizing seen with
  | nil => exact List.prefix_rfl
  | cons x ts ih =>
      refine List.IsPrefix.trans ?_ (ih (discover maxFiles seen x))
      unfold discover
      split
      · exact List.prefix_append ..
      · exact List.prefix_rfl

theorem foldl_discover {maxFiles : Nat} {l : List Path} (hl : l ≠ []) (ts : List Path) :
    ts.foldl (discover maxFiles) (l.eraseDups.take (max maxFiles 1)) =
      (l ++ ts).eraseDups.take (max maxFiles 1) := by
  induction ts using List.reverseRecOn with
  | nil => rw [List.append_nil, List.foldl_nil]
  | append_singleton ts x ih =>
      rw [List.foldl_append, List.foldl_cons, List.foldl_nil, ih, ← List.append_assoc,
        eraseDups_concat, discover]
      generalize hs : (l ++ ts).eraseDups = seen
      have hpos : 0 < seen.length := by
        obtain ⟨a, r, rfl⟩ := List.exists_cons_of_ne_nil hl
        rw [← hs, List.cons_append, List.eraseDups_cons]
        exact Nat.zero_lt_succ _
      have hmem : x ∈ l ++ ts ↔ x ∈ seen := by rw [← hs, List.mem_eraseDups]
      rw [List.length_take]
      by_cases hroom : seen.length < maxFiles
      · -- nothing has been cut off yet
        rw [List.take_of_length_le (by omega : seen.length ≤ max maxFiles 1)]
        by_cases hx : x ∈ l ++ ts
        · rw [if_pos hx, if_neg fun h => h.2 (hmem.mp hx), List.take_of_length_le (by omega)]
        · rw [if_neg hx, if_pos ⟨by omega, fun h => hx (hmem.mpr h)⟩, List.take_of_length_le]
          rw [List.length_append, List.length_singleton]
          omega
      · rw [if_neg (by omega)]
        split
        · rfl
        · rw [List.take_append_of_le_length (by omega)]

end

end SourceAtlas.Graph
