import Mathlib.Data.List.Induction
import Mathlib.Data.List.Nodup
import Mathlib.Data.String.Basic
import SourceAtlas.Graph.Extract

namespace SourceAtlas.Graph

theorem mem_insert {key : String} {ts : List String} {g : Graph} {e : String × List String}
    (h : e ∈ g.insert key ts) : e = (key, ts) ∨ e ∈ g := by
  induction g with
  | nil => exact .inl (List.mem_singleton.mp h)
  | cons x r ih =>
      obtain ⟨k, us⟩ := x
      rw [insert] at h
      split at h
      · rcases List.mem_cons.mp h with h | h
        · exact .inl h
        · exact .inr (.tail _ h)
      · split at h
        · rcases List.mem_cons.mp h with h | h
          · exact .inl h
          · exact .inr h
        · rcases List.mem_cons.mp h with h | h
          · exact .inr (h ▸ List.mem_cons_self)
          · exact (ih h).imp_right (.tail _)

theorem ofProject_graph (d : Disk) (root : Path) (limits : Limits) :
    (ofModules d root limits.maxSourceFiles limits.maxParseBytes =
      .graph (ofProject d root limits).graph ∧ (ofProject d root limits).strategy = "module-graph") ∨
    ((ofScan d root limits.maxSourceFiles limits.maxParseBytes =
      .graph (ofProject d root limits).graph ∨ (ofProject d root limits).graph = []) ∧
      (ofProject d root limits).strategy = "manual-scan") := by
  have hfall : ∀ reason,
      (ofScan d root limits.maxSourceFiles limits.maxParseBytes =
        .graph ((manual d root limits).fallBack reason).graph ∨
        ((manual d root limits).fallBack reason).graph = []) ∧
      ((manual d root limits).fallBack reason).strategy = "manual-scan" := by
    intro reason
    unfold Strategy.fallBack
    split
    · next hg => exact ⟨.inl hg, rfl⟩
    · exact ⟨.inr rfl, rfl⟩
    · exact ⟨.inr rfl, rfl⟩
  unfold ofProject Strategy.extract
  split
  · next hg => exact .inl ⟨hg, rfl⟩
  · exact .inr (hfall _)
  · exact .inr (hfall _)

def IsSorted (g : Graph) : Prop := g.Pairwise fun e f => e.1 < f.1

theorem before_iff {a b : String} : Disk.before a b = true ↔ a ≤ b := decide_eq_true_iff

theorem IsSorted.insert {g : Graph} (hg : g.IsSorted) (key : String) (ts : List String) :
    (g.insert key ts).IsSorted := by
  induction g with
  | nil => exact List.pairwise_singleton ..
  | cons x r ih =>
      obtain ⟨k, us⟩ := x
      obtain ⟨hk, hr⟩ := List.pairwise_cons.mp hg
      rw [Graph.insert]
      split
      · next he =>
          subst he
          exact List.pairwise_cons.mpr ⟨hk, hr⟩
      · next hne =>
          split
          · next hb =>
              have hlt : key < k := lt_of_le_of_ne (before_iff.mp hb) hne
              refine List.pairwise_cons.mpr ⟨fun e he => ?_, hg⟩
              rcases List.mem_cons.mp he with rfl | he
              · exact hlt
              · exact hlt.trans (hk e he)
          · next hb =>
              have hlt : k < key := not_le.mp fun h => hb (before_iff.mpr h)
              refine List.pairwise_cons.mpr ⟨fun e he => ?_, ih hr⟩
              rcases mem_insert he with rfl | he
              · exact hlt
              · exact hk e he

theorem IsSorted.ofList (es : List (String × List String)) : (ofList es).IsSorted := by
  have hfold : ∀ {g : Graph}, g.IsSorted → IsSorted (es.foldl (fun g e => g.insert e.1 e.2) g) := by
    intro g hg
    induction es generalizing g with
    | nil => exact hg
    | cons e es ih => exact ih (hg.insert e.1 e.2)
  exact hfold .nil

theorem insert_last {g : Graph} {key : String} (h : ∀ e ∈ g, e.1 < key) (ts : List String) :
    g.insert key ts = g ++ [(key, ts)] := by
  induction g with
  | nil => rfl
  | cons x r ih =>
      obtain ⟨k, us⟩ := x
      have hk : k < key := h (k, us) List.mem_cons_self
      have hb : ¬ Disk.before key k = true := fun hb => absurd (before_iff.mp hb) (not_le.mpr hk)
      rw [insert, if_neg hk.ne', if_neg hb, ih fun e he => h e (.tail _ he)]
      rfl

theorem ofList_of_sorted {g : Graph} (hg : g.IsSorted) : ofList g = g := by
  have hfold : ∀ {es : List (String × List String)} {g : Graph}, (g ++ es).Pairwise (·.1 < ·.1) →
      es.foldl (fun g e => g.insert e.1 e.2) g = g ++ es := by
    intro es
    induction es with
    | nil => exact fun _ => (List.append_nil _).symm
    | cons e es ih =>
        intro g h
        have hlast : ∀ x ∈ g, x.1 < e.1 :=
          fun x hx => (List.pairwise_append.mp h).2.2 x hx e List.mem_cons_self
        rw [List.foldl_cons, insert_last hlast, ih (by simpa using h), List.append_assoc]
        rfl
  exact hfold hg

theorem mem_insert_of_fresh {g : Graph} {key : String} (h : ∀ e ∈ g, e.1 ≠ key) (ts : List String)
    {e : String × List String} : e ∈ g.insert key ts ↔ e = (key, ts) ∨ e ∈ g := by
  refine ⟨mem_insert, ?_⟩
  induction g with
  | nil => simp [insert]
  | cons x r ih =>
      obtain ⟨k, us⟩ := x
      have hk : key ≠ k := fun he => h (k, us) List.mem_cons_self he.symm
      rw [insert, if_neg hk]
      split
      · exact List.mem_cons.mpr
      · have hr := ih fun e he => h e (.tail _ he)
        rintro (he | he)
        · exact .tail _ (hr (.inl he))
        · rcases List.mem_cons.mp he with rfl | he
          · exact List.mem_cons_self
          · exact .tail _ (hr (.inr he))

theorem ofList_concat (es : List (String × List String)) (e : String × List String) :
    ofList (es ++ [e]) = (ofList es).insert e.1 e.2 := by
  rw [ofList, List.foldl_append]
  rfl

theorem mem_ofList {es : List (String × List String)} (h : (es.map (·.1)).Nodup)
    (e : String × List String) : e ∈ ofList es ↔ e ∈ es := by
  induction es using List.reverseRecOn generalizing e with
  | nil => exact Iff.rfl
  | append_singleton es x ih =>
      rw [List.map_append, List.nodup_append] at h
      have hfresh : ∀ e ∈ ofList es, e.1 ≠ x.1 := fun e he =>
        h.2.2 e.1 (List.mem_map_of_mem ((ih h.1 e).mp he)) x.1 (by simp)
      rw [ofList_concat, mem_insert_of_fresh hfresh, ih h.1, List.mem_append, List.mem_singleton,
        or_comm]

theorem edges_eq_zero {g : Graph} : edges g = 0 ↔ ∀ e ∈ g, e.2 = [] := by
  have hfold : ∀ {g : Graph} {n : Nat},
      g.foldl (fun n e => n + e.2.length) n = 0 ↔ n = 0 ∧ ∀ e ∈ g, e.2 = [] := by
    intro g
    induction g with
    | nil => simp
    | cons e g ih =>
        intro n
        rw [List.foldl_cons, ih, Nat.add_eq_zero_iff, List.length_eq_zero_iff, List.forall_mem_cons,
          and_assoc]
  rw [edges, hfold]
  simp

variable {d : Disk} {root : Path}

theorem explore_sorted (maxFiles maxBytes fuel done : Nat) (seen : List Path) {g : Graph}
    (hg : g.IsSorted) : (explore d root maxFiles maxBytes fuel done seen g).IsSorted := by
  induction fuel generalizing done seen g with
  | zero => exact hg
  | succ n ih =>
      unfold explore
      split
      · exact hg
      · split
        · exact ih _ _ hg
        · exact ih _ _ (hg.insert _ _)

theorem ofModules_sorted {maxFiles maxBytes : Nat} {g : Graph}
    (h : ofModules d root maxFiles maxBytes = .graph g) : g.IsSorted := by
  unfold ofModules at h
  split at h
  · cases h
  · dsimp only at h
    split at h
    · cases h
    · cases h
      exact explore_sorted _ _ _ _ _ .nil

theorem ofScan_sorted {maxFiles maxBytes : Nat} {g : Graph}
    (h : ofScan d root maxFiles maxBytes = .graph g) : g.IsSorted := by
  unfold ofScan at h
  split at h
  · cases h
  · split at h
    · cases h
    · cases h
      exact .ofList _

theorem ofProject_sorted (d : Disk) (root : Path) (limits : Limits) :
    (ofProject d root limits).graph.IsSorted := by
  rcases ofProject_graph d root limits with ⟨hg, _⟩ | ⟨hg | hg, _⟩
  · exact ofModules_sorted hg
  · exact ofScan_sorted hg
  · rw [hg]
    exact .nil

end SourceAtlas.Graph
