import Mathlib.Data.List.Nodup
import Mathlib.Data.List.Pairwise
import SourceAtlas.Analysis.Context
import SourceAtlas.Proofs.Graph.Layers
import SourceAtlas.Proofs.Text.Order
import SourceAtlas.Proofs.Text.Words

namespace SourceAtlas.FeatureContext

open Text (words lower)
open Project (contentOf)

variable {request request' p q : String} {C L : List String}

def Outranks (request : String) (C : List String) (p q : String) : Prop :=
  score q (keywords request) < score p (keywords request) ∨
    score p (keywords request) = score q (keywords request) ∧ C.idxOf p < C.idxOf q

structure IsRanking (request : String) (C L : List String) : Prop where
  mem : ∀ {p}, p ∈ L ↔ p ∈ C ∧ 0 < score p (keywords request)
  ordered : L.Pairwise (Outranks request C)

theorem Outranks.asymm (h : Outranks request C p q) : ¬ Outranks request C q p := by
  unfold Outranks at *
  omega

theorem IsRanking.eq {L' : List String} (h : IsRanking request C L) (h' : IsRanking request C L') :
    L = L' :=
  Text.eq_of_ordered Outranks.asymm h.ordered h'.ordered fun _ => h.mem.trans h'.mem.symm

theorem IsRanking.nodup (h : IsRanking request C L) : L.Nodup :=
  h.ordered.imp fun {p q} hpq hp => by
    subst hp
    exact hpq.asymm hpq

theorem candidates_eq (components : List String) (dependencies : Graph) :
    candidates components dependencies = (components ++ dependencies.keys).eraseDups :=
  Graph.distinct_eq _

section Order

variable {α : Type} {l : List α} {a b : α}

theorem sublist_or_sublist (ha : a ∈ l) (hb : b ∈ l) (hne : a ≠ b) :
    List.Sublist [a, b] l ∨ List.Sublist [b, a] l := by
  have hall : l.Pairwise fun x y => List.Sublist [x, y] l ∨ List.Sublist [y, x] l :=
    List.pairwise_iff_forall_sublist.mpr .inl
  have : Std.Symm fun x y => List.Sublist [x, y] l ∨ List.Sublist [y, x] l := ⟨fun _ _ h => h.symm⟩
  exact hall.forall ha hb hne

variable [DecidableEq α]

theorem idxOf_lt_of_sublist (hl : l.Nodup) (h : List.Sublist [a, b] l) : l.idxOf a < l.idxOf b := by
  have hall : l.Pairwise fun x y => l.idxOf x < l.idxOf y := by
    rw [List.pairwise_iff_getElem]
    intro i j hi hj hij
    rwa [hl.idxOf_getElem, hl.idxOf_getElem]
  exact List.pairwise_iff_forall_sublist.mp hall h

end Order

theorem ranked_eq (request : String) (C : List String) :
    ranked request C = (C.filter fun p => 0 < score p (keywords request)).mergeSort
      fun p q => decide (score q (keywords request) ≤ score p (keywords request)) := by
  simp only [ranked, List.filter_map]
  rw [List.map_mergeSort (s := fun p q =>
    decide (score q (keywords request) ≤ score p (keywords request))), List.map_map]
  · exact congrArg (List.mergeSort · _) (List.map_id _)
  · simp only [List.mem_map]
    rintro _ ⟨p, -, rfl⟩ _ ⟨q, -, rfl⟩
    rfl

theorem ranked_isRanking (hC : C.Nodup) : IsRanking request C (ranked request C) := by
  have hmem : ∀ {p}, p ∈ ranked request C ↔ p ∈ C ∧ 0 < score p (keywords request) := by
    simp [ranked_eq]
  refine ⟨hmem, List.pairwise_iff_forall_sublist.mpr fun {p q} hpq => ?_⟩
  have hp := hmem.mp (hpq.subset (List.mem_cons_self : p ∈ [p, q]))
  have hq := hmem.mp (hpq.subset (List.mem_cons_of_mem p List.mem_cons_self : q ∈ [p, q]))
  rw [ranked_eq] at hpq
  have htrans : ∀ a b c : String,
      decide (score b (keywords request) ≤ score a (keywords request)) = true →
      decide (score c (keywords request) ≤ score b (keywords request)) = true →
      decide (score c (keywords request) ≤ score a (keywords request)) = true := by
    simp only [decide_eq_true_eq]
    omega
  have htotal : ∀ a b : String,
      (decide (score b (keywords request) ≤ score a (keywords request)) ||
        decide (score a (keywords request) ≤ score b (keywords request))) = true := by
    simp only [Bool.or_eq_true, decide_eq_true_eq]
    omega
  have hle := List.pairwise_iff_forall_sublist.mp (List.pairwise_mergeSort htrans htotal _) hpq
  rw [decide_eq_true_eq] at hle
  rcases Nat.lt_or_eq_of_le hle with hlt | heq
  · exact .inl hlt
  · refine .inr ⟨heq.symm, ?_⟩
    -- were they the other way round among the candidates, the sort would have left them so
    have hnodup := (List.mergeSort_perm (C.filter fun p => 0 < score p (keywords request))
      fun p q => decide (score q (keywords request) ≤ score p (keywords request))).nodup_iff.mpr
      (hC.filter _)
    have hne : p ≠ q := by
      rintro rfl
      exact absurd (idxOf_lt_of_sublist hnodup hpq) (Nat.lt_irrefl _)
    have hin : ∀ {x}, x ∈ C ∧ 0 < score x (keywords request) →
        x ∈ C.filter fun p => 0 < score p (keywords request) := by simp
    rcases sublist_or_sublist (hin hp) (hin hq) hne with h | h
    · exact idxOf_lt_of_sublist hC (h.trans List.filter_sublist)
    · have hback := List.pair_sublist_mergeSort htrans htotal (by simp [heq]) h
      have := idxOf_lt_of_sublist hnodup hback
      have := idxOf_lt_of_sublist hnodup hpq
      omega

def IsRewording (request request' : String) : Prop :=
  ((words request.toList).map (·.map Char.toLower)).Perm
    ((words request'.toList).map (·.map Char.toLower))

theorem keywords_eq (request : String) :
    keywords request = ((words request.toList).map (·.map Char.toLower)).map lower := by
  rw [keywords, Text.words_lower, List.map_map]
  exact List.map_congr_left fun w _ => (Text.lower_toLower w).symm

theorem IsRewording.score (h : IsRewording request request') (p : String) :
    score p (keywords request) = score p (keywords request') := by
  have hkeys : (keywords request).Perm (keywords request') := by
    rw [keywords_eq, keywords_eq]
    exact h.map lower
  simp only [FeatureContext.score, hkeys.countP_eq]

theorem IsRewording.ranked (h : IsRewording request request') (C : List String) :
    ranked request C = ranked request' C := by
  simp only [ranked_eq, h.score]

theorem IsRanking.best_of_not_mem_take (h : IsRanking request C L) {maxFiles : Nat} (hp : p ∈ L)
    (hcut : p ∉ L.take maxFiles) : ∃ best : List String, best.length = maxFiles ∧ best.Nodup ∧
      ∀ q ∈ best, q ∈ C ∧ Outranks request C q p := by
  have hdrop : p ∈ L.drop maxFiles := by
    rw [← List.take_append_drop maxFiles L, List.mem_append] at hp
    exact hp.resolve_left hcut
  have hlong : maxFiles ≤ L.length := by
    by_contra hshort
    rw [List.drop_eq_nil_of_le (by omega)] at hdrop
    cases hdrop
  have hsplit := h.ordered
  rw [← List.take_append_drop maxFiles L, List.pairwise_append] at hsplit
  exact ⟨L.take maxFiles, by simp [hlong], h.nodup.sublist (List.take_sublist _ _), fun q hq =>
    ⟨(h.mem.mp (List.mem_of_mem_take hq)).1, hsplit.2.2 q hq p hdrop⟩⟩

theorem select_files (d : Disk) (root : Path) (request : String) (components : List String)
    (dependencies : Graph) (maxFiles : Nat) :
    (select d root request components dependencies maxFiles).1 =
      ((ranked request (candidates components dependencies)).take maxFiles).filterMap fun p =>
        (contentOf d root p).toOption.map (⟨p, ·⟩) := by
  refine List.filterMap_congr fun p _ => ?_
  cases contentOf d root p <;> rfl

theorem map_path_filterMap (f : String → Option String) (l : List String) :
    (l.filterMap fun p => (f p).map (RelevantFile.mk p)).map (·.path) =
      l.filter fun p => (f p).isSome := by
  induction l with
  | nil => rfl
  | cons p l ih => cases h : f p <;> simp [h, ih]

theorem select_by_ranking (d : Disk) (root : Path) (request : String) (components : List String)
    (dependencies : Graph) (maxFiles : Nat) :
    let C := (components ++ dependencies.keys).eraseDups
    let files := (select d root request components dependencies maxFiles).1
    ∃ L, (∀ L', IsRanking request C L' ↔ L' = L) ∧
      files.map (·.path) = (L.take maxFiles).filter (fun p => (contentOf d root p).toOption.isSome) ∧
      (files.map (·.path)).Nodup ∧
      (∀ f ∈ files, contentOf d root f.path = .ok f.content) ∧
      (∀ p ∈ C, 0 < score p (keywords request) → p ∉ files.map (·.path) →
        (∃ e, contentOf d root p = .error e) ∨
          ∃ best : List String, best.length = maxFiles ∧ best.Nodup ∧
            ∀ q ∈ best, q ∈ C ∧ Outranks request C q p) ∧
      ∀ request', IsRewording request request' →
        select d root request' components dependencies maxFiles =
          select d root request components dependencies maxFiles := by
  intro C files
  have hL : IsRanking request C (ranked request C) := ranked_isRanking (Graph.nodup_eraseDups _)
  have hfiles := select_files d root request components dependencies maxFiles
  rw [candidates_eq] at hfiles
  have hpaths : files.map (·.path) = ((ranked request C).take maxFiles).filter
      (fun p => (contentOf d root p).toOption.isSome) := by
    rw [← map_path_filterMap, ← hfiles]
  refine ⟨ranked request C, fun L' => ⟨fun h => h.eq hL, fun h => h ▸ hL⟩, hpaths, ?_, ?_, ?_, ?_⟩
  · rw [hpaths]
    exact (hL.nodup.sublist (List.take_sublist _ _)).filter _
  · intro f hf
    rw [show files = _ from hfiles, List.mem_filterMap] at hf
    obtain ⟨p, -, hp⟩ := hf
    obtain ⟨s, hs, rfl⟩ := Option.map_eq_some_iff.mp hp
    cases hread : contentOf d root p <;> rw [hread] at hs <;> cases hs
    rfl
  · intro p hp hscore hmissing
    rw [hpaths, List.mem_filter, not_and_or] at hmissing
    -- it is cut off by better ones, or it cannot be read
    rcases hmissing with hcut | hread
    · exact .inr (hL.best_of_not_mem_take (hL.mem.mpr ⟨hp, hscore⟩) hcut)
    · cases h : contentOf d root p with
      | error e => exact .inl ⟨e, rfl⟩
      | ok s => exact absurd (by rw [h]; rfl) hread
  · intro request' h
    simp only [select, h.ranked]

end SourceAtlas.FeatureContext
