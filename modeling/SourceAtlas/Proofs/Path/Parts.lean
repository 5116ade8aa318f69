import Mathlib.Data.List.TakeWhile
import Mathlib.Tactic.Common
import SourceAtlas.Path.Basic

namespace SourceAtlas.Path

def front (p : Path) : List Name :=
  if p.segments.getLast? = some "" then p.segments.dropLast else p.segments

theorem segments_join {p q : Path} (hq : q.isAbsolute = false) :
    (p.join q).segments = p.front ++ q.segments := by
  unfold join front
  rw [if_neg (by simp [hq])]
  split <;> rfl

theorem segments_eq_front (p : Path) : p.segments = p.front ∨ p.segments = p.front ++ [""] := by
  unfold front
  split
  · next h =>
      obtain ⟨ys, hy⟩ := List.getLast?_eq_some_iff.mp h
      exact .inr (by rw [hy]; simp)
  · exact .inl rfl

theorem segments_ofText_ne_nil (s : String) : (ofText s).segments ≠ [] := by
  simp [ofText, Text.splitAt_ne_nil]

theorem isEmpty_of_segments {p : Path} (h : p.segments = [] ∨ p.segments = [""]) :
    p.isEmpty = true := by
  rcases h with h | h <;> simp [isEmpty, h]

theorem segments_of_isEmpty {p : Path} (h : p.isEmpty = true) :
    p.segments = [] ∨ p.segments = [""] := by
  obtain ⟨_ | ⟨n, _ | ⟨m, r⟩⟩⟩ := p
  · exact .inl rfl
  · exact .inr (by simpa [isEmpty] using h)
  · simp [isEmpty] at h

theorem isEmpty_cons {n : Name} {r : List Name} (h : ¬ (n = "" ∧ r = [])) :
    isEmpty ⟨n :: r⟩ = false := by
  cases r with
  | nil => simpa [isEmpty] using h
  | cons => simp [isEmpty]

theorem front_ne_nil {p : Path} (h : p.isEmpty = false) : p.front ≠ [] := by
  intro hf
  have : p.isEmpty = true := by
    apply isEmpty_of_segments
    rcases p.segments_eq_front with hs | hs
    · exact .inl (hs.trans hf)
    · exact .inr (by rw [hs, hf]; rfl)
  rw [this] at h
  cases h

theorem isAbsolute_iff {p : Path} : p.isAbsolute = true ↔ ∃ n r, p.segments = "" :: n :: r := by
  obtain ⟨_ | ⟨m, _ | ⟨n, r⟩⟩⟩ := p
  · simp [isAbsolute]
  · simp [isAbsolute]
  · by_cases hm : m = "" <;> simp [isAbsolute, hm]

theorem isAbsolute_front {p q : Path} {ms : List Name} (hq : q.isEmpty = false)
    (h : p.segments = q.segments ++ ms) : p.isAbsolute = q.isAbsolute := by
  obtain ⟨_ | ⟨n, _ | ⟨m, r⟩⟩⟩ := q
  · simp [isEmpty] at hq
  · have hn : n ≠ "" := by simpa [isEmpty] using hq
    rw [Bool.eq_iff_iff, isAbsolute_iff, isAbsolute_iff, h]
    simp [hn]
  · rw [Bool.eq_iff_iff, isAbsolute_iff, isAbsolute_iff, h]
    simp

theorem isAbsolute_part {as : List Name} (ms : List Name) (h : isAbsolute ⟨as ++ ms⟩ = false) :
    isAbsolute ⟨as⟩ = false := by
  rw [← Bool.not_eq_true, isAbsolute_iff] at h ⊢
  rintro ⟨n, r, hs⟩
  exact h ⟨n, r ++ ms, congrArg (· ++ ms) hs⟩

theorem isAbsolute_join {p q : Path} (hp : p.isEmpty = false) (hq : q.isAbsolute = false)
    (hs : q.segments ≠ []) : (p.join q).isAbsolute = p.isAbsolute := by
  obtain ⟨n, r, hn⟩ := List.exists_cons_of_ne_nil (front_ne_nil hp)
  obtain ⟨m, t, hm⟩ := List.exists_cons_of_ne_nil hs
  rw [Bool.eq_iff_iff, isAbsolute_iff, isAbsolute_iff, segments_join hq, hn, hm]
  by_cases hl : p.segments.getLast? = some ""
  · obtain ⟨ys, hy⟩ := List.getLast?_eq_some_iff.mp hl
    have hf : p.segments = p.front ++ [""] := by rw [front, if_pos hl, hy]; simp
    rw [hf, hn]
    cases r <;> simp
  · have hf : p.segments = p.front := by rw [front, if_neg hl]
    rw [hf, hn]
    cases r with
    | cons => simp
    | nil =>
        have hne : n ≠ "" := by
          rintro rfl
          exact hl (by rw [hf, hn]; rfl)
        simp [hne]

theorem join_of_isEmpty {p q : Path} (hp : p.isEmpty = true) (hq : q.isAbsolute = false) :
    p.join q = q := by
  obtain ⟨_ | ⟨n, _ | ⟨m, ns⟩⟩⟩ := p
  · simp [join, hq]
  · obtain rfl : n = "" := by simpa [isEmpty] using hp
    simp [join, hq]
  · simp [isEmpty] at hp

theorem isEmpty_join {p q : Path} (hp : p.isEmpty = false) (hq : q.isAbsolute = false)
    (hs : q.segments ≠ []) : (p.join q).isEmpty = false := by
  have hf := List.length_pos_iff.mpr (front_ne_nil hp)
  have := List.length_pos_iff.mpr hs
  have hl : ¬ (p.join q).segments.length ≤ 1 := by
    rw [segments_join hq, List.length_append]
    omega
  simp [isEmpty, hl]

theorem inner_eq_name {n : Name} (h : ¬ (n = "" ∨ n = ".")) (hu : n ≠ "..") :
    inner n = some (.name n) := by
  unfold inner
  split
  · exact absurd (.inl rfl) h
  · exact absurd (.inr rfl) h
  · exact absurd rfl hu
  · rfl

theorem inner_eq_some {n m : Name} (h : inner n = some (.name m)) : n = m := by
  unfold inner at h
  split at h
  · cases h
  · cases h
  · cases h
  · injection h with h
    injection h

theorem steps_of_isEmpty {p : Path} (h : p.isEmpty = true) : p.steps = [] := by
  rw [steps]
  rcases segments_of_isEmpty h with hs | hs <;> rw [hs] <;> rfl

theorem steps_of_absolute {p : Path} (h : p.isAbsolute = true) : ∃ cs, p.steps = .root :: cs := by
  obtain ⟨n, r, hs⟩ := isAbsolute_iff.mp h
  refine ⟨(n :: r).filterMap inner, ?_⟩
  rw [steps, hs]
  rfl

theorem steps_of_relative {p : Path} (h : p.isAbsolute = false) :
    p.steps = p.segments.filterMap inner ∨ p.steps = .here :: p.segments.filterMap inner := by
  unfold steps
  split
  · next hs =>
      rw [isAbsolute_iff.mpr ⟨_, _, hs⟩] at h
      cases h
  · next hs =>
      rw [hs]
      exact .inr rfl
  · exact .inl rfl

def top : Path := ⟨["", ""]⟩

theorem dropIdle_cons (n : Name) (r : List Name) :
    ∃ t u, dropIdle (n :: r) = n :: t ∧ r = t ++ u ∧ (∀ m ∈ u, isStep m = false) ∧
      (t = [] ∨ ∃ t' m, t = t' ++ [m] ∧ isStep m = true) := by
  refine ⟨_, (r.reverse.takeWhile fun s => !isStep s).reverse, rfl, ?_, ?_, ?_⟩
  · rw [← List.reverse_append, List.takeWhile_append_dropWhile, List.reverse_reverse]
  · intro m hm
    simpa using List.mem_takeWhile_imp (List.mem_reverse.mp hm)
  · cases hw : r.reverse.dropWhile fun s => !isStep s with
    | nil => exact .inl rfl
    | cons m w =>
        have hm := List.head_dropWhile_not (fun s => !isStep s) (l := r.reverse) (by simp [hw])
        refine .inr ⟨w.reverse, m, by simp, ?_⟩
        simpa [hw] using hm

theorem parent_eq_part {p q : Path} (h : p.parent = some q) :
    q = empty ∨ q = top ∨ (q.isEmpty = false ∧ ∃ u m v, p.segments = q.segments ++ (u ++ m :: v) ∧
      isStep m = true ∧ (∀ x ∈ u, isStep x = false) ∧ ∀ x ∈ v, isStep x = false) := by
  obtain ⟨_ | ⟨n, r⟩⟩ := p
  · simp [parent, dropIdle] at h
  obtain ⟨t, v, hd, rfl, hv, ht⟩ := dropIdle_cons n r
  rw [parent, hd] at h
  rcases ht with rfl | ⟨t', m, rfl, hm⟩
  · split at h
    · cases h
    · cases h
    · cases h; exact .inl rfl
    · next hne _ => simp_all
  · split at h
    · simp at *
    · simp at *
    · simp at *
    · next n' r' hn =>
        obtain ⟨rfl, rfl⟩ := List.cons.inj hn
        obtain ⟨t, u, hd', hu, hidle, _⟩ := dropIdle_cons n (t' ++ [m]).dropLast
        rw [hd'] at h
        split at h
        · cases h; exact .inr (.inl rfl)
        · next hne =>
            cases h
            refine .inr (.inr ⟨?_, u, m, v, ?_, hm, hidle, hv⟩)
            · exact isEmpty_cons fun h => hne (by rw [h.1, h.2])
            · simp at hu
              simp [hu]

theorem parent_eq_some {p q : Path} (h : p.parent = some q) :
    q = empty ∨ q = top ∨ (q.isEmpty = false ∧
      ∃ ms, p.segments = q.segments ++ ms ∧ ∃ n ∈ ms, isStep n = true) := by
  rcases parent_eq_part h with he | ht | ⟨hq, u, m, v, hs, hm, _⟩
  · exact .inl he
  · exact .inr (.inl ht)
  · exact .inr (.inr ⟨hq, _, hs, m, by simp, hm⟩)

end SourceAtlas.Path
