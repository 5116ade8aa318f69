import Mathlib.Data.List.TakeWhile
import Mathlib.Tactic.Common
import SourceAtlas.Text.Blank

namespace SourceAtlas.Text

variable {p : Char → Bool} {c : Char} {ds s : List Char}

def Ends (p : Char → Bool) (s : List Char) : Prop := ∀ c ∈ s.head?, p c = false

theorem Ends.nil (p : Char → Bool) : Ends p [] := nofun

theorem Ends.cons (h : p c = false) (s : List Char) : Ends p (c :: s) := by
  intro x hx
  cases hx
  exact h

theorem ends_of_forall (h : ∀ c ∈ s, p c = false) : Ends p s :=
  fun c hc => h c (List.mem_of_head? hc)

theorem ends_dropWhile (p : Char → Bool) (s : List Char) : Ends p (s.dropWhile p) := by
  intro c hc
  obtain ⟨r, hr⟩ := List.head?_eq_some_iff.mp hc
  have := List.head_dropWhile_not p (l := s) (by rw [hr]; nofun)
  simpa [hr] using this

theorem exists_run (p : Char → Bool) (s : List Char) :
    ∃ w r, s = w ++ r ∧ (∀ c ∈ w, p c = true) ∧ Ends p r :=
  ⟨s.takeWhile p, s.dropWhile p, List.takeWhile_append_dropWhile.symm,
    fun _ => List.mem_takeWhile_imp, ends_dropWhile p s⟩

theorem takeWhile_run (hd : ∀ c ∈ ds, p c = true) (hs : Ends p s) : (ds ++ s).takeWhile p = ds := by
  rw [List.takeWhile_append_of_pos hd]
  cases s with
  | nil => simp
  | cons c s => simp [hs c rfl]

theorem dropWhile_run (hd : ∀ c ∈ ds, p c = true) (hs : Ends p s) : (ds ++ s).dropWhile p = s := by
  rw [List.dropWhile_append_of_pos hd]
  cases s with
  | nil => rfl
  | cons c s => simp [hs c rfl]

theorem dropWhile_eq_self (h : Ends p s) : s.dropWhile p = s := by
  have hnone : ∀ c ∈ ([] : List Char), p c = true := nofun
  exact dropWhile_run hnone h

theorem split_last_run (p : Char → Bool) (s : List Char) :
    (s.reverse.dropWhile p).reverse ++ (s.reverse.takeWhile p).reverse = s := by
  rw [← List.reverse_append, List.takeWhile_append_dropWhile, List.reverse_reverse]

theorem bne_of_not_mem {x : Char} (h : x ∉ s) : ∀ c ∈ s, (c != x) = true := by
  intro c hc
  rw [bne_iff_ne]
  rintro rfl
  exact h hc

theorem not_mem_takeWhile (x : Char) (s : List Char) : x ∉ s.takeWhile (· != x) := fun hm => by
  have := List.mem_takeWhile_imp hm
  simp at this

theorem trim_split (s : List Char) : ∃ before after, s = before ++ trim s ++ after ∧
    trimLeft s = trim s ++ after ∧ (∀ c ∈ before, isBlank c = true) ∧
    ∀ c ∈ after, isBlank c = true := by
  have hright := split_last_run isBlank (trimLeft s)
  refine ⟨s.takeWhile isBlank, ((trimLeft s).reverse.takeWhile isBlank).reverse, ?_, hright.symm,
    fun c => List.mem_takeWhile_imp, fun c hc => List.mem_takeWhile_imp (List.mem_reverse.mp hc)⟩
  rw [List.append_assoc, trim, trimRight, hright]
  exact (List.takeWhile_append_dropWhile).symm

theorem trim_eq_self (h : Ends isBlank s) (hr : Ends isBlank s.reverse) : trim s = s := by
  rw [trim, trimLeft, dropWhile_eq_self h, trimRight, dropWhile_eq_self hr, List.reverse_reverse]

end SourceAtlas.Text
