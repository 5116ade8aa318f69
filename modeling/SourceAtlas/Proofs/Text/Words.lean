import SourceAtlas.Proofs.Text.Lower

namespace SourceAtlas.Text

variable {s t w b : List Char} {c : Char}

abbrev Parts (t : List Char) : Prop := Ends (fun c => !isBlank c) t

theorem Parts.blank (h : Parts (c :: t)) : isBlank c = true := by simpa using h c rfl

theorem words_nil : words [] = [] := by rw [words]

theorem words_blank (h : isBlank c = true) (s : List Char) : words (c :: s) = words s := by
  rw [words, if_pos h]

theorem words_word (hne : w ≠ []) (hw : ∀ c ∈ w, isBlank c = false) (ht : Parts t) :
    words (w ++ t) = w :: words t := by
  obtain ⟨c, r, rfl⟩ := List.exists_cons_of_ne_nil hne
  rw [List.forall_mem_cons] at hw
  have hr : ∀ x ∈ r, (!isBlank x) = true := fun x hx => by simp [hw.2 x hx]
  rw [List.cons_append, words, if_neg (by simp [hw.1]), takeWhile_run hr ht, dropWhile_run hr ht]

theorem lowerFrom_ne_nil (h : s ≠ []) : lowerFrom b s ≠ [] := by
  obtain ⟨c, s, rfl⟩ := List.exists_cons_of_ne_nil h
  rw [lowerFrom]
  split
  · simp
  · split
    · split <;> simp
    · simp

theorem lowerFrom_blank (h : isBlank c = true) (s : List Char) :
    lowerFrom b (c :: s) = c :: lower s := by
  obtain ⟨hignorable, hcased, hlower, hdotted, hsigma⟩ := blank_plain h
  have hrest : lowerFrom (c :: b) s = lower s := lowerFrom_congr fun _ => by
    rw [nextIsCased_cons, hignorable, hcased]
    rfl
  rw [lowerFrom, hrest]
  simp [hlower, hdotted, hsigma]

theorem Parts.nextIsCased (h : Parts t) : nextIsCased t = false := by
  cases t with
  | nil => rfl
  | cons c t =>
      obtain ⟨hignorable, hcased, _⟩ := blank_plain h.blank
      rw [nextIsCased_cons, hignorable, hcased]
      rfl

theorem Parts.lowerFrom (h : Parts t) : lowerFrom b t = lower t := by
  cases t with
  | nil => rfl
  | cons c t => rw [lower, lowerFrom_blank h.blank, lowerFrom_blank h.blank]

theorem Parts.lower (h : Parts t) : Parts (lower t) := by
  cases t with
  | nil => exact h
  | cons c t =>
      rw [Text.lower, lowerFrom_blank h.blank]
      exact .cons (by simp [h.blank]) _

theorem words_lower (s : List Char) : words (lower s) = (words s).map lower := by
  fun_induction words s with
  | case1 => exact words_nil
  | case2 c r hc ih => rw [lower, lowerFrom_blank hc, words_blank hc, ih]
  | case3 c r hc ih =>
      have hparts : Parts (r.dropWhile fun x => !isBlank x) := ends_dropWhile _ _
      have hword : ∀ x ∈ c :: r.takeWhile fun x => !isBlank x, isBlank x = false := by
        rw [List.forall_mem_cons]
        refine ⟨by simpa using hc, fun x hx => ?_⟩
        have := List.mem_takeWhile_imp hx
        simpa using this
      have hsplit : c :: r = (c :: r.takeWhile fun x => !isBlank x) ++ r.dropWhile fun x => !isBlank x := by
        rw [List.cons_append, List.takeWhile_append_dropWhile]
      have hlower : ∀ x ∈ lower (c :: r.takeWhile fun x => !isBlank x), isBlank x = false := by
        intro x hx
        by_contra hb
        rw [Bool.not_eq_false] at hb
        rw [hword x (mem_of_blank_lowerFrom hx hb)] at hb
        cases hb
      rw [hsplit, lower, lowerFrom_append fun _ => hparts.nextIsCased, hparts.lowerFrom,
        words_word (lowerFrom_ne_nil (by simp)) hlower hparts.lower, ih, List.map_cons]
      rfl

theorem toLower_cases (c : Char) : c.toLower = c ∨ ∃ k < 26, c = Char.ofNat (65 + k) := by
  by_cases h : 65 ≤ c.toNat ∧ c.toNat ≤ 90
  · refine .inr ⟨c.toNat - 65, by omega, ?_⟩
    rw [Nat.add_sub_cancel' h.1, Char.ofNat_toNat]
  · exact .inl (dif_neg fun hc => h ⟨hc.1, hc.2⟩)

theorem toLower_alike (c : Char) : isCaseIgnorable c.toLower = isCaseIgnorable c ∧
    isCased c.toLower = isCased c ∧ lowerChar c.toLower = lowerChar c ∧
    (c.toLower == 'İ') = (c == 'İ') ∧ (c.toLower == 'Σ') = (c == 'Σ') := by
  have hletters : ∀ k < 26, isCaseIgnorable (Char.ofNat (65 + k)).toLower =
        isCaseIgnorable (Char.ofNat (65 + k)) ∧
      isCased (Char.ofNat (65 + k)).toLower = isCased (Char.ofNat (65 + k)) ∧
      lowerChar (Char.ofNat (65 + k)).toLower = lowerChar (Char.ofNat (65 + k)) ∧
      ((Char.ofNat (65 + k)).toLower == 'İ') = (Char.ofNat (65 + k) == 'İ') ∧
      ((Char.ofNat (65 + k)).toLower == 'Σ') = (Char.ofNat (65 + k) == 'Σ') := by decide +kernel
  rcases toLower_cases c with h | ⟨k, hk, rfl⟩
  · rw [h]
    exact ⟨rfl, rfl, rfl, rfl, rfl⟩
  · exact hletters k hk

theorem nextIsCased_toLower (s : List Char) : nextIsCased (s.map Char.toLower) = nextIsCased s := by
  induction s with
  | nil => rfl
  | cons c s ih =>
      obtain ⟨hignorable, hcased, _⟩ := toLower_alike c
      rw [List.map_cons, nextIsCased_cons, nextIsCased_cons, ih, hignorable, hcased]

theorem lowerFrom_toLower (b s : List Char) :
    lowerFrom (b.map Char.toLower) (s.map Char.toLower) = lowerFrom b s := by
  induction s generalizing b with
  | nil => rfl
  | cons c s ih =>
      obtain ⟨_, _, hlower, hdotted, hsigma⟩ := toLower_alike c
      have hrest := ih (c :: b)
      rw [List.map_cons] at hrest
      rw [List.map_cons, lowerFrom, lowerFrom, hrest, nextIsCased_toLower, nextIsCased_toLower, hlower,
        hdotted, hsigma]

theorem lower_toLower (s : List Char) : lower (s.map Char.toLower) = lower s :=
  lowerFrom_toLower [] s

end SourceAtlas.Text
