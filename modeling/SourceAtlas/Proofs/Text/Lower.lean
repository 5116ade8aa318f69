import SourceAtlas.Proofs.Text.Runs
import SourceAtlas.Text.Case

namespace SourceAtlas.Text

variable {s t b b' : List Char} {c : Char}

theorem nextIsCased_cons (c : Char) (s : List Char) :
    nextIsCased (c :: s) = if isCaseIgnorable c then nextIsCased s else isCased c := by
  rw [nextIsCased, nextIsCased, List.dropWhile_cons]
  cases isCaseIgnorable c <;> rfl

theorem nextIsCased_append (h : nextIsCased t = false) : nextIsCased (s ++ t) = nextIsCased s := by
  induction s with
  | nil => exact h
  | cons c s ih => rw [List.cons_append, nextIsCased_cons, nextIsCased_cons, ih]

theorem lowerFrom_congr (h : 'Σ' ∈ s → nextIsCased b = nextIsCased b') :
    lowerFrom b s = lowerFrom b' s := by
  induction s generalizing b b' with
  | nil => rfl
  | cons c s ih =>
      have htail : lowerFrom (c :: b) s = lowerFrom (c :: b') s := ih fun hs => by
        rw [nextIsCased_cons, nextIsCased_cons, h (.tail _ hs)]
      rw [lowerFrom, lowerFrom, htail]
      by_cases hc : c = 'Σ'
      · rw [h (by simp [hc])]
      · simp [hc]

theorem lowerFrom_append (h : 'Σ' ∈ s → nextIsCased t = false) :
    lowerFrom b (s ++ t) = lowerFrom b s ++ lowerFrom (s.reverse ++ b) t := by
  induction s generalizing b with
  | nil => rfl
  | cons c s ih =>
      have htail := ih (b := c :: b) fun hs => h (.tail _ hs)
      rw [List.cons_append, lowerFrom, lowerFrom, htail]
      by_cases hc : c = 'Σ'
      · simp [nextIsCased_append (h (by simp [hc]))]
      · simp [hc]

theorem forall_blank {P : Char → Prop}
    (h : ∀ r ∈ blankRanges, ∀ k ≤ r.2 - r.1, P (Char.ofNat (r.1 + k))) (hc : isBlank c = true) :
    P c := by
  obtain ⟨r, hr, hlo, hhi⟩ := inRanges_iff.mp hc
  have := h r hr (c.toNat - r.1) (by omega)
  rwa [Nat.add_sub_cancel' hlo, Char.ofNat_toNat] at this

theorem blank_plain (hc : isBlank c = true) : isCaseIgnorable c = false ∧ isCased c = false ∧
    lowerChar c = c ∧ (c == 'İ') = false ∧ (c == 'Σ') = false :=
  forall_blank (P := fun c => isCaseIgnorable c = false ∧ isCased c = false ∧ lowerChar c = c ∧
    (c == 'İ') = false ∧ (c == 'Σ') = false) (by decide +kernel) hc

theorem nextIsCased_blanks (h : ∀ c ∈ s, isBlank c = true) : nextIsCased s = false := by
  cases s with
  | nil => rfl
  | cons c s =>
      obtain ⟨hignorable, hcased, _⟩ := blank_plain (h c List.mem_cons_self)
      rw [nextIsCased_cons, hignorable, hcased]
      rfl

theorem lowerFrom_blanks (h : ∀ c ∈ s, isBlank c = true) : lowerFrom b s = s := by
  induction s generalizing b with
  | nil => rfl
  | cons c s ih =>
      obtain ⟨_, _, hlower, hdotted, hsigma⟩ := blank_plain (h c List.mem_cons_self)
      rw [lowerFrom, ih fun x hx => h x (.tail _ hx)]
      simp [hlower, hdotted, hsigma]

theorem isBlank_of_ofNat {n : Nat} (h : isBlank (Char.ofNat n) = true) :
    ∃ b ∈ blankRanges, 0 < b.1 ∧ b.1 ≤ n ∧ n ≤ b.2 := by
  have hpos : ∀ b ∈ blankRanges, 0 < b.1 := by decide
  by_cases hv : n.isValidChar
  · have hn : Char.ofNat n = Char.ofNatAux n hv := dif_pos hv
    obtain ⟨b, hb, hlo, hhi⟩ := inRanges_iff.mp (hn ▸ h)
    exact ⟨b, hb, hpos b hb, hlo, hhi⟩
  · have hn : Char.ofNat n = '\x00' := dif_neg hv
    rw [hn] at h
    cases h

theorem isBlank_lowerChar (h : isBlank (lowerChar c) = true) : isBlank c = true := by
  unfold lowerChar at h
  split at h
  · next hc =>
      have hascii : ∀ n < 0x80, isBlank (Char.ofNat n).toLower = true →
          isBlank (Char.ofNat n) = true := by decide +kernel
      have := hascii c.toNat hc
      rw [Char.ofNat_toNat] at this
      exact this h
  · split at h
    · next n hn =>
        have hruns : ∀ r ∈ caseRuns, ∀ b ∈ blankRanges,
            (r.last : Int) + r.shift < b.1 ∨ (b.2 : Int) < r.first + r.shift := by decide +kernel
        obtain ⟨r, hr, hn⟩ := List.exists_of_findSome?_eq_some hn
        obtain ⟨b, hb, hpos, hlo, hhi⟩ := isBlank_of_ofNat h
        have hapart := hruns r hr b hb
        unfold CaseRun.lower? at hn
        split at hn
        · next hrange =>
            simp only [Bool.and_eq_true, decide_eq_true_eq] at hrange
            have hn := Option.some.inj hn
            omega
        · cases hn
    · exact h

theorem mem_of_blank_lowerFrom {x : Char} (hx : x ∈ lowerFrom b s) (hb : isBlank x = true) :
    x ∈ s := by
  induction s generalizing b with
  | nil => cases hx
  | cons c s ih =>
      rw [lowerFrom] at hx
      rcases List.mem_append.mp hx with hx | hx
      · split at hx
        · simp only [List.mem_cons, List.not_mem_nil, or_false] at hx
          rcases hx with rfl | rfl <;> exact absurd hb (by decide)
        · split at hx
          · split at hx <;> rw [List.mem_singleton.mp hx] at hb <;> exact absurd hb (by decide)
          · rw [List.mem_singleton] at hx
            rw [hx] at hb ⊢
            rw [(blank_plain (isBlank_lowerChar hb)).2.2.1]
            exact List.mem_cons_self
      · exact .tail _ (ih hx)

end SourceAtlas.Text
