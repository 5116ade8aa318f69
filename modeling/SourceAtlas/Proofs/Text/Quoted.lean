import SourceAtlas.Proofs.Text.Redact
import SourceAtlas.Text.Quoted

namespace SourceAtlas.Text

variable {s t : List Char} {c x : Char}

def escapeMarks : List Char :=
  ['t', 'r', 'n', '"', '\\', 'u', '\x7b', '\x7d', '0', '1', '2', '3', '4', '5', '6', '7', '8', '9',
   'a', 'b', 'c', 'd', 'e', 'f']

theorem mem_hexDigits (n : Nat) : ∀ c ∈ hexDigits n, c ∈ escapeMarks := by
  induction n using Nat.strongRecOn with
  | ind n ih =>
      have hdigit : ∀ k < 16, Nat.digitChar k ∈ escapeMarks := by decide
      rw [hexDigits, Nat.toDigits_eq_if (by decide)]
      split
      · next hn =>
          intro c hc
          rw [List.mem_singleton.mp hc]
          exact hdigit n hn
      · next hn =>
          intro c hc
          rcases List.mem_append.mp hc with hc | hc
          · exact ih (n / 16) (by omega) c hc
          · rw [List.mem_singleton.mp hc]
            exact hdigit _ (Nat.mod_lt _ (by decide))

theorem isInvisible_of_blank (h : isBlank c = true) (hc : c ≠ ' ') :
    isInvisible c = true ∧ ¬ (0x20 ≤ c.toNat ∧ c.toNat < 0x7f) := by
  have hrange : ∀ r ∈ blankRanges, r = (0x20, 0x20) ∨
      (r.2 < 0x20 ∨ 0x7f ≤ r.1) ∧ ∃ v ∈ invisibleRanges, v.1 ≤ r.1 ∧ r.2 ≤ v.2 := by decide +kernel
  obtain ⟨r, hr, hlow, hhigh⟩ := inRanges_iff.mp h
  rcases hrange r hr with rfl | ⟨hout, v, hv, hvlow, hvhigh⟩
  · refine absurd (Char.toNat_inj.mp ?_) hc
    exact Nat.le_antisymm hhigh hlow
  · exact ⟨inRanges_iff.mpr ⟨v, hv, by omega, by omega⟩, by omega⟩

theorem escapeChar_cases (c : Char) :
    escapeChar c = [c] ∧ c ≠ '\\' ∧ (isBlank c = true → c = ' ') ∨
      ∃ r, escapeChar c = '\\' :: r ∧ ∀ x ∈ r, x ∈ escapeMarks := by
  fun_cases escapeChar c with
  | case7 _ _ _ _ hslash _ hvisible =>
      have hvisible : 0x20 ≤ c.toNat ∧ c.toNat < 0x7f := by simpa using hvisible
      exact .inl ⟨rfl, by simpa using hslash, fun hb =>
        by_contra fun hc => (isInvisible_of_blank hb hc).2 hvisible⟩
  | case8 =>
      refine .inr ⟨_, rfl, fun x hx => ?_⟩
      have hbraces : ∀ x ∈ ['u', '\x7b', '\x7d'], x ∈ escapeMarks := by simp [escapeMarks]
      have hrest : x ∈ ['u', '\x7b'] ∨ x ∈ hexDigits c.toNat ∨ x ∈ ['\x7d'] := by
        simpa [or_assoc] using hx
      rcases hrest with h | h | h
      · exact hbraces x (List.mem_append_left ['\x7d'] h)
      · exact mem_hexDigits _ x h
      · exact hbraces x (List.mem_append_right ['u', '\x7b'] h)
  | case9 _ _ _ _ hslash _ _ hvisible =>
      refine .inl ⟨rfl, by simpa using hslash, fun hb => by_contra fun hc => hvisible ?_⟩
      rw [(isInvisible_of_blank hb hc).1, Bool.or_true]
  | _ => exact .inr ⟨_, rfl, by simp [escapeMarks]⟩

theorem escapeChar_ne_nil (c : Char) : escapeChar c ≠ [] := by
  rcases escapeChar_cases c with ⟨h, _⟩ | ⟨r, h, _⟩ <;> simp [h]

def IsFirm (c : Char) : Prop := c ≠ '\\' ∧ c ∉ escapeMarks

theorem IsFirm.eq (h : IsFirm c) (hc : c ∈ escapeChar x) : c = x ∧ escapeChar x = [x] := by
  rcases escapeChar_cases x with ⟨hx, _⟩ | ⟨r, hx, hr⟩
  · rw [hx, List.mem_singleton] at hc
    exact ⟨hc, hx⟩
  · rw [hx] at hc
    rcases List.mem_cons.mp hc with hc | hc
    · exact absurd hc h.1
    · exact absurd (hr c hc) h.2

theorem IsFirm.split (h : IsFirm c) {pre post : List Char}
    (hs : s.flatMap escapeChar = pre ++ c :: post) : ∃ s₁ s₂, s = s₁ ++ c :: s₂ ∧
      s₁.flatMap escapeChar = pre ∧ s₂.flatMap escapeChar = post := by
  induction s generalizing pre with
  | nil => exact absurd hs (by simp)
  | cons x s ih =>
      rw [List.flatMap_cons] at hs
      by_cases hc : c ∈ escapeChar x
      · obtain ⟨rfl, hx⟩ := h.eq hc
        rw [hx, List.singleton_append] at hs
        cases pre with
        | nil => exact ⟨[], s, rfl, rfl, (List.cons.inj hs).2⟩
        | cons y pre =>
            obtain ⟨rfl, hs'⟩ := List.cons.inj (hs.trans (List.cons_append ..))
            obtain ⟨s₁, s₂, rfl, rfl, rfl⟩ := ih hs'
            exact ⟨c :: s₁, s₂, rfl, by rw [List.flatMap_cons, hx, List.singleton_append], rfl⟩
      · rcases List.append_eq_append_iff.mp hs with ⟨b, rfl, hb⟩ | ⟨b, hb, hb'⟩
        · obtain ⟨s₁, s₂, rfl, rfl, rfl⟩ := ih hb
          exact ⟨x :: s₁, s₂, rfl, rfl, rfl⟩
        · cases b with
          | nil =>
              rw [List.append_nil] at hb
              obtain ⟨s₁, s₂, rfl, h₁, rfl⟩ := ih (hb'.symm.trans (List.nil_append _).symm)
              exact ⟨x :: s₁, s₂, rfl, by rw [List.flatMap_cons, h₁, hb, List.append_nil], rfl⟩
          | cons y b =>
              obtain ⟨rfl, _⟩ := List.cons.inj hb'
              exact absurd (hb ▸ List.mem_append_right _ List.mem_cons_self) hc

theorem flatMap_escapeChar_eq_self (h : '\\' ∉ s.flatMap escapeChar) : s.flatMap escapeChar = s := by
  induction s with
  | nil => rfl
  | cons c s ih =>
      rw [List.flatMap_cons, List.mem_append, not_or] at h
      rw [List.flatMap_cons, ih h.2]
      rcases escapeChar_cases c with ⟨hc, _⟩ | ⟨r, hc, _⟩
      · rw [hc]
        rfl
      · exact absurd (hc ▸ List.mem_cons_self) h.1

def Unbroken (s : List Char) : Prop := ∀ c ∈ s, isBlank c = true → c = ' '

instance : Decidable (Unbroken s) := List.decidableBAll _ s

theorem unbroken_ofList (h : Unbroken s) : Unbroken (String.ofList s).toList := by
  rwa [String.toList_ofList]

theorem Unbroken.append (hs : Unbroken s) (ht : Unbroken t) : Unbroken (s ++ t) := fun c hc =>
  (List.mem_append.mp hc).elim (hs c) (ht c)

theorem unbroken_quoted (s : String) : Unbroken (quoted s).toList := by
  have hmarks : ∀ x ∈ '\\' :: escapeMarks, (!isBlank x) = true := List.all_eq_true.mp (by decide)
  have hchar : ∀ c, Unbroken (escapeChar c) := by
    intro c x hx hblank
    rcases escapeChar_cases c with ⟨h, _, hc⟩ | ⟨r, h, hr⟩
    · rw [h, List.mem_singleton] at hx
      exact hx ▸ hc (hx ▸ hblank)
    · rw [h] at hx
      have := hmarks x (List.mem_cons.mpr ((List.mem_cons.mp hx).imp_right (hr x)))
      rw [hblank] at this
      cases this
  rw [quoted, String.toList_ofList]
  refine .append (.append (s := ['"']) (by decide) fun x hx => ?_) (by decide)
  obtain ⟨c, _, hx⟩ := List.mem_flatMap.mp hx
  exact hchar c x hx

/-- A login whose user info may have blanks in it, if they are no spaces, is in the text. -/
abbrev Loosely (s : List Char) : Prop := Shows (fun c => c != '/' && c != '@' && c != ' ') s

theorem scheme_split {scheme : List Char} (h : scheme ∈ webSchemes) :
    ∃ mid, scheme = 'h' :: mid ++ ['/'] ∧ '\\' ∉ mid := by
  rcases List.mem_cons.mp h with rfl | h
  · exact ⟨"ttps:/".toList, by decide⟩
  · rw [List.mem_singleton.mp h]
    exact ⟨"ttp:/".toList, by decide⟩

theorem isUserInfoChar_of_escape (hc : (c != '/' && c != '@' && c != ' ') = true)
    (hx : x ∈ escapeChar c) : isUserInfoChar x = true := by
  simp only [Bool.and_eq_true, bne_iff_ne] at hc
  rcases escapeChar_cases c with ⟨h, _, hblank⟩ | ⟨r, h, hr⟩
  · rw [h, List.mem_singleton] at hx
    subst hx
    have hx : isBlank x = false := Bool.eq_false_iff.mpr fun hb => hc.2 (hblank hb)
    simp [isUserInfoChar, hc.1.1, hc.1.2, hx]
  · have hmarks : ∀ x ∈ '\\' :: escapeMarks, isUserInfoChar x = true :=
      List.all_eq_true.mp (by decide)
    rw [h] at hx
    rcases List.mem_cons.mp hx with hx | hx
    · exact hmarks x (hx ▸ List.mem_cons_self)
    · exact hmarks x (.tail _ (hr x hx))

theorem exposes_flatMap_escapeChar : Exposes (s.flatMap escapeChar) ↔ Loosely s := by
  constructor
  · rintro ⟨w, ⟨scheme, hs, info, rfl, hne, hinfo, hmask⟩, pre, post, heq⟩
    obtain ⟨mid, rfl, hmid⟩ := scheme_split hs
    -- the `h`, the `@` and the last slash of the login are in the text itself
    have h₁ : s.flatMap escapeChar = pre ++ 'h' :: (mid ++ '/' :: info ++ '@' :: post) := by
      simp [← heq]
    obtain ⟨s₁, s₂, rfl, _, h₂⟩ := IsFirm.split (c := 'h') (by unfold IsFirm; decide) h₁
    obtain ⟨s₃, s₄, rfl, h₃, _⟩ := IsFirm.split (c := '@') (by unfold IsFirm; decide) h₂
    obtain ⟨s₅, s₆, rfl, h₅, rfl⟩ := IsFirm.split (c := '/') (by unfold IsFirm; decide) h₃
    obtain rfl : mid = s₅ := h₅.symm.trans (flatMap_escapeChar_eq_self (h₅ ▸ hmid))
    refine ⟨_, ⟨_, hs, s₆, rfl, ?_, fun c hc => ?_, ?_⟩, s₁, s₄, by simp⟩
    · rintro rfl
      exact hne rfl
    · have hnot : ∀ x, escapeChar x = [x] → isUserInfoChar x = false → c ≠ x := by
        rintro x hx hno rfl
        rw [hinfo c (List.mem_flatMap.mpr ⟨c, hc, hx ▸ List.mem_cons_self⟩)] at hno
        cases hno
      simp [hnot '/' (by decide) (by decide), hnot '@' (by decide) (by decide),
        hnot ' ' (by decide) (by decide)]
    · rintro rfl
      exact hmask (by decide)
  · rintro ⟨w, ⟨scheme, hs, info, rfl, hne, hinfo, hmask⟩, pre, post, rfl⟩
    have hscheme : ∀ x ∈ webSchemes, x.flatMap escapeChar = x := by decide
    have hat : ['@'].flatMap escapeChar = ['@'] := by decide
    refine ⟨scheme ++ info.flatMap escapeChar ++ ['@'],
      ⟨scheme, hs, _, rfl, ?_, fun x hx => ?_, fun he => hmask ?_⟩,
      pre.flatMap escapeChar, post.flatMap escapeChar, ?_⟩
    · rw [Ne, List.flatMap_eq_nil_iff, not_forall]
      obtain ⟨c, hc⟩ := List.exists_mem_of_ne_nil info hne
      exact ⟨c, fun h => escapeChar_ne_nil c (h hc)⟩
    · obtain ⟨c, hc, hx⟩ := List.mem_flatMap.mp hx
      exact isUserInfoChar_of_escape (hinfo c hc) hx
    · rw [← flatMap_escapeChar_eq_self (s := info) (he ▸ by decide), he]
    · simp only [List.flatMap_append, hscheme scheme hs, hat]

theorem exposes_quoted {s : String} : Exposes (quoted s).toList ↔ Loosely s.toList := by
  rw [quoted, String.toList_ofList, List.cons_append, ← List.singleton_append,
    Exposes, append_shows_of_not_mem (by decide), shows_append_of_not_mem (by decide)]
  exact exposes_flatMap_escapeChar

example : redactUrl "https://u:\tp@h" = "https://u:\tp@h" ∧
    redactUrl (quoted "https://u:\tp@h") = "\"https://***@h\"" := by decide +kernel

end SourceAtlas.Text
