import Mathlib.Algebra.Group.Nat.Defs
import SourceAtlas.Proofs.Yaml.Cursor

namespace SourceAtlas.Yaml

open Text (Ends)

variable {c : Char} {r s w t : List Char} {l k i n m : Nat}

theorem hexValue_hexDigit : ∀ n < 16, hexValue (hexDigit n) = some n := by decide

theorem length_hexPadded (w n : Nat) : (hexPadded w n).length = w := by
  induction w generalizing n with
  | zero => rfl
  | succ w ih => rw [hexPadded, List.length_append, ih, List.length_singleton]

theorem hexNumber_hexPadded {w : Nat} (h : n < 16 ^ w) : hexNumber (hexPadded w n) = some n := by
  induction w generalizing n with
  | zero =>
      have : n = 0 := by simpa using h
      rw [this]
      rfl
  | succ w ih =>
      have hfront := ih (n := n / 16) (by rw [Nat.pow_succ] at h; omega)
      rw [hexNumber] at hfront ⊢
      rw [hexPadded, List.foldlM_append, hfront]
      simp only [bind, Option.bind, List.foldlM_cons, List.foldlM_nil,
        hexValue_hexDigit (n % 16) (by omega), Option.map_some, pure]
      congr 1
      omega

theorem isScalarValue_toNat (c : Char) : isScalarValue c.toNat = true := by
  have hc : c.toNat < 0xd800 ∨ 0xdfff < c.toNat ∧ c.toNat < 0x110000 := c.valid
  simp only [isScalarValue, Bool.or_eq_true, Bool.and_eq_true, decide_eq_true_eq]
  omega

theorem readEscape_long {mark : Char} {width : Nat} (hshort : shortEscapes.lookup mark = none)
    (hlong : longEscapes.lookup mark = some width) (hc : c.toNat < 16 ^ width) :
    readEscape ⟨mark :: (hexPadded width c.toNat ++ r), l, k, i⟩ =
      some (c, ⟨r, l, k + (width + 1), i + (width + 1)⟩) := by
  have hlength := length_hexPadded width c.toNat
  have htake : (hexPadded width c.toNat ++ r).take width = hexPadded width c.toNat :=
    List.take_left' hlength
  have hsteps := Cursor.steps_append (hexPadded width c.toNat) r l (k + 1) (i + 1)
  rw [hlength] at hsteps
  simp only [readEscape, Cursor.peek_cons, Cursor.step_cons, bind, Option.bind, hshort, hlong, htake,
    hlength, Nat.lt_irrefl, if_false, hexNumber_hexPadded hc, isScalarValue_toNat, if_true, hsteps,
    Char.ofNat_toNat, Nat.add_right_comm _ 1]
  rfl

theorem shortEscapes_written : ∀ e ∈ writtenEscapes,
    shortEscapes.lookup e.2 = some e.1 ∧ isBreak e.2 = false := by decide

theorem exists_escape (c : Char) : ∃ e, escaped c = '\\' :: e ∧ Ends isBreak e ∧ e ≠ [] ∧
    ∀ r l k i, readEscape ⟨e ++ r, l, k, i⟩ = some (c, ⟨r, l, k + e.length, i + e.length⟩) := by
  have hlarge : c.toNat < 0x110000 := by
    have hc : c.toNat < 0xd800 ∨ 0xdfff < c.toNat ∧ c.toNat < 0x110000 := c.valid
    omega
  have hlong : ∀ (mark : Char) (width : Nat), shortEscapes.lookup mark = none →
      longEscapes.lookup mark = some width → isBreak mark = false → c.toNat < 16 ^ width →
      escaped c = '\\' :: mark :: hexPadded width c.toNat →
      ∃ e, escaped c = '\\' :: e ∧ Ends isBreak e ∧ e ≠ [] ∧
        ∀ r l k i, readEscape ⟨e ++ r, l, k, i⟩ = some (c, ⟨r, l, k + e.length, i + e.length⟩) := by
    intro mark width hshort hlong hmark hc he
    refine ⟨_, he, .cons hmark _, nofun, fun r l k i => ?_⟩
    rw [List.cons_append, readEscape_long hshort hlong hc, List.length_cons, length_hexPadded]
  cases hw : writtenEscapes.lookup c with
  | some x =>
      obtain ⟨_, _, hmem, _⟩ := List.lookup_eq_some_iff.mp hw
      obtain ⟨hread, hbreak⟩ := shortEscapes_written (c, x) (by simp [hmem])
      refine ⟨[x], by rw [escaped, hw], .cons hbreak _, nofun, fun r l k i => ?_⟩
      simp only [readEscape, List.singleton_append, Cursor.peek_cons, Cursor.step_cons, bind,
        Option.bind, hread, List.length_singleton]
  | none =>
      by_cases h1 : c.toNat ≤ 0xff
      · exact hlong 'x' 2 rfl rfl rfl (by omega) (by simp [escaped, hw, h1])
      · by_cases h2 : c.toNat ≤ 0xffff
        · exact hlong 'u' 4 rfl rfl rfl (by omega)
            (by simp [escaped, hw, h1, h2])
        · exact hlong 'U' 8 rfl rfl rfl (by omega)
            (by simp [escaped, hw, h1, h2])

def quotedChar (c : Char) : List Char :=
  if !isPlainlyVisible c || isBreak c || c == '"' || c == '\\' then escaped c else [c]

def singleChar (c : Char) : List Char := if c == '\'' then ['\'', '\''] else [c]

def IsLetter : Bool → Char → Prop
  | true, c => isWhite c = false
  | false, c => c ≠ ' '

def lettering : Bool → Char → List Char
  | true => singleChar
  | false => quotedChar

def closingQuote (single : Bool) : Char := if single then '\'' else '"'

theorem isWhite_eq_false_of_visible (hv : isPlainlyVisible c = true) (hb : isBreak c = false)
    (hs : c ≠ ' ') : isWhite c = false := by
  have htab : c ≠ '\t' := by
    rintro rfl
    cases hv
  simp [isWhite, isBlank, hb, hs, htab]

theorem ends_lettering {single : Bool} (h : IsLetter single c) (r : List Char) :
    Ends isWhite (lettering single c ++ r) := by
  cases single with
  | true =>
      rw [lettering, singleChar]
      split
      · exact .cons (by rfl) _
      · exact .cons h _
  | false =>
      rw [lettering, quotedChar]
      split
      · obtain ⟨e, he, _⟩ := exists_escape c
        rw [he]
        exact .cons (by rfl) _
      · next hc =>
          simp only [Bool.or_eq_true, not_or, Bool.not_eq_true, Bool.not_eq_false'] at hc
          exact .cons (isWhite_eq_false_of_visible hc.1.1.1 hc.1.1.2 h) _

theorem quotedWord_double (hs : c ≠ ' ') (acc : List Char) :
    quotedWord false (n + 1) ⟨quotedChar c ++ r, l, k, i⟩ acc =
      quotedWord false n ⟨r, l, k + (quotedChar c).length, i + (quotedChar c).length⟩
        (acc ++ [c]) := by
  unfold quotedChar
  split
  · obtain ⟨e, he, hbreak, hne, hread⟩ := exists_escape c
    have hnobreak : (⟨e ++ r, l, k + 1, i + 1⟩ : Cursor).atBreak = false := by
      obtain ⟨x, e, rfl⟩ := List.exists_cons_of_ne_nil hne
      exact hbreak x rfl
    rw [he, List.cons_append, quotedWord, if_neg (by exact Bool.false_ne_true),
      if_neg Bool.false_ne_true, if_neg (by exact Bool.false_ne_true), if_pos (by rfl),
      Cursor.step_cons, hnobreak, if_neg Bool.false_ne_true, hread, List.length_cons,
      Nat.add_comm e.length, ← Nat.add_assoc, ← Nat.add_assoc]
    rfl
  · next h =>
      simp only [Bool.or_eq_true, not_or, Bool.not_eq_true, Bool.not_eq_false',
        beq_eq_false_iff_ne] at h
      obtain ⟨⟨⟨hv, hb⟩, hq⟩, hbs⟩ := h
      rw [List.singleton_append, quotedWord, Cursor.whiteAt_zero_cons,
        isWhite_eq_false_of_visible hv hb hs, if_neg Bool.false_ne_true, if_neg Bool.false_ne_true,
        Cursor.at?_cons, beq_false_of_ne hq, if_neg Bool.false_ne_true, Cursor.at?_cons,
        beq_false_of_ne hbs, if_neg Bool.false_ne_true]
      rfl

theorem quotedWord_single (hs : isWhite c = false) (acc : List Char) :
    quotedWord true (n + 1) ⟨singleChar c ++ r, l, k, i⟩ acc =
      quotedWord true n ⟨r, l, k + (singleChar c).length, i + (singleChar c).length⟩
        (acc ++ [c]) := by
  unfold singleChar
  split
  · next hc =>
      rw [eq_of_beq hc]
      rfl
  · next hc =>
      have hne : ('\'' == c) = false := beq_false_of_ne fun h => hc (beq_iff_eq.mpr h.symm)
      have hquotes : Cursor.startsWith ⟨c :: r, l, k, i⟩ ['\'', '\''] = false := by
        rw [Cursor.startsWith, List.isPrefixOf_cons_cons, hne, Bool.false_and]
      rw [List.singleton_append, quotedWord, Cursor.whiteAt_zero_cons, hs,
        if_neg Bool.false_ne_true, if_pos rfl, hquotes, if_neg Bool.false_ne_true, Cursor.at?_cons,
        if_neg hc]
      rfl

theorem quotedWord_letter {single : Bool} (h : IsLetter single c) (acc : List Char) :
    quotedWord single (n + 1) ⟨lettering single c ++ r, l, k, i⟩ acc =
      quotedWord single n
        ⟨r, l, k + (lettering single c).length, i + (lettering single c).length⟩ (acc ++ [c]) := by
  cases single with
  | true => exact quotedWord_single h acc
  | false => exact quotedWord_double h acc

def EndsWord (single : Bool) (r : List Char) : Prop :=
  (∃ x s, r = x :: s ∧ isWhite x = true) ∨ ∃ s, r = closingQuote single :: '\n' :: s

theorem quotedWord_end {single : Bool} (h : EndsWord single r) (acc : List Char) :
    quotedWord single n ⟨r, l, k, i⟩ acc = some ⟨acc, ⟨r, l, k, i⟩, false⟩ := by
  cases n with
  | zero => rfl
  | succ n =>
      rcases h with ⟨x, s, rfl, hx⟩ | ⟨s, rfl⟩
      · rw [quotedWord, Cursor.whiteAt_zero_cons, if_pos hx]
      · cases single <;> rfl

theorem lettering_ne_nil (single : Bool) (c : Char) : lettering single c ≠ [] := by
  cases single with
  | true =>
      rw [lettering, singleChar]
      split <;> exact List.cons_ne_nil _ _
  | false =>
      obtain ⟨e, he, _⟩ := exists_escape c
      rw [lettering, quotedChar, he]
      split <;> exact List.cons_ne_nil _ _

theorem quotedWord_word {single : Bool} (hw : ∀ c ∈ w, IsLetter single c) (hr : EndsWord single r)
    (hn : (w.flatMap (lettering single)).length ≤ n) (acc : List Char) :
    ∃ k' i', k ≤ k' ∧ quotedWord single n ⟨w.flatMap (lettering single) ++ r, l, k, i⟩ acc =
      some ⟨acc ++ w, ⟨r, l, k', i'⟩, false⟩ := by
  induction w generalizing n k i acc with
  | nil =>
      refine ⟨k, i, Nat.le_refl k, ?_⟩
      rw [List.append_nil]
      exact quotedWord_end hr acc
  | cons c w ih =>
      rw [List.forall_mem_cons] at hw
      have hpos := List.length_pos_iff.mpr (lettering_ne_nil single c)
      rw [List.flatMap_cons, List.length_append] at hn
      obtain ⟨n, rfl⟩ := Nat.exists_eq_add_one_of_ne_zero (n := n) (by omega)
      obtain ⟨k', i', hk, hword⟩ := ih (n := n) (k := k + (lettering single c).length)
        (i := i + (lettering single c).length) hw.2 (by omega) (acc ++ [c])
      refine ⟨k', i', by omega, ?_⟩
      rw [List.flatMap_cons, List.append_assoc, quotedWord_letter hw.1, hword, List.append_assoc]
      rfl

inductive Quoting (single : Bool) (indent : Nat) : List Char → List Char → Prop
  | last {w : List Char} (hw : ∀ c ∈ w, IsLetter single c) :
      Quoting single indent w (w.flatMap (lettering single))
  | blanks {w t s : List Char} {m : Nat} (hw : ∀ c ∈ w, IsLetter single c) (hs : Ends isWhite s)
      (h : Quoting single indent t s) :
      Quoting single indent (w ++ (spaces (m + 1) ++ t))
        (w.flatMap (lettering single) ++ (spaces (m + 1) ++ s))
  | breaks {w t s b : List Char} {x : Char} (hsingle : single = true)
      (hw : ∀ c ∈ w, IsLetter single c) (hx : IsKeptBreak x) (hx' : x ≠ '\n')
      (hb : ∀ c ∈ b, IsKeptBreak c) (hs : Ends isWhite s) (h : Quoting single indent t s) :
      Quoting single indent (w ++ (x :: (b ++ t)))
        (w.flatMap (lettering single) ++ (x :: (b ++ (spaces indent ++ s))))

theorem ends_before_quote {single : Bool} (h : Ends isWhite s) :
    Ends isWhite (s ++ closingQuote single :: r) := by
  cases s with
  | nil => cases single <;> exact .cons (by rfl) _
  | cons x s => exact .cons (h x rfl) _

theorem atEnd_before {x : Char} : (⟨s ++ x :: r, l, k, i⟩ : Cursor).atEnd = false := by
  cases s <;> rfl

theorem at?_closingQuote {single : Bool} {x : Char} (hx : isWhite x = true) :
    (⟨x :: r, l, k, i⟩ : Cursor).at? (closingQuote single) = false := by
  rw [Cursor.at?_cons, beq_eq_false_iff_ne]
  rintro rfl
  cases single <;> cases hx

theorem Gap.text_breaks {x : Char} (hx : x ≠ '\n') (b : List Char) :
    Gap.text ⟨[], [x], b, true⟩ = x :: b := by
  unfold Gap.text
  rw [if_pos (by rfl)]
  split
  · next h =>
      cases h
      exact absurd rfl hx
  · rfl

theorem quotedFrom_last {single : Bool} (hw : ∀ c ∈ w, IsLetter single c) (hk : 0 < k)
    (acc : List Char) : ∃ c, c.rest = '\n' :: r ∧ quotedFrom single (n + 1)
      ⟨w.flatMap (lettering single) ++ closingQuote single :: '\n' :: r, l, k, i⟩ acc =
        some (acc ++ w, c) := by
  obtain ⟨k, rfl⟩ := Nat.exists_eq_add_one_of_ne_zero (n := k) (by omega)
  obtain ⟨k', i', -, hword⟩ := quotedWord_word (l := l) (k := k + 1) (i := i) hw (.inr ⟨r, rfl⟩)
    (n := (w.flatMap (lettering single) ++ closingQuote single :: '\n' :: r).length + 1)
    (by rw [List.length_append]; omega) acc
  refine ⟨⟨'\n' :: r, l, k' + 1, i' + 1⟩, rfl, ?_⟩
  rw [quotedFrom, Cursor.atDocumentMark_succ, atEnd_before, hword]
  simp [bind, Option.bind, closingQuote]

theorem quotedFrom_gap {single : Bool} (hw : ∀ c ∈ w, IsLetter single c) {x : Char} {u : List Char}
    (hx : isWhite x = true) (hk : 0 < k) {g : Gap}
    (hgap : ∀ k i, 0 < k → ∃ c, gapAt 0 ⟨x :: u, l, k, i⟩ Gap.none = some (g, c) ∧ c.rest = s ∧
      0 < c.column) (acc : List Char) :
    ∃ c, c.rest = s ∧ 0 < c.column ∧
      quotedFrom single (n + 1) ⟨w.flatMap (lettering single) ++ x :: u, l, k, i⟩ acc =
        quotedFrom single n c (acc ++ (w ++ g.text)) := by
  obtain ⟨k, rfl⟩ := Nat.exists_eq_add_one_of_ne_zero (n := k) (by omega)
  obtain ⟨k', i', hk', hword⟩ := quotedWord_word (l := l) (k := k + 1) (i := i) hw
    (.inl ⟨x, u, rfl, hx⟩) (n := (w.flatMap (lettering single) ++ x :: u).length + 1)
    (by rw [List.length_append]; omega) acc
  obtain ⟨c, hg, hrest, hcolumn⟩ := hgap k' i' (by omega)
  refine ⟨c, hrest, hcolumn, ?_⟩
  have hquote : (⟨x :: u, l, k', i'⟩ : Cursor).at? (closingQuote single) = false := at?_closingQuote hx
  rw [closingQuote] at hquote
  rw [quotedFrom, Cursor.atDocumentMark_succ, atEnd_before, hword]
  simp [bind, Option.bind, hquote, hg]

theorem Quoting.read {single : Bool} {indent : Nat} (h : Quoting single indent t s)
    (hindent : 0 < indent) {c : Cursor} (hc : c.rest = s ++ closingQuote single :: '\n' :: r)
    (hk : 0 < c.column) (hn : s.length < n) (acc : List Char) :
    ∃ c', c'.rest = '\n' :: r ∧ quotedFrom single n c acc = some (acc ++ t, c') := by
  induction h generalizing n c acc with
  | last hw =>
      obtain ⟨rest, l, k, i⟩ := c
      obtain ⟨n, rfl⟩ := Nat.exists_eq_add_one_of_ne_zero (n := n) (by omega)
      cases hc
      exact quotedFrom_last hw hk acc
  | @blanks w t s m hw hs h ih =>
      obtain ⟨rest, l, k, i⟩ := c
      rw [List.append_assoc, List.append_assoc] at hc
      cases hc
      rw [List.length_append, List.length_append, length_spaces] at hn
      obtain ⟨n, rfl⟩ := Nat.exists_eq_add_one_of_ne_zero (n := n) (by omega)
      obtain ⟨c, hc, hcolumn, hstep⟩ := quotedFrom_gap hw rfl hk (fun k i _ =>
        ⟨_, gapAt_blanks (m := m + 1) (ends_before_quote hs) 0, rfl, Nat.succ_pos _⟩) acc
      obtain ⟨c', hc', hread⟩ := ih hc hcolumn (n := n) (by omega) (acc ++ (w ++ spaces (m + 1)))
      refine ⟨c', hc', hstep.trans (hread.trans ?_)⟩
      rw [List.append_assoc, List.append_assoc]
  | @breaks w t s b x hsingle hw hx hx' hb hs h ih =>
      obtain ⟨rest, l, k, i⟩ := c
      rw [List.append_assoc, List.cons_append, List.append_assoc, List.append_assoc] at hc
      cases hc
      rw [List.length_append, List.length_cons, List.length_append, List.length_append] at hn
      obtain ⟨n, rfl⟩ := Nat.exists_eq_add_one_of_ne_zero (n := n) (by omega)
      have hwhite : isWhite x = true := by rw [isWhite, hx.isBreak, Bool.or_true]
      obtain ⟨c, hc, hcolumn, hstep⟩ := quotedFrom_gap hw hwhite hk (fun k i _ => by
        have hend : Ends isWhite (s ++ closingQuote single :: '\n' :: r) := ends_before_quote hs
        obtain ⟨l', i', hgap⟩ := gapAt_breaks (l := l) (k := k) (i := i) (m := indent) hend 0 hx hb
        exact ⟨_, hgap, rfl, hindent⟩) acc
      obtain ⟨c', hc', hread⟩ := ih hc hcolumn (n := n) (by omega)
        (acc ++ (w ++ Gap.text ⟨[], [x], b, true⟩))
      refine ⟨c', hc', hstep.trans (hread.trans ?_)⟩
      rw [Gap.text_breaks hx']
      simp

theorem pairwise_cons {p q : Char → Bool} : pairwise p q (c :: t) = false ↔
    (p c = true → Ends q t) ∧ pairwise p q t = false := by
  cases t with
  | nil => exact ⟨fun _ => ⟨fun _ => .nil q, rfl⟩, fun _ => rfl⟩
  | cons x t =>
      rw [pairwise, Bool.or_eq_false_iff, Bool.and_eq_false_imp]
      exact and_congr_left fun _ => forall_congr' fun _ => ⟨fun h => .cons h t, fun h => h x rfl⟩

namespace Quoting

variable {single : Bool} {indent : Nat}

theorem letter (hc : IsLetter single c) (h : Quoting single indent t s) :
    Quoting single indent (c :: t) (lettering single c ++ s) := by
  cases h with
  | last hw =>
      rw [← List.flatMap_cons]
      exact .last (List.forall_mem_cons.mpr ⟨hc, hw⟩)
  | @blanks _ _ _ m hw hs h =>
      have := Quoting.blanks (m := m) (List.forall_mem_cons.mpr ⟨hc, hw⟩) hs h
      rwa [List.flatMap_cons, List.append_assoc] at this
  | breaks hsingle hw hx hx' hb hs h =>
      have := Quoting.breaks hsingle (List.forall_mem_cons.mpr ⟨hc, hw⟩) hx hx' hb hs h
      rwa [List.flatMap_cons, List.append_assoc] at this

theorem space (h : Quoting single indent t s) (ht : single = true → Ends isBreak t) :
    Quoting single indent (' ' :: t) (' ' :: s) := by
  by_cases hs : Ends isWhite s
  · exact .blanks (w := []) (m := 0) nofun hs h
  · cases h with
    | last hw =>
        cases t with
        | nil => exact absurd (Ends.nil _) hs
        | cons c t => exact absurd (ends_lettering (hw c List.mem_cons_self) _) hs
    | @blanks w t s m hw hs' h =>
        cases w with
        | nil => exact .blanks (w := []) (m := m + 1) nofun hs' h
        | cons c w =>
            rw [List.flatMap_cons, List.append_assoc] at hs
            exact absurd (ends_lettering (hw c List.mem_cons_self) _) hs
    | @breaks w t s b x hsingle hw hx hx' hb hs' h =>
        cases w with
        | nil =>
            have := ht hsingle x rfl
            rw [hx.isBreak] at this
            cases this
        | cons c w =>
            rw [List.flatMap_cons, List.append_assoc] at hs
            exact absurd (ends_lettering (hw c List.mem_cons_self) _) hs

end Quoting

theorem quoting_double (indent : Nat) (t : List Char) :
    Quoting false indent t (t.flatMap quotedChar) := by
  induction t with
  | nil => exact .last (w := []) nofun
  | cons c t ih =>
      rw [List.flatMap_cons]
      by_cases hc : c = ' '
      · rw [hc]
        exact ih.space nofun
      · exact ih.letter hc

theorem quoting_single (indent : Nat) (hvisible : ∀ c ∈ t, isPlainlyVisible c = true)
    (hline : '\n' ∉ t) (hbefore : pairwise isBreak isSpace t = false)
    (hbehind : pairwise isSpace isBreak t = false) :
    Quoting true indent t (singleFrom indent false t) ∧
      (Ends isSpace t → ∃ b u v, t = b ++ u ∧
        singleFrom indent true t = b ++ (spaces indent ++ v) ∧ (∀ c ∈ b, IsKeptBreak c) ∧
        Ends isWhite v ∧ Quoting true indent u v) := by
  -- told at once of the text in a line and of the text behind a break, which is indented first
  induction t with
  | nil =>
      have hnil : Quoting true indent [] [] := .last (w := []) nofun
      exact ⟨hnil, fun _ => ⟨[], [], [], rfl, by simp [singleFrom], nofun, .nil _, hnil⟩⟩
  | cons c t ih =>
      rw [List.forall_mem_cons] at hvisible
      rw [List.mem_cons, not_or] at hline
      rw [pairwise_cons] at hbefore hbehind
      obtain ⟨hplain, hfresh⟩ := ih hvisible.2 hline.2 hbefore.2 hbehind.2
      by_cases hspace : isSpace c = true
      · have hc : c = ' ' := by simpa [isSpace] using hspace
        refine ⟨?_, fun h => ?_⟩
        · rw [singleFrom, if_pos hspace, hc]
          exact hplain.space fun _ => hbehind.1 hspace
        · rw [h c rfl] at hspace
          cases hspace
      · by_cases hbreak : isBreak c = true
        · obtain ⟨b, u, v, rfl, hv, hb, hends, hquoting⟩ := hfresh (hbefore.1 hbreak)
          have hkept := isKeptBreak_of_visible hvisible.1 hbreak
          have hne : c ≠ '\n' := fun h => hline.1 h.symm
          refine ⟨?_, fun _ => ⟨c :: b, u, v, rfl, ?_, List.forall_mem_cons.mpr ⟨hkept, hb⟩, hends,
            hquoting⟩⟩
          · have := Quoting.breaks (w := []) rfl nofun hkept hne hb hends hquoting
            simpa [singleFrom, hspace, hbreak, hne, hv] using this
          · simp [singleFrom, hspace, hbreak, hv]
        · rw [Bool.not_eq_true] at hspace hbreak
          have hletter : IsLetter true c :=
            isWhite_eq_false_of_visible hvisible.1 hbreak (by simpa [isSpace] using hspace)
          have hquoting := hplain.letter hletter
          refine ⟨?_, fun _ => ⟨[], c :: t, _, rfl, ?_, nofun, ends_lettering hletter _, hquoting⟩⟩
          · simpa [singleFrom, hspace, hbreak, lettering, singleChar] using hquoting
          · simp [singleFrom, hspace, hbreak, lettering, singleChar]

theorem readQuoted_double (t r : List Char) (hk : 0 < k) :
    ∃ c, c.rest = '\n' :: r ∧
      readQuoted false ⟨t.flatMap quotedChar ++ '"' :: '\n' :: r, l, k, i⟩ = some (t, c) :=
  (quoting_double 1 t).read (Nat.succ_pos 0) rfl hk
    (by simp only [List.length_append, List.length_cons]; omega) []

theorem readQuoted_single (r : List Char) {indent : Nat} (hindent : 0 < indent) (hk : 0 < k)
    (hvisible : ∀ c ∈ t, isPlainlyVisible c = true) (hline : '\n' ∉ t)
    (hbefore : pairwise isBreak isSpace t = false) (hbehind : pairwise isSpace isBreak t = false) :
    ∃ c, c.rest = '\n' :: r ∧
      readQuoted true ⟨singleFrom indent false t ++ '\'' :: '\n' :: r, l, k, i⟩ = some (t, c) :=
  (quoting_single indent hvisible hline hbefore hbehind).1.read hindent rfl hk
    (by simp only [List.length_append, List.length_cons]; omega) []

theorem of_shape_single (h : (shape t).single = true) : (∀ c ∈ t, isPlainlyVisible c = true) ∧
    pairwise isBreak isSpace t = false ∧ pairwise isSpace isBreak t = false := by
  cases t with
  | nil => exact ⟨nofun, rfl, rfl⟩
  | cons c t =>
      simp only [shape, List.isEmpty_cons, Bool.false_eq_true, if_false, Bool.not_eq_true',
        Bool.or_eq_false_iff, List.any_eq_false, Bool.not_eq_false] at h
      exact ⟨h.2.1, h.1, h.2.2⟩

end SourceAtlas.Yaml
