import Mathlib.Algebra.Group.Nat.Defs
import SourceAtlas.Clock.Timestamp
import SourceAtlas.Proofs.Clock.Date
import SourceAtlas.Proofs.Text.Digits

namespace SourceAtlas.Timestamp

theorem padded_toList (width n : Nat) : (padded width n).toList =
    List.replicate (width - (Nat.toDigits 10 n).length) '0' ++ Nat.toDigits 10 n := by
  have hn : (toString n).toList = Nat.toDigits 10 n := Nat.toList_repr
  simp only [padded, hn, String.toList_ofList]

theorem padded_isDigit (width n : Nat) : ∀ c ∈ (padded width n).toList, c.isDigit = true := by
  intro c hc
  rw [padded_toList, List.mem_append] at hc
  rcases hc with hc | hc
  · rw [List.eq_of_mem_replicate hc]
    rfl
  · exact Text.toDigits_isDigit n c hc

theorem valueOf_padded (width n : Nat) : valueOf (padded width n).toList = n := by
  rw [valueOf, Text.foldl_digits, padded_toList, Nat.ofDigitChars_append,
    Nat.ofDigitChars_replicate_zero, Nat.mul_zero, Nat.ofDigitChars_ten_toDigits]

theorem padded_ne_nil (width n : Nat) : (padded width n).toList ≠ [] := by
  rw [padded_toList]
  simp

theorem length_padded {width n : Nat} (hw : 0 < width) (h : n < 10 ^ width) :
    (padded width n).toList.length = width := by
  have hl := (Nat.length_toDigits_le_iff (b := 10) (by decide) hw).mpr h
  rw [padded_toList, List.length_append, List.length_replicate]
  omega

theorem not_blank_of_digit {c : Char} (h : c.isDigit = true) : Text.isBlank c = false := by
  have hd := Char.isDigit_iff_toNat.mp h
  have h0 : '0'.toNat = 48 := rfl
  have h9 : '9'.toNat = 57 := rfl
  rw [Text.isBlank, ← Bool.not_eq_true, Text.inRanges_iff]
  rintro ⟨r, hr, hlow, hhigh⟩
  simp only [Text.blankRanges, List.mem_cons, List.not_mem_nil, or_false] at hr
  rcases hr with rfl | rfl | rfl | rfl | rfl | rfl | rfl | rfl | rfl | rfl <;> omega

theorem skipBlanks_cons {c : Char} (h : Text.isBlank c = false) (s : List Char) :
    skipBlanks (c :: s) = c :: s := by
  simp [skipBlanks, h]

theorem skipBlanks_padded (width n : Nat) (s : List Char) :
    skipBlanks ((padded width n).toList ++ s) = (padded width n).toList ++ s := by
  obtain ⟨c, cs, hc⟩ := List.exists_cons_of_ne_nil (padded_ne_nil width n)
  have hd := padded_isDigit width n c (by rw [hc]; exact List.mem_cons_self)
  rw [hc]
  exact skipBlanks_cons (not_blank_of_digit hd) _

theorem number_padded {width n : Nat} (hw : 0 < width) (h : n < 10 ^ width) (s : List Char) :
    number width ((padded width n).toList ++ s) = some (n, s) := by
  have hl := length_padded hw h
  have ht : ((padded width n).toList ++ s).take width = (padded width n).toList := by
    rw [List.take_append_of_le_length (Nat.le_of_eq hl.symm), List.take_of_length_le (Nat.le_of_eq hl)]
  have hd : (padded width n).toList.takeWhile Char.isDigit = (padded width n).toList := by
    simpa using Text.takeWhile_run (padded_isDigit width n) (.nil _)
  have hne : (padded width n).toList.isEmpty = false := by simpa using padded_ne_nil width n
  simp only [number, ht, hd, hne, valueOf_padded, List.drop_left]
  rfl

theorem anyNumber_padded (width n : Nat) {s : List Char} (hs : Text.Ends Char.isDigit s) :
    anyNumber ((padded width n).toList ++ s) = some (n, s) := by
  have hd : ((padded width n).toList ++ s).takeWhile Char.isDigit = (padded width n).toList :=
    Text.takeWhile_run (padded_isDigit width n) hs
  have hne : (padded width n).toList.isEmpty = false := by simpa using padded_ne_nil width n
  simp only [anyNumber, number, List.take_length, hd, hne, valueOf_padded, List.drop_left]
  rfl

theorem twoDigits_padded {n : Nat} (h : n < 100) (s : List Char) :
    twoDigits ((padded 2 n).toList ++ s) = some (n, s) := by
  rw [twoDigits, skipBlanks_padded]
  exact number_padded (by decide) h s

theorem mark_self {c : Char} (h : Text.isBlank c = false) (s : List Char) :
    mark c (c :: s) = some ((), s) := by
  simp [mark, skipBlanks_cons h]

theorem toList_minus : "-".toList = ['-'] := rfl

theorem toList_plus : "+".toList = ['+'] := rfl

theorem toList_dot : ".".toList = ['.'] := rfl

theorem year_text (y : Int) (s : List Char) :
    year ((yearText y).toList ++ '-' :: s) = some (y, '-' :: s) := by
  have hends : Text.Ends Char.isDigit ('-' :: s) := .cons rfl s
  unfold yearText
  split
  · next hy =>
      obtain ⟨m, rfl⟩ := Int.eq_ofNat_of_zero_le hy.1
      have hm : m < 10 ^ 4 := by omega
      obtain ⟨c, cs, hc⟩ := List.exists_cons_of_ne_nil (padded_ne_nil 4 m)
      have hd := padded_isDigit 4 m c (by rw [hc]; exact List.mem_cons_self)
      have hnum := number_padded (by decide) hm ('-' :: s)
      have hskip := skipBlanks_padded 4 m ('-' :: s)
      rw [Int.toNat_natCast]
      rw [hc, List.cons_append] at hnum hskip ⊢
      rw [year, hskip]
      split
      · next he =>
          rw [(List.cons.inj he).1] at hd
          cases hd
      · next he =>
          rw [(List.cons.inj he).1] at hd
          cases hd
      · rw [hnum]
        rfl
  · next hy =>
      split
      · next hneg =>
          have habs : -(y.natAbs : Int) = y := by omega
          rw [String.toList_append, toList_minus, List.cons_append, List.nil_append, List.cons_append,
            year, skipBlanks_cons (by decide)]
          simp only [anyNumber_padded 4 _ hends, Option.map_some, habs]
      · next hpos =>
          have habs : (y.natAbs : Int) = y := by omega
          rw [String.toList_append, toList_plus, List.cons_append, List.nil_append, List.cons_append,
            year, skipBlanks_cons (by decide)]
          simp only [anyNumber_padded 4 _ hends, Option.map_some, habs]

theorem fraction_padded {w n : Nat} (hw : 0 < w) (hk : w ≤ 9) (h : n < 10 ^ w) :
    fraction ('.' :: ((padded w n).toList ++ ['Z'])) = some (n * 10 ^ (9 - w), ['Z']) := by
  have hd : ((padded w n).toList ++ ['Z']).takeWhile Char.isDigit = (padded w n).toList :=
    Text.takeWhile_run (padded_isDigit w n) (.cons rfl [])
  have hne : (padded w n).toList.isEmpty = false := by simpa using padded_ne_nil w n
  have hl := length_padded hw h
  have ht : (padded w n).toList.take 9 = (padded w n).toList :=
    List.take_of_length_le (by omega)
  simp only [fraction, hd, hne, ht, valueOf_padded, List.drop_left, Bool.false_eq_true, if_false]
  rw [hl]
  rfl

theorem fraction_text {n : Nat} (h : n < nanosPerSecond) :
    fraction ((fractionText n).toList ++ ['Z']) = some (n, ['Z']) := by
  have hn : n < 1000000000 := h
  unfold fractionText
  split
  · next h0 =>
      rw [h0]
      rfl
  · split
    · next h6 =>
        have hf := fraction_padded (w := 3) (n := n / 1000000) (by decide) (by decide) (by omega)
        have hn : n / 1000000 * 10 ^ (9 - 3) = n := by omega
        rw [String.toList_append, toList_dot, List.append_assoc, List.singleton_append, hf, hn]
    · split
      · next h3 =>
          have hf := fraction_padded (w := 6) (n := n / 1000) (by decide) (by decide) (by omega)
          have hn : n / 1000 * 10 ^ (9 - 6) = n := by omega
          rw [String.toList_append, toList_dot, List.append_assoc, List.singleton_append, hf, hn]
      · have hf := fraction_padded (w := 9) (n := n) (by decide) (by decide) (by omega)
        rw [String.toList_append, toList_dot, List.append_assoc, List.singleton_append, hf,
          Nat.sub_self, Nat.pow_zero, Nat.mul_one]

structure IsRegular (t : Timestamp) : Prop where
  minute : t.minuteOfDay < 1440
  second : t.second < 60
  nanos : t.nanos < nanosPerSecond

theorem isRegular_ofNanos (n : Int) : (ofNanos n).IsRegular := by
  refine ⟨?_, ?_, ?_⟩
  · show (n / nanosPerSecond % 86400).toNat / 60 < 1440
    omega
  · show (n / nanosPerSecond % 86400).toNat % 60 < 60
    omega
  · show (n % nanosPerSecond).toNat < nanosPerSecond
    unfold nanosPerSecond
    omega

theorem Date.bounds {d : Date} (h : d.isValid = true) : d.month < 100 ∧ d.day < 100 := by
  simp only [Date.isValid, Bool.and_eq_true, decide_eq_true_eq] at h
  have hdays : Date.daysIn d.year d.month ≤ 31 := by
    unfold Date.daysIn
    split
    · split <;> decide
    · split <;> decide
  omega

theorem build_self {t : Timestamp} (h : t.IsRegular) (hd : t.date.isValid = true) :
    build t.date (t.minuteOfDay / 60) (t.minuteOfDay % 60) t.second t.nanos 0 = some t := by
  have hm := h.minute
  have hs := h.second
  have hsum : t.minuteOfDay / 60 * 60 + t.minuteOfDay % 60 = t.minuteOfDay := by omega
  have hshift : shift t.date t.minuteOfDay 0 = (t.date, t.minuteOfDay) := by
    unfold shift
    dsimp only
    rw [if_neg (by omega), if_neg (by omega)]
    simp
  have hcheck : (t.date.isValid && decide (t.minuteOfDay / 60 < 24) &&
      decide (t.minuteOfDay % 60 < 60) && decide (t.second ≤ 60) &&
      decide (Int.natAbs 0 < 1440)) = true := by
    simp only [hd, Bool.and_eq_true, decide_eq_true_eq, true_and]
    exact ⟨⟨⟨by omega, by omega⟩, by omega⟩, by decide⟩
  have hne : ¬ t.second = 60 := by omega
  rw [build, if_pos hcheck, hsum, hshift]
  simp only [hd, hne, Bool.not_true, Bool.false_eq_true, if_false]

theorem toList_T : "T".toList = ['T'] := rfl

theorem toList_colon : ":".toList = [':'] := rfl

theorem toList_Z : "Z".toList = ['Z'] := rfl

theorem ofText_text {t : Timestamp} (h : t.IsRegular) (hd : t.date.isValid = true) :
    ofText? (t.text "Z") = some t := by
  have hm := h.minute
  have hs := h.second
  obtain ⟨hmonth, hday⟩ := Date.bounds hd
  have hsecond : t.second + t.nanos / nanosPerSecond = t.second := by
    rw [Nat.div_eq_of_lt h.nanos, Nat.add_zero]
  have hnanos : t.nanos % nanosPerSecond = t.nanos := Nat.mod_eq_of_lt h.nanos
  have hend : offset (skipBlanks ['Z']) = some (0, []) := by decide
  have hdate : isDateEnd 'T' = true := rfl
  rw [ofText?, text, hsecond, hnanos]
  simp only [String.toList_append, List.append_assoc, toList_minus, toList_T, toList_colon, toList_Z,
    List.cons_append, List.nil_append]
  simp only [year_text, mark_self (show Text.isBlank '-' = false by decide),
    mark_self (show Text.isBlank ':' = false by decide), twoDigits_padded hmonth,
    twoDigits_padded hday, twoDigits_padded (show t.minuteOfDay / 60 < 100 by omega),
    twoDigits_padded (show t.minuteOfDay % 60 < 100 by omega),
    twoDigits_padded (show t.second < 100 by omega), fraction_text h.nanos, hend, hdate, bind,
    Option.bind, if_true]
  exact build_self h hd

theorem build_valid {d : Date} {hour minute second nanos : Nat} {offset : Int} {t : Timestamp}
    (h : build d hour minute second nanos offset = some t) : t.date.isValid = true := by
  unfold build at h
  split at h
  · dsimp only at h
    split at h
    · cases h
    · next hd =>
        rw [Bool.not_eq_true', Bool.not_eq_false] at hd
        split at h
        · cases h
          exact hd
        · cases h
          exact hd
  · cases h

theorem ofText_valid {s : String} {t : Timestamp} (h : ofText? s = some t) :
    t.date.isValid = true := by
  unfold ofText? at h
  iterate 5 obtain ⟨_, _, h⟩ := Option.bind_eq_some_iff.mp h
  dsimp only at h
  split at h
  · split at h
    · iterate 8 obtain ⟨_, _, h⟩ := Option.bind_eq_some_iff.mp h
      split at h
      · cases h
      · exact build_valid h
    · cases h
  · cases h

theorem ofText_iff {t : Timestamp} (h : t.IsRegular) :
    ofText? (t.text "Z") = some t ↔ t.date.isValid = true :=
  ⟨ofText_valid, ofText_text h⟩

theorem ofText_ofNanos (n : Int) : ofText? ((ofNanos n).text "Z") = some (ofNanos n) ↔
    Date.firstYear ≤ (ofNanos n).date.year ∧ (ofNanos n).date.year ≤ Date.lastYear := by
  rw [ofText_iff (isRegular_ofNanos n)]
  refine ⟨fun h => ?_, fun h => Date.isValid_ofDayNumber h.1 h.2⟩
  simp only [Date.isValid, Bool.and_eq_true, decide_eq_true_eq] at h
  exact h.1.1.1.1

end SourceAtlas.Timestamp
