import Mathlib.Tactic.Common
import SourceAtlas.Json.Reader
import SourceAtlas.Json.Writer

namespace SourceAtlas.Json

theorem hexValue_hexDigit : ∀ n, n < 16 → hexValue? (hexDigit n) = some n := by
  decide

theorem hexValue4_control {n : Nat} (h : n < 32) :
    hexValue4? '0' '0' (hexDigit (n / 16)) (hexDigit (n % 16)) = some n := by
  have hhigh := hexValue_hexDigit (n / 16) (by omega)
  have hlow := hexValue_hexDigit (n % 16) (by omega)
  have hzero : hexValue? '0' = some 0 := rfl
  simp only [hexValue4?, hhigh, hlow, hzero, bind, Option.bind, pure]
  congr 1
  omega

theorem unit_control (t : Reading) {c : Char} (h : c.toNat < 32) : t.unit c.toNat = t.char c := by
  rw [Reading.unit, if_neg (by omega), if_neg (by omega), Char.ofNat_toNat]

theorem shortEscape_ne {c : Char} (h : shortEscape? c = none) : c ≠ '"' ∧ c ≠ '\\' := by
  constructor
  · rintro rfl
    cases h
  · rintro rfl
    cases h

theorem readText_escapeChar (c : Char) (s read : List Char) :
    readText (escapeChar c ++ s) ⟨read, true, none⟩ = readText s ⟨c :: read, true, none⟩ := by
  unfold escapeChar
  split
  · next e he =>
      unfold shortEscape? at he
      split at he <;> cases he <;> rfl
  · next he =>
      split
      · next hc =>
          show readText ('\\' :: 'u' :: '0' :: '0' :: hexDigit (c.toNat / 16) ::
            hexDigit (c.toNat % 16) :: s) _ = _
          rw [readText, hexValue4_control hc]
          dsimp only
          rw [unit_control _ hc]
          rfl
      · next hc =>
          obtain ⟨hq, hb⟩ := shortEscape_ne he
          show readText (c :: s) _ = _
          rw [readText, if_neg hc]
          · rfl
          · exact hq
          · exact fun _ _ _ _ _ h => absurd h hb
          · exact fun _ _ h => absurd h hb

theorem readText_escaped (cs s read : List Char) :
    readText (cs.flatMap escapeChar ++ '"' :: s) ⟨read, true, none⟩ =
      some (some (String.ofList (read.reverse ++ cs)), s) := by
  induction cs generalizing read with
  | nil =>
      rw [List.append_nil]
      rfl
  | cons c cs ih =>
      rw [List.flatMap_cons, List.append_assoc, readText_escapeChar, ih, List.reverse_cons,
        List.append_assoc]
      rfl

theorem readText_written (t : String) (s : List Char) :
    readText (t.toList.flatMap escapeChar ++ '"' :: s) .start = some (some t, s) := by
  rw [Reading.start, readText_escaped]
  simp

end SourceAtlas.Json
