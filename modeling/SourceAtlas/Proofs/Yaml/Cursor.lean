import SourceAtlas.Proofs.Text.Runs
import SourceAtlas.Yaml.Scalar
import SourceAtlas.Yaml.Writer

namespace SourceAtlas.Yaml

open Text (Ends)

variable {x : Char} {r s : List Char} {l k i n m : Nat}

namespace Cursor

@[simp] theorem peek_cons : (⟨x :: r, l, k, i⟩ : Cursor).peek = some x := rfl

@[simp] theorem step_cons : (⟨x :: r, l, k, i⟩ : Cursor).step = ⟨r, l, k + 1, i + 1⟩ := rfl

@[simp] theorem at?_cons (y : Char) : (⟨x :: r, l, k, i⟩ : Cursor).at? y = (x == y) := rfl

@[simp] theorem atBlank_cons : (⟨x :: r, l, k, i⟩ : Cursor).atBlank = isBlank x := rfl

@[simp] theorem atBreak_cons : (⟨x :: r, l, k, i⟩ : Cursor).atBreak = isBreak x := rfl

@[simp] theorem whiteAt_zero_cons : (⟨x :: r, l, k, i⟩ : Cursor).whiteAt 0 = isWhite x := rfl

@[simp] theorem whiteAt_one_cons : (⟨x :: r, l, k, i⟩ : Cursor).whiteAt 1 = whiteNext r := by
  cases r <;> rfl

@[simp] theorem atDocumentMark_succ : (⟨r, l, k + 1, i⟩ : Cursor).atDocumentMark = false := rfl

theorem atBlank_eq_false (h : Ends isWhite r) : (⟨r, l, k, i⟩ : Cursor).atBlank = false := by
  cases r with
  | nil => rfl
  | cons x r => exact (Bool.or_eq_false_iff.mp (h x rfl)).1

theorem atBreak_eq_false (h : Ends isWhite r) : (⟨r, l, k, i⟩ : Cursor).atBreak = false := by
  cases r with
  | nil => rfl
  | cons x r => exact (Bool.or_eq_false_iff.mp (h x rfl)).2

theorem steps_append (w r : List Char) (l k i : Nat) :
    steps w.length ⟨w ++ r, l, k, i⟩ = ⟨r, l, k + w.length, i + w.length⟩ := by
  induction w generalizing k i with
  | nil => rfl
  | cons x w ih =>
      rw [List.length_cons, List.cons_append, steps, step_cons, ih]
      simp only [Nat.add_comm, Nat.add_left_comm]

theorem skipWhile_run {p : Char → Bool} {w : List Char} (hw : ∀ c ∈ w, p c = true)
    (hr : n = w.length ∨ w.length ≤ n ∧ Ends p r) :
    skipWhile p n ⟨w ++ r, l, k, i⟩ = ⟨r, l, k + w.length, i + w.length⟩ := by
  induction w generalizing n k i with
  | nil =>
      cases n with
      | zero => rfl
      | succ n =>
          cases r with
          | nil => rfl
          | cons x r =>
              have hx := (hr.resolve_left nofun).2 x rfl
              simp [skipWhile, hx]
  | cons x w ih =>
      rw [List.forall_mem_cons] at hw
      rw [List.length_cons] at hr ⊢
      obtain ⟨n, rfl⟩ := Nat.exists_eq_add_one_of_ne_zero (n := n) (by omega)
      have hrest := ih (n := n) (k := k + 1) (i := i + 1) hw.2
        (hr.imp (by omega) (And.imp_left (by omega)))
      rw [Nat.add_right_comm k, Nat.add_right_comm i] at hrest
      rw [List.cons_append, skipWhile, peek_cons]
      dsimp only
      rw [if_pos hw.1]
      exact hrest

theorem skip_run {p : Char → Bool} {w : List Char} (hw : ∀ c ∈ w, p c = true) (hr : Ends p r) :
    skip ⟨w ++ r, l, k, i⟩ p = ⟨r, l, k + w.length, i + w.length⟩ :=
  skipWhile_run hw (.inr ⟨by simp, hr⟩)

theorem take_run {p : Char → Bool} {w : List Char} (hw : ∀ c ∈ w, p c = true) (hr : Ends p r) :
    take ⟨w ++ r, l, k, i⟩ p = (w, ⟨r, l, k + w.length, i + w.length⟩) := by
  rw [take, skip_run hw hr, Text.takeWhile_run hw hr]

end Cursor

theorem length_spaces (m : Nat) : (spaces m).length = m := List.length_replicate

theorem spaces_succ (m : Nat) (r : List Char) : spaces (m + 1) ++ r = ' ' :: (spaces m ++ r) := rfl

theorem eq_of_mem_spaces {c : Char} (h : c ∈ spaces m) : c = ' ' := List.eq_of_mem_replicate h

theorem eq_spaces {w : List Char} (h : ∀ c ∈ w, isSpace c = true) : w = spaces w.length :=
  List.eq_replicate_of_mem fun c hc => by simpa [isSpace] using h c hc

def IsKeptBreak (c : Char) : Prop := c = '\n' ∨ c = '\u2028' ∨ c = '\u2029'

namespace IsKeptBreak

theorem isBreak (h : IsKeptBreak x) : isBreak x = true := by
  rcases h with rfl | rfl | rfl <;> rfl

theorem isBlank (h : IsKeptBreak x) : isBlank x = false := by
  rcases h with rfl | rfl | rfl <;> rfl

theorem breakText (h : IsKeptBreak x) : (⟨x :: r, l, k, i⟩ : Cursor).breakText = [x] := by
  rcases h with rfl | rfl | rfl <;> rfl

theorem stepLine (h : IsKeptBreak x) :
    (⟨x :: r, l, k, i⟩ : Cursor).stepLine = ⟨r, l + 1, 0, i + 1⟩ := by
  rcases h with rfl | rfl | rfl <;> rfl

end IsKeptBreak

theorem isKeptBreak_of_visible (hv : isPlainlyVisible x = true) (hb : isBreak x = true) :
    IsKeptBreak x := by
  simp only [isBreak, Bool.or_eq_true, beq_iff_eq] at hb
  rcases hb with (((rfl | rfl) | rfl) | rfl) | rfl
  · exact .inl rfl
  · cases hv
  · cases hv
  · exact .inr (.inl rfl)
  · exact .inr (.inr rfl)

theorem readGap_stop (h : Ends isWhite r) (tabLimit : Nat) (g : Gap) :
    readGap tabLimit n ⟨r, l, k, i⟩ g = some (g, ⟨r, l, k, i⟩) := by
  cases n with
  | zero => rfl
  | succ n =>
      rw [readGap, Cursor.atBlank_eq_false h, Cursor.atBreak_eq_false h]
      rfl

theorem readGap_blanks (h : Ends isWhite r) (tabLimit : Nat) {blanks first more : List Char}
    (hn : m ≤ n) : readGap tabLimit n ⟨spaces m ++ r, l, k, i⟩ ⟨blanks, first, more, false⟩ =
      some (⟨blanks ++ spaces m, first, more, false⟩, ⟨r, l, k + m, i + m⟩) := by
  induction m generalizing n k i blanks with
  | zero =>
      rw [show spaces 0 = [] from rfl, List.append_nil]
      exact readGap_stop h tabLimit _
  | succ m ih =>
      obtain ⟨n, rfl⟩ := Nat.exists_eq_add_one_of_ne_zero (n := n) (by rintro rfl; cases hn)
      have hrest : readGap tabLimit n ⟨spaces m ++ r, l, k + 1, i + 1⟩
          ⟨blanks ++ [' '], first, more, false⟩ = _ := ih (Nat.le_of_succ_le_succ hn)
      rw [List.append_assoc] at hrest
      rw [Nat.add_right_comm k, Nat.add_right_comm i] at hrest
      rw [spaces_succ, readGap]
      exact hrest

theorem readGap_indent (h : Ends isWhite r) (tabLimit : Nat) {blanks first more : List Char}
    (hn : m ≤ n) : readGap tabLimit n ⟨spaces m ++ r, l, k, i⟩ ⟨blanks, first, more, true⟩ =
      some (⟨blanks, first, more, true⟩, ⟨r, l, k + m, i + m⟩) := by
  induction m generalizing n k i with
  | zero => exact readGap_stop h tabLimit _
  | succ m ih =>
      obtain ⟨n, rfl⟩ := Nat.exists_eq_add_one_of_ne_zero (n := n) (by rintro rfl; cases hn)
      have hrest := ih (k := k + 1) (i := i + 1) (Nat.le_of_succ_le_succ hn)
      have htab : (true && decide (k < tabLimit) && ' ' == '\t') = false := Bool.and_false _
      rw [Nat.add_right_comm k, Nat.add_right_comm i] at hrest
      rw [spaces_succ, readGap, Cursor.atBlank_cons, if_pos (by rfl), Cursor.at?_cons, htab]
      exact hrest

theorem readGap_breaks (h : Ends isWhite r) (tabLimit : Nat) {b : List Char}
    (hb : ∀ c ∈ b, IsKeptBreak c) {blanks first more : List Char} (hn : b.length + m ≤ n) :
    ∃ l' i', readGap tabLimit n ⟨b ++ (spaces m ++ r), l, 0, i⟩ ⟨blanks, first, more, true⟩ =
      some (⟨blanks, first, more ++ b, true⟩, ⟨r, l', m, i'⟩) := by
  induction b generalizing n l i more with
  | nil =>
      refine ⟨l, i + m, ?_⟩
      rw [List.nil_append, readGap_indent h tabLimit (by simpa using hn), List.append_nil,
        Nat.zero_add]
  | cons x b ih =>
      rw [List.forall_mem_cons] at hb
      rw [List.length_cons] at hn
      obtain ⟨n, rfl⟩ := Nat.exists_eq_add_one_of_ne_zero (n := n) (by omega)
      have hrest : ∃ l' i', readGap tabLimit n ⟨b ++ (spaces m ++ r), l + 1, 0, i + 1⟩
          ⟨blanks, first, more ++ [x], true⟩ = some (_, ⟨r, l', m, i'⟩) := ih hb.2 (by omega)
      obtain ⟨l', i', hrest⟩ := hrest
      refine ⟨l', i', ?_⟩
      rw [List.append_assoc] at hrest
      rw [List.cons_append, readGap, Cursor.atBlank_cons, hb.1.isBlank, if_neg Bool.false_ne_true,
        Cursor.atBreak_cons, hb.1.isBreak, if_pos rfl, if_pos rfl, hb.1.breakText, hb.1.stepLine]
      exact hrest

theorem gapAt_blanks (h : Ends isWhite r) (tabLimit : Nat) :
    gapAt tabLimit ⟨spaces m ++ r, l, k, i⟩ Gap.none =
      some (⟨spaces m, [], [], false⟩, ⟨r, l, k + m, i + m⟩) := by
  exact readGap_blanks h tabLimit (by rw [List.length_append, length_spaces]; omega)

theorem gapAt_breaks (h : Ends isWhite r) (tabLimit : Nat) {b : List Char} (hx : IsKeptBreak x)
    (hb : ∀ c ∈ b, IsKeptBreak c) :
    ∃ l' i', gapAt tabLimit ⟨x :: (b ++ (spaces m ++ r)), l, k, i⟩ Gap.none =
      some (⟨[], [x], b, true⟩, ⟨r, l', m, i'⟩) := by
  have hlength : b.length + m ≤ (x :: (b ++ (spaces m ++ r))).length := by
    simp only [List.length_cons, List.length_append, length_spaces]
    omega
  have hrest : ∃ l' i', readGap tabLimit _ ⟨b ++ (spaces m ++ r), l + 1, 0, i + 1⟩
      ⟨[], [x], [], true⟩ = some (_, ⟨r, l', m, i'⟩) := readGap_breaks h tabLimit hb hlength
  obtain ⟨l', i', hrest⟩ := hrest
  refine ⟨l', i', ?_⟩
  rw [gapAt, readGap, Cursor.atBlank_cons, hx.isBlank, if_neg Bool.false_ne_true, Cursor.atBreak_cons,
    hx.isBreak, if_pos rfl, if_neg (by exact Bool.false_ne_true), hx.breakText, hx.stepLine]
  exact hrest

end SourceAtlas.Yaml
