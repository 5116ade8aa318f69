import Mathlib.Data.List.Forall2
import SourceAtlas.Import.Pattern
import SourceAtlas.Proofs.Path.Names
import SourceAtlas.Proofs.Text.Runs

namespace SourceAtlas.Import

variable {s t rest spec : List Char}

def IsGap (s : List Char) : Prop := s ≠ [] ∧ ∀ c ∈ s, Text.isBlank c = true

structure Statement where
  gap : List Char
  clause : List Char
  lead : List Char
  opening : Char
  specifier : List Char
  closing : Char
  gap_blank : IsGap gap
  lead_blank : IsGap lead
  clause_line : '\n' ∉ clause
  specifier_line : specifier ≠ [] ∧ '\n' ∉ specifier
  quotes : isQuote opening = true ∧ isQuote closing = true

namespace Statement

def text (m : Statement) : List Char :=
  importWord ++ m.gap ++ m.clause ++ fromWord ++ m.lead ++ [m.opening] ++ m.specifier ++ [m.closing]

theorem length_pos (m : Statement) : 0 < m.text.length := by
  rw [text, List.length_append]
  exact Nat.lt_add_left _ Nat.one_pos

/-- The blanks behind its two words are all on one line. -/
def OnLine (m : Statement) : Prop := '\n' ∉ m.gap ∧ '\n' ∉ m.lead

theorem onLine_iff (m : Statement) : m.OnLine ↔ '\n' ∉ m.text := by
  have hquote : ∀ {q}, isQuote q = true → '\n' ≠ q := by
    rintro q hq rfl
    cases hq
  have hwords : '\n' ∉ importWord ∧ '\n' ∉ fromWord := by decide
  simp only [OnLine, text, List.mem_append, List.mem_singleton, not_or, hwords.1, hwords.2,
    m.clause_line, m.specifier_line.2, hquote m.quotes.1, hquote m.quotes.2, not_false_eq_true,
    true_and, and_true]

end Statement

theorem not_quote_of_blank {c : Char} (h : Text.isBlank c = true) : isQuote c = false := by
  by_contra hq
  rw [Bool.not_eq_false, isQuote, Bool.or_eq_true, beq_iff_eq, beq_iff_eq] at hq
  rcases hq with rfl | rfl <;> revert h <;> decide

theorem afterBlanks_eq_some : afterBlanks s = some rest ↔
    ∃ blanks, s = blanks ++ rest ∧ IsGap blanks ∧ Text.Ends Text.isBlank rest := by
  unfold afterBlanks
  constructor
  · intro h
    split at h
    · cases h
    · next hne =>
        cases h
        exact ⟨s.takeWhile Text.isBlank, List.takeWhile_append_dropWhile.symm,
          ⟨hne, fun _ => List.mem_takeWhile_imp⟩, Text.ends_dropWhile _ _⟩
  · rintro ⟨blanks, rfl, ⟨hne, hb⟩, he⟩
    rw [Text.takeWhile_run hb he, Text.dropWhile_run hb he]
    split
    · contradiction
    · rfl

theorem quotedText_eq_some : quotedText s = some (spec, rest) ↔
    ∃ c r q, spec = c :: r ∧ s = spec ++ q :: rest ∧ c ≠ '\n' ∧
      (∀ x ∈ r, isQuote x = false ∧ x ≠ '\n') ∧ isQuote q = true := by
  have hinner : ∀ x, (!isQuote x && x != '\n') = true ↔ isQuote x = false ∧ x ≠ '\n' := by
    intro x
    rw [Bool.and_eq_true, Bool.not_eq_true', bne_iff_ne]
  constructor
  · intro h
    unfold quotedText at h
    split at h
    · cases h
    · next c r =>
        split at h
        · cases h
        · next hc =>
            split at h
            · next q rest' hq =>
                split at h
                · next hquote =>
                    cases h
                    refine ⟨c, _, q, rfl, ?_, by simpa using hc, fun x hx => ?_, hquote⟩
                    · rw [List.cons_append, ← hq, List.takeWhile_append_dropWhile]
                    · have hx := List.mem_takeWhile_imp hx
                      exact (hinner x).mp hx
                · cases h
            · cases h
  · rintro ⟨c, r, q, rfl, rfl, hc, hr, hq⟩
    have hrun : ∀ x ∈ r, (!isQuote x && x != '\n') = true := fun x hx => (hinner x).mpr (hr x hx)
    have hend : Text.Ends (fun x => !isQuote x && x != '\n') (q :: rest) := .cons (by simp [hq]) _
    rw [List.cons_append, quotedText, if_neg (by simpa using hc), Text.dropWhile_run hrun hend,
      Text.takeWhile_run hrun hend]
    dsimp only
    rw [if_pos hq]

theorem specifierAt_eq_some : specifierAt s = some (spec, rest) ↔
    ∃ lead q r, s = fromWord ++ (lead ++ q :: r) ∧ IsGap lead ∧ isQuote q = true ∧
      quotedText r = some (spec, rest) := by
  simp only [specifierAt, Option.bind_eq_bind, Option.bind_eq_some_iff, Text.stripPrefix?_eq_some,
    afterBlanks_eq_some]
  constructor
  · rintro ⟨_, rfl, u, ⟨lead, rfl, hlead, _⟩, h⟩
    cases u with
    | nil => cases h
    | cons q r =>
        dsimp only at h
        split at h
        · next hq => exact ⟨lead, q, r, rfl, hlead, hq, h⟩
        · cases h
  · rintro ⟨lead, q, r, rfl, hlead, hq, h⟩
    have hblank : Text.isBlank q = false := by
      by_contra hb
      rw [not_quote_of_blank (by simpa using hb)] at hq
      cases hq
    refine ⟨_, rfl, q :: r, ⟨lead, rfl, hlead, .cons hblank r⟩, ?_⟩
    dsimp only
    rw [if_pos hq, h]

theorem specifierAt_append : specifierAt (s ++ t) = some (spec, rest ++ t) ↔
    specifierAt s = some (spec, rest) := by
  simp only [specifierAt_eq_some, quotedText_eq_some]
  constructor
  · rintro ⟨lead, q, _, hs, hlead, hq, c, r, q', hspec, rfl, hc, hr, hq'⟩
    refine ⟨lead, q, _, List.append_cancel_right (hs.trans ?_), hlead, hq, c, r, q', hspec, rfl, hc, hr,
      hq'⟩
    simp
  · rintro ⟨lead, q, _, rfl, hlead, hq, c, r, q', hspec, rfl, hc, hr, hq'⟩
    exact ⟨lead, q, spec ++ q' :: (rest ++ t), by simp, hlead, hq, c, r, q', hspec, rfl, hc, hr, hq'⟩

theorem specifierAt_eq_none_of_append (h : specifierAt (s ++ t) = none) : specifierAt s = none := by
  by_contra hsome
  obtain ⟨⟨spec, rest⟩, hx⟩ := Option.ne_none_iff_exists'.mp hsome
  cases h.symm.trans (specifierAt_append.mpr hx)

theorem length_of_specifierAt (h : specifierAt s = some (spec, rest)) :
    rest.length < s.length := by
  obtain ⟨lead, q, r, rfl, _, _, hr⟩ := specifierAt_eq_some.mp h
  obtain ⟨_, _, _, _, rfl, _⟩ := quotedText_eq_some.mp hr
  simp only [List.length_append, List.length_cons]
  omega

theorem fromClause_cons (c : Char) (r : List Char) : fromClause (c :: r) =
    (specifierAt (c :: r)).or (if c = '\n' then none else fromClause r) := by
  rw [fromClause]
  cases specifierAt (c :: r) with
  | some x => rfl
  | none => simp

theorem fromClause_eq_some (h : fromClause s = some (spec, rest)) :
    ∃ clause r, s = clause ++ r ∧ '\n' ∉ clause ∧ specifierAt r = some (spec, rest) := by
  induction s with
  | nil => cases h
  | cons c s ih =>
      rw [fromClause_cons] at h
      rcases hat : specifierAt (c :: s) with _ | x
      · rw [hat, Option.none_or] at h
        split at h
        · cases h
        · next hc =>
            obtain ⟨clause, r, rfl, hclause, hr⟩ := ih h
            exact ⟨c :: clause, r, rfl, by simpa using ⟨Ne.symm hc, hclause⟩, hr⟩
      · rw [hat, Option.some_or] at h
        cases h
        exact ⟨[], _, rfl, nofun, hat⟩

theorem fromClause_append_ne_none (h : fromClause s ≠ none) : fromClause (s ++ t) ≠ none := by
  induction s with
  | nil => exact absurd rfl h
  | cons c s ih =>
      rw [fromClause_cons] at h
      rw [List.cons_append, fromClause_cons]
      rcases hat : specifierAt (c :: (s ++ t)) with _ | x
      · rw [specifierAt_eq_none_of_append (t := t) hat, Option.none_or] at h
        rw [Option.none_or]
        split at h
        · exact absurd rfl h
        · next hc =>
            rw [if_neg hc]
            exact ih h
      · rw [Option.some_or]
        nofun

theorem fromClause_of_append (h : fromClause (s ++ t) = some (spec, rest ++ t)) :
    fromClause s = some (spec, rest) := by
  induction s with
  | nil =>
      obtain ⟨clause, r, ht, _, hr⟩ := fromClause_eq_some h
      have hlt := length_of_specifierAt hr
      have hlen := congrArg List.length ht
      simp only [List.nil_append, List.length_append] at hlt hlen
      omega
  | cons c s ih =>
      rw [List.cons_append, fromClause_cons] at h
      rw [fromClause_cons]
      rcases hat : specifierAt (c :: (s ++ t)) with _ | x
      · rw [hat, Option.none_or] at h
        rw [specifierAt_eq_none_of_append (t := t) hat, Option.none_or]
        split at h
        · cases h
        · next hc =>
            rw [if_neg hc]
            exact ih h
      · rw [hat, Option.some_or] at h
        cases h
        rw [specifierAt_append.mp hat, Option.some_or]

theorem importAt_eq_some : importAt s = some (spec, rest) ↔
    ∃ gap r, s = importWord ++ (gap ++ r) ∧ IsGap gap ∧ Text.Ends Text.isBlank r ∧
      fromClause r = some (spec, rest) := by
  simp only [importAt, Option.bind_eq_bind, Option.bind_eq_some_iff, Text.stripPrefix?_eq_some,
    afterBlanks_eq_some]
  constructor
  · rintro ⟨_, rfl, r, ⟨gap, rfl, hgap, hend⟩, h⟩
    exact ⟨gap, r, rfl, hgap, hend, h⟩
  · rintro ⟨gap, r, rfl, hgap, hend, h⟩
    exact ⟨_, rfl, r, ⟨gap, rfl, hgap, hend⟩, h⟩

theorem importAt_eq_none_of_append (h : importAt (s ++ t) = none) : importAt s = none := by
  by_contra hsome
  obtain ⟨⟨spec, rest⟩, hx⟩ := Option.ne_none_iff_exists'.mp hsome
  obtain ⟨gap, r, rfl, hgap, hend, hr⟩ := importAt_eq_some.mp hx
  have hne : r ≠ [] := by
    rintro rfl
    cases hr
  have hlong : fromClause (r ++ t) ≠ none := fromClause_append_ne_none (by rw [hr]; nofun)
  obtain ⟨⟨spec', rest'⟩, hr'⟩ := Option.ne_none_iff_exists'.mp hlong
  have hend' : Text.Ends Text.isBlank (r ++ t) := by
    rw [Text.Ends, List.head?_append_of_ne_nil _ hne]
    exact hend
  have := importAt_eq_some.mpr ⟨gap, r ++ t, rfl, hgap, hend', hr'⟩
  rw [← List.append_assoc, ← List.append_assoc, List.append_assoc importWord, h] at this
  cases this

theorem exists_statement (h : importAt s = some (spec, rest)) :
    ∃ m : Statement, s = m.text ++ rest ∧ m.specifier = spec := by
  obtain ⟨gap, r, rfl, hgap, _, hr⟩ := importAt_eq_some.mp h
  obtain ⟨clause, r, rfl, hclause, hr⟩ := fromClause_eq_some hr
  obtain ⟨lead, q, r, rfl, hlead, hq, hr⟩ := specifierAt_eq_some.mp hr
  obtain ⟨c, inner, q', rfl, rfl, hc, hinner, hq'⟩ := quotedText_eq_some.mp hr
  have hline : '\n' ∉ c :: inner := by
    simpa using ⟨Ne.symm hc, fun hm => (hinner _ hm).2 rfl⟩
  exact ⟨⟨gap, clause, lead, q, c :: inner, q', hgap, hlead, hclause, ⟨nofun, hline⟩, hq, hq'⟩,
    by simp [Statement.text], rfl⟩

theorem importAt_of_append {m : Statement}
    (h : importAt (m.text ++ (rest ++ t)) = some (m.specifier, rest ++ t)) :
    importAt (m.text ++ rest) = some (m.specifier, rest) := by
  obtain ⟨gap, r, hs, hgap, hend, hr⟩ := importAt_eq_some.mp h
  obtain ⟨clause, r', rfl, _, hr'⟩ := fromClause_eq_some hr
  obtain ⟨lead, q, r', rfl, _, _, hq⟩ := specifierAt_eq_some.mp hr'
  obtain ⟨_, _, q', _, rfl, _⟩ := quotedText_eq_some.mp hq
  have hsame : clause ++ (fromWord ++ (lead ++ q :: (m.specifier ++ q' :: (rest ++ t)))) =
      clause ++ (fromWord ++ (lead ++ q :: (m.specifier ++ q' :: rest))) ++ t := by simp
  rw [hsame] at hs hr
  have hne : clause ++ (fromWord ++ (lead ++ q :: (m.specifier ++ q' :: rest))) ≠ [] := by simp
  rw [hsame, Text.Ends, List.head?_append_of_ne_nil _ hne] at hend
  refine importAt_eq_some.mpr ⟨gap, _, List.append_cancel_right (?_ : _ ++ t = _ ++ t), hgap, hend,
    fromClause_of_append hr⟩
  simpa using hs

/-- The statements found from the left, none inside another. -/
inductive Finds : List Char → List Statement → Prop
  | done : Finds [] []
  | passed {c s ms} : importAt (c :: s) = none → Finds s ms → Finds (c :: s) ms
  | found {m rest ms} : importAt (Statement.text m ++ rest) = some (m.specifier, rest) →
      Finds rest ms → Finds (m.text ++ rest) (m :: ms)

theorem exists_finds (s : List Char) : ∃ ms, Finds s ms := by
  induction hn : s.length using Nat.strong_induction_on generalizing s with
  | _ n ih =>
      cases s with
      | nil => exact ⟨[], .done⟩
      | cons c s =>
          rcases hat : importAt (c :: s) with _ | ⟨spec, rest⟩
          · obtain ⟨ms, hms⟩ := ih s.length (by simp [← hn]) s rfl
            exact ⟨ms, .passed hat hms⟩
          · obtain ⟨m, hm, rfl⟩ := exists_statement hat
            rw [hm, List.length_append] at hn
            obtain ⟨ms, hms⟩ := ih rest.length (by have := m.length_pos; omega) rest rfl
            rw [hm] at hat ⊢
            exact ⟨m :: ms, .found hat hms⟩

namespace Finds

variable {m : Statement} {ms : List Statement} {a b : List Char}

theorem infix_of_mem (h : Finds s ms) (hm : m ∈ ms) : m.text <:+: s := by
  induction h with
  | done => cases hm
  | passed _ _ ih => exact (ih hm).trans (List.suffix_cons ..).isInfix
  | found _ _ ih =>
      rcases List.mem_cons.mp hm with rfl | hm
      · exact (List.prefix_append ..).isInfix
      · exact (ih hm).trans (List.suffix_append ..).isInfix

theorem exists_of_append_eq {u : List Char} {x : Char} (hu : x ∉ u)
    (h : u ++ rest = a ++ x :: b) : ∃ c, a = u ++ c ∧ rest = c ++ x :: b := by
  rcases List.append_eq_append_iff.mp h with ⟨c, rfl, hr⟩ | ⟨c, hc, hb⟩
  · exact ⟨c, rfl, hr⟩
  · cases c with
    | nil => exact ⟨[], by simpa using hc.symm, hb.symm⟩
    | cons y c =>
        cases hb
        exact absurd (by simp [hc]) hu

theorem split (h : Finds (a ++ '\n' :: b) ms) (hline : ∀ m ∈ ms, Statement.OnLine m) :
    ∃ as bs, as ++ bs = ms ∧ Finds a as ∧ Finds b bs := by
  generalize hs : a ++ '\n' :: b = s at h
  induction h generalizing a with
  | done => simp at hs
  | @passed c s ms hnone hrest ih =>
      cases a with
      | nil =>
          cases hs
          exact ⟨[], ms, rfl, .done, hrest⟩
      | cons x a =>
          cases hs
          obtain ⟨as, bs, hms, has, hbs⟩ := ih hline rfl
          exact ⟨as, bs, hms, .passed (importAt_eq_none_of_append hnone) has, hbs⟩
  | @found m rest ms hat hrest ih =>
      obtain ⟨hm, hms⟩ := List.forall_mem_cons.mp hline
      obtain ⟨a, rfl, rfl⟩ := exists_of_append_eq (m.onLine_iff.mp hm) hs.symm
      obtain ⟨as, bs, rfl, has, hbs⟩ := ih hms rfl
      exact ⟨m :: as, bs, rfl, .found (importAt_of_append hat) has, hbs⟩

theorem lines (h : Finds s ms) (hline : ∀ m ∈ ms, Statement.OnLine m) :
    ∃ mss, List.Forall₂ Finds (Text.splitAt '\n' s) mss ∧ mss.flatten = ms := by
  induction hn : s.length using Nat.strong_induction_on generalizing s ms with
  | _ n ih =>
      by_cases hs : '\n' ∈ s
      · obtain ⟨a, b, rfl, ha⟩ := List.eq_append_cons_of_mem hs
        obtain ⟨as, bs, rfl, has, hbs⟩ := h.split hline
        rw [List.length_append, List.length_cons] at hn
        obtain ⟨mss, hmss, rfl⟩ := ih _ (by omega) hbs
          (fun m hm => hline m (List.mem_append_right _ hm)) rfl
        rw [Text.splitAt_append ha]
        exact ⟨as :: mss, .cons has hmss, rfl⟩
      · rw [Text.splitAt_of_not_mem hs]
        exact ⟨[ms], .cons h .nil, by simp⟩

theorem onLine_of_lines {ls : List (List Char)} {mss : List (List Statement)}
    (hls : ∀ l ∈ ls, '\n' ∉ l) (h : List.Forall₂ Finds ls mss) :
    ∀ m ∈ mss.flatten, Statement.OnLine m := by
  induction h with
  | nil => nofun
  | @cons l ms ls mss hl _ ih =>
      rw [List.forall_mem_cons] at hls
      intro m hm
      rcases List.mem_append.mp hm with hm | hm
      · exact m.onLine_iff.mpr fun hn => hls.1 ((hl.infix_of_mem hm).subset hn)
      · exact ih hls.2 m hm

theorem scan_eq (h : Finds s ms) {fuel : Nat} (hfuel : s.length ≤ fuel) :
    scan fuel s = ms.map (·.specifier) := by
  induction h generalizing fuel with
  | done => cases fuel <;> rfl
  | passed hnone _ ih =>
      cases fuel with
      | zero => cases hfuel
      | succ fuel =>
          rw [scan, hnone]
          exact ih (Nat.le_of_succ_le_succ hfuel)
  | @found m rest ms hat _ ih =>
      rw [List.length_append] at hfuel
      have hpos := m.length_pos
      obtain ⟨c, r, hc⟩ := List.exists_cons_of_length_pos hpos
      cases fuel with
      | zero => omega
      | succ fuel =>
          rw [hc, List.cons_append] at hat ⊢
          rw [scan, hat, List.map_cons]
          dsimp only
          rw [ih (by omega)]

theorem specifiers_eq (h : Finds s ms) :
    specifiers (String.ofList s) = ms.map fun m => String.ofList m.specifier := by
  rw [specifiers, String.toList_ofList, h.scan_eq (Nat.le_refl _), List.map_map]
  rfl

theorem flatMap_specifiers {ls : List (List Char)} {mss : List (List Statement)}
    (h : List.Forall₂ Finds ls mss) : (ls.flatMap fun line => specifiers (String.ofList line)) =
      mss.flatten.map fun m => String.ofList m.specifier := by
  induction h with
  | nil => rfl
  | cons hl _ ih => rw [List.flatMap_cons, hl.specifiers_eq, ih, List.flatten_cons, List.map_append]

end Finds

/-- The import lines of a text are those of its lines taken one by one, as long as no statement that is
found goes over the end of a line; and only then are the statements the same. -/
theorem specifiers_by_line (s : String) : ∃ ms, Finds s.toList ms ∧
    specifiers s = ms.map (fun m => String.ofList m.specifier) ∧
    ((∀ m ∈ ms, m.OnLine) ↔
      ∃ mss, List.Forall₂ Finds (Text.splitAt '\n' s.toList) mss ∧ mss.flatten = ms) ∧
    ((∀ m ∈ ms, m.OnLine) → specifiers s =
      (Text.splitAt '\n' s.toList).flatMap fun line => specifiers (String.ofList line)) := by
  obtain ⟨ms, hms⟩ := exists_finds s.toList
  have hall := hms.specifiers_eq
  rw [String.ofList_toList] at hall
  refine ⟨ms, hms, hall, ⟨hms.lines, ?_⟩, fun hline => ?_⟩
  · rintro ⟨mss, hmss, rfl⟩
    exact Finds.onLine_of_lines (fun _ => Text.not_mem_of_mem_splitAt) hmss
  · obtain ⟨mss, hmss, rfl⟩ := hms.lines hline
    rw [hall, Finds.flatMap_specifiers hmss]

theorem specifiers_over_line : specifiers "import\na from './a';" = ["./a"] ∧
    (Text.splitAt '\n' "import\na from './a';".toList).flatMap
      (fun line => specifiers (String.ofList line)) = [] := by
  decide

end SourceAtlas.Import
