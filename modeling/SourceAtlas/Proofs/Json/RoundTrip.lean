import SourceAtlas.Proofs.Json.Text
import SourceAtlas.Proofs.Text.Digits

namespace SourceAtlas.Json

def Follows (s : List Char) : Prop := ∀ c ∈ s.head?, c = ',' ∨ c = '\n'

theorem Follows.ends {s : List Char} (h : Follows s) : Text.Ends Char.isDigit s := by
  intro c hc
  rcases h c hc with rfl | rfl <;> rfl

theorem Follows.fraction {s : List Char} (h : Follows s) : fraction s = some ([], s) := by
  cases s with
  | nil => rfl
  | cons c s => rcases h c rfl with rfl | rfl <;> rfl

theorem Follows.exponent {s : List Char} (h : Follows s) : exponent s = some ([], s) := by
  cases s with
  | nil => rfl
  | cons c s => rcases h c rfl with rfl | rfl <;> rfl

theorem natOf_toDigits (n : Nat) : natOf (Nat.toDigits 10 n) = n := by
  rw [natOf, Text.foldl_digits, Nat.ofDigitChars_ten_toDigits]

theorem digits_run (n : Nat) {s : List Char} (h : Follows s) :
    digits (Nat.toDigits 10 n ++ s) = Nat.toDigits 10 n ∧
      afterDigits (Nat.toDigits 10 n ++ s) = s :=
  ⟨Text.takeWhile_run (Text.toDigits_isDigit n) h.ends,
    Text.dropWhile_run (Text.toDigits_isDigit n) h.ends⟩

theorem toDigits_whole (n : Nat) : ((Nat.toDigits 10 n).isEmpty ||
    ((Nat.toDigits 10 n).head? == some '0' && decide (1 < (Nat.toDigits 10 n).length))) = false := by
  have hne : (Nat.toDigits 10 n).isEmpty = false := by simp
  rw [hne, Bool.false_or]
  by_cases hn : n = 0
  · subst hn
    rfl
  · rw [beq_false_of_ne (Text.head?_toDigits hn), Bool.false_and]

theorem toList_ofNat (n : Nat) : (toString (Int.ofNat n)).toList = Nat.toDigits 10 n :=
  Nat.toList_repr

theorem toList_negSucc (n : Nat) :
    (toString (Int.negSucc n)).toList = '-' :: Nat.toDigits 10 (n + 1) := by
  show ("-" ++ (n + 1).repr).toList = _
  rw [String.toList_append, Nat.toList_repr]
  rfl

theorem readNumber_integer (n : Int) {s : List Char} (h : Follows s) :
    readNumber ((toString n).toList ++ s) = some (.integer n, s) := by
  cases n with
  | ofNat m =>
      obtain ⟨hd, ha⟩ := digits_run m h
      have hsign : ∀ r, Nat.toDigits 10 m ++ s = '-' :: r → False := by
        intro r hr
        obtain ⟨c, cs, hc⟩ := List.exists_cons_of_ne_nil (Nat.toDigits_ne_nil (b := 10) (n := m))
        rw [hc, List.cons_append, List.cons.injEq] at hr
        have := Text.toDigits_isDigit m c (by rw [hc]; exact List.mem_cons_self)
        rw [hr.1] at this
        cases this
      rw [toList_ofNat, readNumber]
      · simp only [hd, ha, toDigits_whole, h.fraction, h.exponent, natOf_toDigits, bind, Option.bind,
          pure]
        rfl
      · exact hsign
  | negSucc m =>
      obtain ⟨hd, ha⟩ := digits_run (m + 1) h
      rw [toList_negSucc, List.cons_append]
      unfold readNumber
      simp only [hd, ha, toDigits_whole, h.fraction, h.exponent, natOf_toDigits, bind, Option.bind,
        pure]
      rfl

theorem skipBlanks_indent (level : Nat) (s : List Char) :
    skipBlanks (indent level ++ s) = skipBlanks s := by
  have hblank : ∀ c ∈ indent level, isBlank c = true := by
    intro c hc
    rw [List.eq_of_mem_replicate hc]
    rfl
  exact List.dropWhile_append_of_pos hblank

theorem skipBlanks_item (level : Nat) (s : List Char) :
    skipBlanks ('\n' :: (indent (level + 1) ++ s)) = skipBlanks s :=
  skipBlanks_indent (level + 1) s

theorem skipBlanks_cons {c : Char} (h : isBlank c = false) (s : List Char) :
    skipBlanks (c :: s) = c :: s := by
  simp [skipBlanks, h]

theorem readValue_skip {s s' : List Char} (h : skipBlanks s = skipBlanks s') (n : Nat) :
    readValue n s = readValue n s' := by
  cases n with
  | zero => rfl
  | succ n => simp only [readValue, h]

theorem readItems_skip {s s' : List Char} (h : skipBlanks s = skipBlanks s') (n : Nat) :
    readItems n s = readItems n s' := by
  cases n with
  | zero => rfl
  | succ n => simp only [readItems, readValue_skip h]

theorem readPairs_skip {s s' : List Char} (h : skipBlanks s = skipBlanks s') (n : Nat) :
    readPairs n s = readPairs n s' := by
  cases n with
  | zero => rfl
  | succ n => simp only [readPairs, h]

def closing (right : Char) (level : Nat) (items : List (List Char)) (s : List Char) : List Char :=
  items.flatMap (fun x => ',' :: '\n' :: (indent (level + 1) ++ x)) ++
    '\n' :: (indent level ++ right :: s)

theorem flatten_intersperse (sep x : List Char) (xs : List (List Char)) :
    (List.intersperse sep (x :: xs)).flatten = x ++ xs.flatMap (sep ++ ·) := by
  induction xs generalizing x with
  | nil => simp
  | cons y xs ih =>
      rw [List.intersperse_cons_cons, List.flatten_cons, List.flatten_cons, ih, List.flatMap_cons,
        List.append_assoc]

theorem indentedBrackets_cons (left right : Char) (level : Nat) (x : List Char)
    (xs : List (List Char)) (s : List Char) :
    indentedBrackets left right level (x :: xs) ++ s =
      left :: '\n' :: (indent (level + 1) ++ (x ++ closing right level xs s)) := by
  rw [indentedBrackets, if_neg (by simp), List.map_cons, flatten_intersperse, List.flatMap_map]
  simp [closing]

theorem follows_closing (right : Char) (level : Nat) (items : List (List Char)) (s : List Char) :
    Follows (closing right level items s) := by
  intro c hc
  cases items with
  | nil =>
      cases hc
      exact .inr rfl
  | cons x xs =>
      cases hc
      exact .inl rfl

theorem skipBlanks_closing_nil {right : Char} (h : isBlank right = false) (level : Nat)
    (s : List Char) : skipBlanks (closing right level [] s) = right :: s := by
  show skipBlanks (indent level ++ right :: s) = _
  rw [skipBlanks_indent, skipBlanks_cons h]

theorem closing_cons (right : Char) (level : Nat) (x : List Char) (xs : List (List Char))
    (s : List Char) : closing right level (x :: xs) s =
      ',' :: '\n' :: (indent (level + 1) ++ (x ++ closing right level xs s)) := by
  simp [closing]

theorem length_closing (right : Char) (level : Nat) (items : List (List Char)) (s : List Char) :
    s.length + 2 ≤ (closing right level items s).length := by
  simp only [closing, List.length_append, List.length_cons]
  omega

namespace Value

mutual

def IsPlain : Value → Prop
  | .garbled | .decimal _ => False
  | .array vs => PlainItems vs
  | .object ps => PlainPairs ps
  | _ => True

def PlainItems : List Value → Prop
  | [] => True
  | v :: vs => IsPlain v ∧ PlainItems vs

def PlainPairs : List (String × Value) → Prop
  | [] => True
  | (_, v) :: r => IsPlain v ∧ PlainPairs r

end

theorem plainItems_iff {vs : List Value} : PlainItems vs ↔ ∀ v ∈ vs, v.IsPlain := by
  induction vs with
  | nil => simp [PlainItems]
  | cons v vs ih => simp [PlainItems, ih]

theorem plainPairs_iff {ps : List (String × Value)} : PlainPairs ps ↔ ∀ p ∈ ps, p.2.IsPlain := by
  induction ps with
  | nil => simp [PlainPairs]
  | cons p ps ih => simp [PlainPairs, ih]

theorem texts_plain (ss : List String) : (texts ss).IsPlain :=
  plainItems_iff.mpr (List.forall_mem_map.mpr fun _ _ => trivial)

theorem indented_head {v : Value} (hv : v.IsPlain) (level : Nat) :
    ∃ c r, v.indented level = c :: r ∧ isBlank c = false ∧ c ≠ ']' := by
  cases v with
  | null => exact ⟨'n', _, rfl, rfl, by decide⟩
  | bool b => cases b <;> exact ⟨_, _, rfl, rfl, by decide⟩
  | integer n =>
      cases n with
      | ofNat m =>
          obtain ⟨c, cs, hc⟩ := List.exists_cons_of_ne_nil (Nat.toDigits_ne_nil (b := 10) (n := m))
          have hd := Text.toDigits_isDigit m c (by rw [hc]; exact List.mem_cons_self)
          refine ⟨c, cs, (toList_ofNat m).trans hc, ?_, ?_⟩
          · by_contra hb
            simp only [isBlank, Bool.not_eq_false, Bool.or_eq_true, beq_iff_eq] at hb
            rcases hb with ((rfl | rfl) | rfl) | rfl <;> cases hd
          · rintro rfl
            cases hd
      | negSucc m => exact ⟨'-', _, toList_negSucc m, rfl, by decide⟩
  | decimal t => exact hv.elim
  | text t => exact ⟨'"', _, rfl, rfl, by decide⟩
  | garbled => exact hv.elim
  | array vs =>
      rw [indented]
      cases vs with
      | nil => exact ⟨'[', _, rfl, rfl, by decide⟩
      | cons v vs => exact ⟨'[', _, rfl, rfl, by decide⟩
  | object ps =>
      rw [indented]
      cases ps with
      | nil => exact ⟨'\x7b', _, rfl, rfl, by decide⟩
      | cons p ps => exact ⟨'\x7b', _, rfl, rfl, by decide⟩

end Value

theorem objectOf_some (ps : List (String × Value)) :
    objectOf (ps.map fun p => (some p.1, p.2)) = .object ps := by
  have hmap : (ps.map fun p => (some p.1, p.2)).filterMap (fun p => p.1.map (·, p.2)) = ps := by
    induction ps with
    | nil => rfl
    | cons p ps ih =>
        rw [List.map_cons, List.filterMap_cons, ih]
        rfl
  rw [objectOf, if_pos (by simp), hmap]

theorem readKey_written (k : String) (s : List Char) :
    readKey (writeText k ++ ':' :: s) = some (some k, s) := by
  have htext : writeText k ++ ':' :: s = '"' :: (k.toList.flatMap escapeChar ++ '"' :: ':' :: s) := by
    simp [writeText]
  rw [htext, readKey, readText_written]
  dsimp only
  rw [skipBlanks_cons (by decide)]
  rfl

theorem readValue_text (t : String) (s : List Char) (n : Nat) :
    readValue (n + 1) (writeText t ++ s) = some (.text t, s) := by
  have htext : writeText t ++ s = '"' :: (t.toList.flatMap escapeChar ++ '"' :: s) := by
    simp [writeText]
  rw [htext, readValue, skipBlanks_cons (by decide)]
  simp only [readText_written]

theorem readValue_integer (k : Int) {s : List Char} (hs : Follows s) (n : Nat) :
    readValue (n + 1) ((toString k).toList ++ s) = some (.integer k, s) := by
  have hhead : ∃ c r, (toString k).toList = c :: r ∧ (c.isDigit = true ∨ c = '-') := by
    cases k with
    | ofNat m =>
        obtain ⟨c, cs, hc⟩ := List.exists_cons_of_ne_nil (Nat.toDigits_ne_nil (b := 10) (n := m))
        refine ⟨c, cs, (toList_ofNat m).trans hc, .inl (Text.toDigits_isDigit m c ?_)⟩
        rw [hc]
        exact List.mem_cons_self
    | negSucc m => exact ⟨'-', _, toList_negSucc m, .inr rfl⟩
  obtain ⟨c, r, hc, hd⟩ := hhead
  have hne : ∀ x : Char, x.isDigit = false → x ≠ '-' → c ≠ x := by
    rintro x hx hm rfl
    rcases hd with hd | hd
    · rw [hx] at hd
      cases hd
    · exact hm hd
  have hb : isBlank c = false := by
    simp only [isBlank, Bool.or_eq_false_iff, beq_eq_false_iff_ne]
    exact ⟨⟨⟨hne _ rfl (by decide), hne _ rfl (by decide)⟩, hne _ rfl (by decide)⟩,
      hne _ rfl (by decide)⟩
  have hread := readNumber_integer k hs
  rw [hc, List.cons_append] at hread ⊢
  rw [readValue, skipBlanks_cons hb]
  split
  · next he => exact absurd (List.cons.inj he).1 (hne _ rfl (by decide))
  · next he => exact absurd (List.cons.inj he).1 (hne _ rfl (by decide))
  · next he => exact absurd (List.cons.inj he).1 (hne _ rfl (by decide))
  · next he => exact absurd (List.cons.inj he).1 (hne _ rfl (by decide))
  · next he => exact absurd (List.cons.inj he).1 (hne _ rfl (by decide))
  · next he => exact absurd (List.cons.inj he).1 (hne _ rfl (by decide))
  · exact hread

theorem readValue_array {t : List Char}
    (ht : ∃ c, (skipBlanks t).head? = some c ∧ isBlank c = false ∧ c ≠ ']') (n : Nat) :
    readValue (n + 1) ('[' :: t) = (readItems n t).map fun x => (.array x.1, x.2) := by
  obtain ⟨c, ht, hb, hc⟩ := ht
  obtain ⟨r, ht⟩ := List.head?_eq_some_iff.mp ht
  rw [readValue, skipBlanks_cons (by decide)]
  simp only [ht]
  split
  · next he => exact absurd (List.cons.inj he).1 hc
  · rw [readItems_skip (ht.trans (skipBlanks_cons hb r).symm)]

theorem readValue_object {t : List Char}
    (ht : ∃ c, (skipBlanks t).head? = some c ∧ isBlank c = false ∧ c ≠ '\x7d') (n : Nat) :
    readValue (n + 1) ('\x7b' :: t) = (readPairs n t).map fun x => (objectOf x.1, x.2) := by
  obtain ⟨c, ht, hb, hc⟩ := ht
  obtain ⟨r, ht⟩ := List.head?_eq_some_iff.mp ht
  rw [readValue, skipBlanks_cons (by decide)]
  simp only [ht]
  split
  · next he => exact absurd (List.cons.inj he).1 hc
  · rw [readPairs_skip (ht.trans (skipBlanks_cons hb r).symm)]

section Steps

variable {n : Nat} {t r r' s : List Char} {k : Option String} {v : Value}

theorem readItems_last (h : readValue n t = some (v, r)) (hr : skipBlanks r = ']' :: s) :
    readItems (n + 1) t = some ([v], s) := by
  rw [readItems, h]
  simp only [hr]

theorem readItems_next (h : readValue n t = some (v, r)) (hr : skipBlanks r = ',' :: s) :
    readItems (n + 1) t = (readItems n s).map fun x => (v :: x.1, x.2) := by
  rw [readItems, h]
  simp only [hr]

theorem readPairs_last (hk : readKey (skipBlanks t) = some (k, r)) (h : readValue n r = some (v, r'))
    (hr : skipBlanks r' = '\x7d' :: s) : readPairs (n + 1) t = some ([(k, v)], s) := by
  rw [readPairs, hk]
  simp only [h, hr]

theorem readPairs_next (hk : readKey (skipBlanks t) = some (k, r)) (h : readValue n r = some (v, r'))
    (hr : skipBlanks r' = ',' :: s) :
    readPairs (n + 1) t = (readPairs n s).map fun x => ((k, v) :: x.1, x.2) := by
  rw [readPairs, hk]
  simp only [h, hr]

end Steps

theorem readKey_pair (k : String) (s : List Char) :
    readKey (skipBlanks (writeText k ++ ':' :: ' ' :: s)) = some (some k, ' ' :: s) := by
  rw [writeText, List.cons_append, List.cons_append, skipBlanks_cons (by decide)]
  exact readKey_written k (' ' :: s)

theorem skipBlanks_blank (s : List Char) : skipBlanks (' ' :: s) = skipBlanks s := rfl

mutual

theorem readValue_indented : ∀ {v : Value}, v.IsPlain → ∀ {level n : Nat} {s : List Char}, Follows s →
    (v.indented level).length ≤ n → readValue n (v.indented level ++ s) = some (v, s)
  | v, hv, level, 0, s, hs, hn => by
      obtain ⟨c, r, hc, _⟩ := Value.indented_head hv level
      rw [hc] at hn
      cases hn
  | .array [], _, _, n + 1, _, _, _ => rfl
  | .array (v :: vs), hv, level, n + 1, s, hs, hn => by
      obtain ⟨c, r, hc, hb, hne⟩ := Value.indented_head hv.1 (level + 1)
      have hx : Value.indentedItems (level + 1) (v :: vs) =
        v.indented (level + 1) :: Value.indentedItems (level + 1) vs := rfl
      have hlen := congrArg List.length (indentedBrackets_cons '[' ']' level
        (v.indented (level + 1)) (Value.indentedItems (level + 1) vs) s)
      rw [Value.indented, hx] at hn ⊢
      rw [indentedBrackets_cons, readValue_array, readItems_skip (skipBlanks_item level _),
        readItems_indented hv hx]
      · rfl
      · simp only [List.length_append, List.length_cons] at hlen hn ⊢
        omega
      · refine ⟨c, ?_, hb, hne⟩
        rw [skipBlanks_item, hc, List.cons_append, skipBlanks_cons hb]
        rfl
  | .object [], _, _, n + 1, _, _, _ => rfl
  | .object ((k, v) :: ps), hv, level, n + 1, s, hs, hn => by
      have hx : Value.indentedPairs (level + 1) ((k, v) :: ps) =
        (writeText k ++ ':' :: ' ' :: v.indented (level + 1)) ::
          Value.indentedPairs (level + 1) ps := rfl
      have hlen := congrArg List.length (indentedBrackets_cons '\x7b' '\x7d' level
        (writeText k ++ ':' :: ' ' :: v.indented (level + 1)) (Value.indentedPairs (level + 1) ps) s)
      rw [Value.indented, hx] at hn ⊢
      rw [indentedBrackets_cons, readValue_object, readPairs_skip (skipBlanks_item level _),
        readPairs_indented hv hx]
      · exact congrArg (fun v => some (v, s)) (objectOf_some _)
      · simp only [List.length_append, List.length_cons] at hlen hn ⊢
        omega
      · refine ⟨'"', ?_, rfl, by decide⟩
        rw [skipBlanks_item, writeText, List.append_assoc, List.cons_append, List.cons_append,
          skipBlanks_cons (by decide)]
        rfl
  | .null, _, _, n + 1, _, _, _ => rfl
  | .bool true, _, _, n + 1, _, _, _ => rfl
  | .bool false, _, _, n + 1, _, _, _ => rfl
  | .integer k, _, _, n + 1, _, hs, _ => readValue_integer k hs n
  | .text t, _, _, n + 1, s, _, _ => readValue_text t s n

theorem readItems_indented : ∀ {vs : List Value}, Value.PlainItems vs → ∀ {level n : Nat}
    {s x : List Char} {xs : List (List Char)}, Value.indentedItems (level + 1) vs = x :: xs →
    (x ++ closing ']' level xs s).length ≤ n + s.length →
    readItems n (x ++ closing ']' level xs s) = some (vs, s)
  | [], _, _, _, _, _, _, hx, _ => by cases hx
  | v :: vs, hv, level, 0, s, x, xs, hx, hn => by
      have := length_closing ']' level xs s
      simp only [List.length_append] at hn
      omega
  | v :: vs, hv, level, n + 1, s, _, _, rfl, hn => by
      have hmore := length_closing ']' level (Value.indentedItems (level + 1) vs) s
      rw [List.length_append] at hn
      have hread : readValue n (v.indented (level + 1) ++
          closing ']' level (Value.indentedItems (level + 1) vs) s) = some (v, _) :=
        readValue_indented hv.1 (follows_closing _ _ _ _) (by omega)
      cases vs with
      | nil => exact readItems_last hread (skipBlanks_closing_nil rfl level s)
      | cons w ws =>
          have hx : Value.indentedItems (level + 1) (w :: ws) =
            w.indented (level + 1) :: Value.indentedItems (level + 1) ws := rfl
          rw [hx, closing_cons] at hn hread ⊢
          simp only [List.length_append, List.length_cons] at hn
          rw [readItems_next hread (skipBlanks_cons (by decide) _),
            readItems_skip (skipBlanks_item level _),
            readItems_indented hv.2 hx (by rw [List.length_append]; omega)]
          rfl

theorem readPairs_indented : ∀ {ps : List (String × Value)}, Value.PlainPairs ps → ∀ {level n : Nat}
    {s x : List Char} {xs : List (List Char)}, Value.indentedPairs (level + 1) ps = x :: xs →
    (x ++ closing '\x7d' level xs s).length ≤ n + s.length →
    readPairs n (x ++ closing '\x7d' level xs s) = some (ps.map fun p => (some p.1, p.2), s)
  | [], _, _, _, _, _, _, hx, _ => by cases hx
  | (k, v) :: ps, hv, level, 0, s, x, xs, hx, hn => by
      have := length_closing '\x7d' level xs s
      simp only [List.length_append] at hn
      omega
  | (k, v) :: ps, hv, level, n + 1, s, _, _, rfl, hn => by
      have hmore := length_closing '\x7d' level (Value.indentedPairs (level + 1) ps) s
      simp only [List.length_append, List.length_cons] at hn
      have hread : readValue n (' ' :: (v.indented (level + 1) ++
          closing '\x7d' level (Value.indentedPairs (level + 1) ps) s)) =
            some (v, closing '\x7d' level (Value.indentedPairs (level + 1) ps) s) := by
        rw [readValue_skip (skipBlanks_blank _)]
        exact readValue_indented hv.1 (follows_closing _ _ _ _) (by omega)
      rw [List.append_assoc, List.cons_append, List.cons_append]
      cases ps with
      | nil =>
          exact readPairs_last (readKey_pair k _) hread (skipBlanks_closing_nil rfl level s)
      | cons p qs =>
          obtain ⟨k', w⟩ := p
          have hx : Value.indentedPairs (level + 1) ((k', w) :: qs) =
            (writeText k' ++ ':' :: ' ' :: w.indented (level + 1)) ::
              Value.indentedPairs (level + 1) qs := rfl
          rw [hx, closing_cons] at hn hread ⊢
          simp only [List.length_append, List.length_cons] at hn
          rw [readPairs_next (readKey_pair k _) hread (skipBlanks_cons (by decide) _),
            readPairs_skip (skipBlanks_item level _),
            readPairs_indented hv.2 hx (by simp only [List.length_append, List.length_cons]; omega)]
          rfl

end

theorem fromUTF8_toUTF8 (s : String) : String.fromUTF8? s.toUTF8 = some s := by
  have hv : s.toUTF8.IsValidUTF8 := s.isValidUTF8
  rw [String.fromUTF8?, dif_pos hv]
  rfl

theorem ofBytes_indentedText {v : Value} (hv : v.IsPlain) :
    Value.ofBytes? v.indentedText.toUTF8 = some v := by
  have hread := readValue_indented hv (s := []) nofun (Nat.le_succ (v.indented 0).length)
  rw [List.append_nil] at hread
  rw [Value.ofBytes?, fromUTF8_toUTF8, Value.indentedText]
  simp only [String.toList_ofList, Value.ofText?, hread]
  rfl

end SourceAtlas.Json
