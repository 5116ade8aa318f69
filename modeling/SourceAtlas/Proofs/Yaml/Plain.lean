import SourceAtlas.Proofs.Text.Digits
import SourceAtlas.Proofs.Yaml.Cursor

namespace SourceAtlas.Yaml

open Text (Ends)

variable {r s w t : List Char} {l k i n m least : Nat}

structure IsPlain (s : List Char) : Prop where
  ne_nil : s ≠ []
  visible : ∀ c ∈ s, isPlainlyVisible c = true
  white : ∀ c ∈ s, isWhite c = true → c = ' '
  start : Ends isWhite s
  finish : s.getLast? ≠ some ' '
  unmarked : s.head? ≠ some '#'
  colon : ∀ u v, s = u ++ ':' :: v → whiteNext v = false
  sharp : ∀ u v, s ≠ u ++ ' ' :: '#' :: v

theorem whiteNext_eq_false (h : whiteNext s = false) : s ≠ [] ∧ Ends isWhite s := by
  cases s with
  | nil => cases h
  | cons c s => exact ⟨nofun, .cons h s⟩

theorem whiteNext_append (h : s ≠ []) (r : List Char) : whiteNext (s ++ r) = whiteNext s := by
  obtain ⟨c, s, rfl⟩ := List.exists_cons_of_ne_nil h
  rfl

theorem IsPlain.rest (h : IsPlain (w ++ (spaces (m + 1) ++ t))) (ht : t.head? ≠ some ' ') :
    IsPlain t where
  ne_nil := by
    rintro rfl
    refine h.finish ?_
    rw [List.append_nil, spaces, List.replicate_succ', ← List.append_assoc, List.getLast?_concat]
  visible c hc := h.visible c (by simp [hc])
  white c hc := h.white c (by simp [hc])
  start c hc := by
    by_contra hw
    rw [Bool.not_eq_false] at hw
    have := h.white c (by simp [List.mem_of_mem_head? hc]) hw
    rw [Option.mem_def.mp hc, this] at ht
    exact ht rfl
  finish hl := by
    refine h.finish ?_
    rw [← List.append_assoc, List.getLast?_append, hl]
    rfl
  unmarked hh := by
    obtain ⟨t, rfl⟩ := List.head?_eq_some_iff.mp hh
    refine h.sharp (w ++ spaces m) t ?_
    simp [spaces, List.replicate_succ']
  colon u v hv := h.colon (w ++ (spaces (m + 1) ++ u)) v (by simp [hv])
  sharp u v hv := h.sharp (w ++ (spaces (m + 1) ++ u)) v (by simp [hv])

theorem IsPlain.split (h : IsPlain s) : ∃ w, w ≠ [] ∧ (∀ c ∈ w, isWhite c = false) ∧
    (s = w ∨ ∃ m t, s = w ++ (spaces (m + 1) ++ t) ∧ IsPlain t) := by
  obtain ⟨w, r, hs, hw, hr⟩ := Text.exists_run (fun c => !isWhite c) s
  have hword : ∀ c ∈ w, isWhite c = false := fun c hc => by simpa using hw c hc
  refine ⟨w, ?_, hword, ?_⟩
  · rintro rfl
    obtain ⟨c, s, rfl⟩ := List.exists_cons_of_ne_nil h.ne_nil
    have hwhite := hr c (by rw [← List.nil_append r, ← hs]; rfl)
    simp [h.start c rfl] at hwhite
  · obtain ⟨b, t, rfl, hb, ht⟩ := Text.exists_run isSpace r
    cases b with
    | nil =>
        cases t with
        | nil => exact .inl (by simpa using hs)
        | cons c t =>
            have hwhite : isWhite c = true := by simpa using hr c rfl
            have hc : isSpace c = true := by
              rw [h.white c (by simp [hs]) hwhite]
              rfl
            rw [ht c rfl] at hc
            cases hc
    | cons c b =>
        have hspaces := eq_spaces hb
        rw [List.length_cons] at hspaces
        rw [hspaces] at hs
        refine .inr ⟨b.length, t, hs, IsPlain.rest (hs ▸ h) fun hh => ?_⟩
        have := ht ' ' hh
        cases this

theorem plainEnds_cons (c : Char) : plainEnds false ⟨c :: r, l, k, i⟩ =
    some (c == ':' && whiteNext r) := by
  simp [plainEnds]

theorem whiteAt_zero : (⟨r, l, k, i⟩ : Cursor).whiteAt 0 = whiteNext r := by cases r <;> rfl

def EndsPlain (r : List Char) : Prop := whiteNext r = true ∨ ∃ s, r = ':' :: s ∧ whiteNext s = true

theorem plainWord_end (hr : EndsPlain r) (acc : List Char) :
    plainWord false n ⟨r, l, k, i⟩ acc = some (acc, ⟨r, l, k, i⟩) := by
  cases n with
  | zero => rfl
  | succ n =>
      rcases hr with hr | ⟨s, rfl, hs⟩
      · rw [plainWord, whiteAt_zero, if_pos hr]
      · rw [plainWord, whiteAt_zero, if_neg (by exact Bool.false_ne_true), plainEnds_cons, hs]
        rfl

theorem plainWord_run (hw : ∀ c ∈ w, isWhite c = false)
    (hcolon : ∀ u v, w = u ++ ':' :: v → whiteNext (v ++ r) = false) (hr : EndsPlain r)
    (hn : w.length ≤ n) (acc : List Char) : plainWord false n ⟨w ++ r, l, k, i⟩ acc =
      some (acc ++ w, ⟨r, l, k + w.length, i + w.length⟩) := by
  induction w generalizing n k i acc with
  | nil =>
      rw [List.append_nil]
      exact plainWord_end hr acc
  | cons c w ih =>
      rw [List.forall_mem_cons] at hw
      obtain ⟨n, rfl⟩ := Nat.exists_eq_add_one_of_ne_zero (n := n) (by rintro rfl; cases hn)
      have hends : (c == ':' && whiteNext (w ++ r)) = false := by
        by_cases hc : c = ':'
        · rw [hcolon [] w (by rw [hc]; rfl), Bool.and_false]
        · rw [beq_false_of_ne hc, Bool.false_and]
      have hword := ih (k := k + 1) (i := i + 1) hw.2
        (fun u v huv => hcolon (c :: u) v (by rw [huv]; rfl)) (Nat.le_of_succ_le_succ hn) (acc ++ [c])
      rw [List.append_assoc, Nat.add_right_comm k, Nat.add_right_comm i] at hword
      rw [List.cons_append, plainWord, Cursor.whiteAt_zero_cons, hw.1, if_neg Bool.false_ne_true,
        plainEnds_cons, hends]
      exact hword

theorem atDocumentMark_eq_false (h : 0 < k) : (⟨r, l, k, i⟩ : Cursor).atDocumentMark = false := by
  obtain ⟨k, rfl⟩ := Nat.exists_eq_add_one_of_ne_zero (n := k) (by omega)
  rfl

theorem plainFrom_word (hne : w ≠ []) (hw : ∀ c ∈ w, isWhite c = false)
    (hcolon : ∀ u v, w = u ++ ':' :: v → whiteNext (v ++ r) = false)
    (hsharp : w.head? ≠ some '#') (hk : 0 < k) (hr : whiteNext r = true) (hr' : r ≠ []) {g' : Gap}
    {c : Cursor}
    (hgap : gapAt least ⟨r, l, k + w.length, i + w.length⟩ Gap.none = some (g', c)) (g : Gap)
    (acc : List Char) : plainFrom false least (n + 1) ⟨w ++ r, l, k, i⟩ g acc =
      if c.column < least then some (acc ++ g.text ++ w, g'.broken, c)
      else plainFrom false least n c g' (acc ++ g.text ++ w) := by
  have hfirst : (⟨w ++ r, l, k, i⟩ : Cursor).at? '#' = false := by
    obtain ⟨c, w, rfl⟩ := List.exists_cons_of_ne_nil hne
    rw [List.cons_append, Cursor.at?_cons, beq_eq_false_iff_ne]
    rintro rfl
    exact hsharp rfl
  have hword := plainWord_run (l := l) (k := k) (i := i) (n := (w ++ r).length + 1) hw hcolon
    (.inl hr) (by rw [List.length_append]; omega) []
  have hwhite : ((⟨r, l, k + w.length, i + w.length⟩ : Cursor).atBlank ||
      (⟨r, l, k + w.length, i + w.length⟩ : Cursor).atBreak) = true := by
    obtain ⟨x, u, rfl⟩ := List.exists_cons_of_ne_nil hr'
    exact hr
  rw [plainFrom, atDocumentMark_eq_false hk, hfirst, if_neg (by exact Bool.false_ne_true), hword]
  simp [bind, Option.bind, hne, hwhite, hgap]

theorem plainFrom_read (h : IsPlain s) (hr : Ends isWhite r) (hk : 0 < k) (hleast : least ≤ k)
    (hm : m < least) (hn : s.length ≤ n) (g : Gap) (acc : List Char) :
    ∃ l' i', plainFrom false least n ⟨s ++ '\n' :: (spaces m ++ r), l, k, i⟩ g acc =
      some (acc ++ g.text ++ s, true, ⟨r, l', m, i'⟩) := by
  -- word by word, each with the gap behind it
  induction n generalizing s k i g acc with
  | zero => exact absurd (List.length_eq_zero_iff.mp (Nat.le_zero.mp hn)) h.ne_nil
  | succ n ih =>
      obtain ⟨w, hne, hw, hsplit⟩ := h.split
      have hlength := List.length_pos_iff.mpr hne
      rcases hsplit with rfl | ⟨b, t, rfl, ht⟩
      · obtain ⟨l', i', hgap⟩ := gapAt_breaks (l := l) (k := k + s.length) (i := i + s.length) (m := m)
          hr least (.inl rfl) (b := []) nofun
        rw [List.nil_append] at hgap
        refine ⟨l', i', ?_⟩
        rw [plainFrom_word hne hw ?_ h.unmarked hk (by rfl) (by simp) hgap, if_pos hm]
        intro u v huv
        have hv := h.colon u v huv
        rwa [whiteNext_append (whiteNext_eq_false hv).1]
      · have hends : Ends isWhite (t ++ '\n' :: (spaces m ++ r)) := by
          obtain ⟨c, t, rfl⟩ := List.exists_cons_of_ne_nil ht.ne_nil
          exact .cons (ht.start c rfl) _
        have hgap := gapAt_blanks (l := l) (k := k + w.length) (i := i + w.length) (m := b + 1) hends
          least
        rw [List.length_append, List.length_append, length_spaces] at hn
        obtain ⟨l', i', hrest⟩ := ih (k := k + w.length + (b + 1)) (i := i + w.length + (b + 1)) ht
          (by omega) (by omega) (by omega) ⟨spaces (b + 1), [], [], false⟩ (acc ++ g.text ++ w)
        refine ⟨l', i', ?_⟩
        rw [List.append_assoc, List.append_assoc, plainFrom_word hne hw ?_ ?_ hk (by rfl) (by simp [spaces])
          hgap,
          if_neg (by dsimp only; omega), hrest]
        · simp [Gap.text]
        · intro u v huv
          have hv := h.colon u (v ++ (spaces (b + 1) ++ t)) (by rw [huv]; simp)
          cases v with
          | nil => cases hv
          | cons c v => exact hv
        · intro hh
          obtain ⟨w, rfl⟩ := List.head?_eq_some_iff.mp hh
          exact h.unmarked rfl

theorem readPlain_value (h : IsPlain s) (hr : Ends isWhite r) (hk : 0 < k) (hleast : least ≤ k)
    (hm : m < least) :
    ∃ l' i', readPlain false least ⟨s ++ '\n' :: (spaces m ++ r), l, k, i⟩ =
      some (s, true, ⟨r, l', m, i'⟩) :=
  plainFrom_read h hr hk hleast hm (by rw [List.length_append]; omega) Gap.none []

def isKeyChar (c : Char) : Bool := c.isLower || c == '_'

theorem ne_of_kind {p : Char → Bool} {c x : Char} (h : p c = true) (hx : p x = false) : c ≠ x := by
  rintro rfl
  rw [h] at hx
  cases hx

theorem forall_ne_of_kind {p : Char → Bool} {c : Char} {xs : List Char} (h : p c = true)
    (hp : xs.any p = false) : ∀ x ∈ xs, c ≠ x := by
  rintro x hx rfl
  exact List.any_eq_false.mp hp c hx h

theorem isWhite_of_kind {p : Char → Bool} {c : Char} (h : p c = true)
    (hp : [' ', '\t', '\n', '\r', '\u0085', '\u2028', '\u2029'].any p = false) :
    isWhite c = false := by
  have hne := forall_ne_of_kind h hp
  simp only [List.forall_mem_cons] at hne
  simp [isWhite, isBlank, isBreak, hne]

theorem isWhite_of_isKeyChar {c : Char} (h : isKeyChar c = true) : isWhite c = false :=
  isWhite_of_kind h (by decide)

theorem atMarker_key (hne : w ≠ []) (hw : ∀ c ∈ w, isKeyChar c = true) {x : Char}
    (hx : isKeyChar x = false) : (⟨w ++ r, l, k, i⟩ : Cursor).atMarker x = false := by
  obtain ⟨c, w, rfl⟩ := List.exists_cons_of_ne_nil hne
  have hc : (x == c) = false :=
    beq_false_of_ne (ne_of_kind (hw c List.mem_cons_self) hx).symm
  have hfirst : Cursor.startsWith ⟨c :: w ++ r, l, k, i⟩ [x, x, x] = false := by
    rw [Cursor.startsWith, List.cons_append, List.isPrefixOf_cons_cons, hc, Bool.false_and]
  rw [Cursor.atMarker, hfirst, Bool.and_false, Bool.false_and]

theorem readPlain_key (hne : w ≠ []) (hw : ∀ c ∈ w, isKeyChar c = true) (hr : whiteNext r = true) :
    readPlain false least ⟨w ++ ':' :: r, l, k, i⟩ =
      some (w, false, ⟨':' :: r, l, k + w.length, i + w.length⟩) := by
  have hcolon : ∀ u v, w = u ++ ':' :: v → whiteNext (v ++ ':' :: r) = false := fun u v huv =>
    absurd (hw ':' (by simp [huv])) (by decide)
  have hword := plainWord_run (l := l) (k := k) (i := i) (n := (w ++ ':' :: r).length + 1)
    (fun c hc => isWhite_of_isKeyChar (hw c hc)) hcolon (.inr ⟨r, rfl, hr⟩)
    (by rw [List.length_append]; omega) []
  have hsharp : (⟨w ++ ':' :: r, l, k, i⟩ : Cursor).at? '#' = false := by
    obtain ⟨c, w, rfl⟩ := List.exists_cons_of_ne_nil hne
    show (c == '#') = false
    exact beq_false_of_ne (ne_of_kind (hw c List.mem_cons_self) rfl)
  rw [readPlain, plainFrom, Cursor.atDocumentMark, atMarker_key hne hw rfl, atMarker_key hne hw rfl,
    hsharp, if_neg (by exact Bool.false_ne_true), hword]
  simp [bind, Option.bind, hne]
  rfl

theorem marksInside_append {a b : Char} {u v : List Char}
    (h : marksInside (u ++ a :: b :: v) = false) :
    (b == ':' && whiteNext v) = false ∧ (b == '#' && isWhite a) = false := by
  induction u with
  | nil =>
      rw [List.nil_append, marksInside, Bool.or_eq_false_iff, Bool.or_eq_false_iff] at h
      exact h.1
  | cons c u ih =>
      refine ih ?_
      obtain ⟨d, r, hd⟩ := List.exists_cons_of_ne_nil (l := u ++ a :: b :: v) (by simp)
      rw [List.cons_append, hd, marksInside, Bool.or_eq_false_iff] at h
      rw [hd]
      exact h.2

theorem marksStart_of_shape (h : (shape s).plain = true) : marksStart s = false := by
  cases s with
  | nil => rfl
  | cons c s =>
      simp only [shape, List.isEmpty_cons, Bool.false_eq_true, if_false, Bool.not_eq_true',
        Bool.or_eq_false_iff] at h
      exact h.1.2

theorem isPlain_of_shape (hs : s ≠ []) (h : (shape s).plain = true) : IsPlain s := by
  have hstart := marksStart_of_shape h
  have hempty : s.isEmpty = false := by simpa using hs
  rw [shape, hempty, if_neg Bool.false_ne_true] at h
  simp only [Bool.not_eq_true', Bool.or_eq_false_iff, List.any_eq_false,
    Bool.not_eq_true, Bool.not_eq_false] at h
  obtain ⟨⟨⟨⟨⟨⟨hfirst, hlast⟩, -⟩, hvisible, -⟩, hbreak⟩, -⟩, hinside⟩ := h
  have hwhite : ∀ c ∈ s, isWhite c = true → c = ' ' := by
    intro c hc hw
    simp only [isWhite, hbreak c hc, Bool.or_false, isBlank, Bool.or_eq_true, beq_iff_eq] at hw
    refine hw.resolve_right ?_
    rintro rfl
    cases hvisible _ hc
  refine ⟨hs, hvisible, hwhite, ?_, ?_, ?_, ?_, ?_⟩
  · intro c hc
    by_contra hw
    rw [Bool.not_eq_false] at hw
    rw [Option.mem_def.mp hc, hwhite c (List.mem_of_mem_head? hc) hw] at hfirst
    cases hfirst
  · intro hl
    rw [hl] at hlast
    cases hlast
  · intro hh
    obtain ⟨t, rfl⟩ := List.head?_eq_some_iff.mp hh
    cases hstart
  · rintro u v rfl
    rcases List.eq_nil_or_concat u with rfl | ⟨u, a, rfl⟩
    · rw [List.nil_append, marksStart, Bool.or_eq_false_iff, Bool.or_eq_false_iff,
        Bool.or_eq_false_iff] at hstart
      exact hstart.1.1.2
    · rw [List.concat_append] at hinside
      exact (marksInside_append hinside).1
  · rintro u v rfl
    cases (marksInside_append hinside).2

theorem isPlain_of_digits (hs : s ≠ []) (h : ∀ c ∈ s, c.isDigit = true) : IsPlain s := by
  have hne : ∀ c ∈ s, ∀ x, x.isDigit = false → c ≠ x := fun c hc x hx => ne_of_kind (h c hc) hx
  have hwhite : ∀ c ∈ s, isWhite c = false := fun c hc => isWhite_of_kind (h c hc) (by decide)
  refine ⟨hs, fun c hc => ?_, fun c hc hw => ?_, Text.ends_of_forall hwhite, fun hl => ?_, fun hh => ?_,
    fun u v huv => ?_, fun u v huv => ?_⟩
  · have hdigit : 48 ≤ c.toNat ∧ c.toNat ≤ 57 := by
      simpa [Char.isDigit, UInt32.le_iff_toNat_le] using h c hc
    simp only [isPlainlyVisible, Bool.or_eq_true, Bool.and_eq_true, decide_eq_true_eq]
    omega
  · rw [hwhite c hc] at hw
    cases hw
  · exact hne _ (List.mem_of_getLast? hl) ' ' rfl rfl
  · exact hne _ (List.mem_of_mem_head? hh) '#' rfl rfl
  · exact absurd rfl (hne ':' (by simp [huv]) ':' rfl)
  · exact hne '#' (by simp [huv]) '#' rfl rfl

theorem number?_toDigits (n : Nat) : number? 10 (Nat.toDigits 10 n) = some n := by
  have hdigit : ∀ c : Char, c.isDigit = true → digitValue 10 c = some (c.toNat - 48) := by
    intro c hc
    have hrange : '0' ≤ c ∧ c ≤ '9' := by
      simpa [Char.isDigit, Char.le_def, UInt32.le_iff_toNat_le] using hc
    have hvalue : c.toNat - 48 < 10 := by
      have hnine : c.toNat ≤ 57 := hrange.2
      omega
    rw [digitValue, hexValue, if_pos hrange]
    exact if_pos hvalue
  have hfold : ∀ (ds : List Char) (k : Nat), (∀ c ∈ ds, c.isDigit = true) →
      ds.foldlM (fun k x => (digitValue 10 x).map (k * 10 + ·)) k =
        some (ds.foldl (fun k c => k * 10 + (c.toNat - 48)) k) := by
    intro ds
    induction ds with
    | nil => exact fun _ _ => rfl
    | cons c ds ih =>
        intro k hds
        obtain ⟨hc, hds⟩ := List.forall_mem_cons.mp hds
        rw [List.foldlM_cons, hdigit c hc]
        exact ih _ hds
  have hne : (Nat.toDigits 10 n).isEmpty = false :=
    List.isEmpty_eq_false_iff.mpr Nat.toDigits_ne_nil
  rw [number?, hne, if_neg Bool.false_ne_true, hfold _ _ (Text.toDigits_isDigit n), Text.foldl_digits,
    Nat.ofDigitChars_ten_toDigits]

theorem exists_toDigits (n : Nat) : ∃ c ds, Nat.toDigits 10 n = c :: ds ∧ c.isDigit = true ∧
    (c = '0' → ds = []) := by
  obtain ⟨c, ds, hcs⟩ := List.exists_cons_of_ne_nil (Nat.toDigits_ne_nil (b := 10) (n := n))
  refine ⟨c, ds, hcs, Text.toDigits_isDigit n c (by simp [hcs]), ?_⟩
  rintro rfl
  rcases Nat.eq_zero_or_pos n with rfl | hn
  · cases hcs
    rfl
  · exact absurd (by rw [hcs]; rfl) (Text.head?_toDigits hn.ne')

theorem natural?_toDigits (n : Nat) : natural? (Nat.toDigits 10 n) = some n := by
  have hnumber := number?_toDigits n
  obtain ⟨c, ds, hcs, hc, hzero⟩ := exists_toDigits n
  rw [hcs] at hnumber ⊢
  have hsign : ∀ signs : List Char, signs.any Char.isDigit = false →
      dropSign signs (c :: ds) = c :: ds := fun signs hsigns =>
    if_neg fun hmem => forall_ne_of_kind hc hsigns c (List.contains_iff_mem.mp hmem) rfl
  have hidle : hasIdleZero (c :: ds) = false := by
    rw [hasIdleZero, hsign _ (by decide)]
    split
    · next heq =>
        cases heq
        cases hzero rfl
    · rfl
  have hradix : ∀ x radix, '0' = c → [x] <+: ds → number? radix ds.tail = none := by
    rintro x radix rfl h
    rw [hzero rfl] at h
    cases List.prefix_nil.mp h
  have hradixes : radixes.findSome? (fun r => if r.1.isPrefixOf (c :: ds) then
      number? r.2 ((c :: ds).drop 2) else none) = none := by
    simpa [radixes] using ⟨hradix 'x' 16, hradix 'o' 8, hradix 'b' 2⟩
  rw [natural?, hidle, hsign _ (by decide), if_neg Bool.false_ne_true, magnitude?, hradixes]
  exact hnumber

end SourceAtlas.Yaml
