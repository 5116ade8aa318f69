import Mathlib.Data.List.Basic
import SourceAtlas.Proofs.Text.Digits
import SourceAtlas.Proofs.Yaml.Block
import SourceAtlas.Proofs.Yaml.Plain
import SourceAtlas.Proofs.Yaml.Quoted
import SourceAtlas.Yaml.Token

namespace SourceAtlas.Yaml

open Text (Ends)

variable {r w t : List Char} {l k i n m a : Nat}

theorem linearise_append (filled : List (Nat × Bool)) (ps qs : List Piece) :
    linearise filled (ps ++ qs) = linearise filled ps ++ linearise filled qs :=
  List.flatMap_append

theorem linearise_fill {filled : List (Nat × Bool)} {ps : List Piece} {slot : Nat} (b : Bool)
    (h : Piece.slot slot ∉ ps) : linearise ((slot, b) :: filled) ps = linearise filled ps := by
  refine List.flatMap_congr fun p hp => ?_
  cases p with
  | token x => rfl
  | slot q =>
      have hne : (q == slot) = false := beq_false_of_ne fun hq => h (hq ▸ hp)
      simp only [List.lookup_cons, hne]

namespace Scanner

structure Stands (s : Scanner) (rest : List Char) (column : Nat) (indents : List Nat) (allowed : Bool)
    (found : List Token) : Prop where
  rest : s.at_.rest = rest
  column : s.at_.column = column
  indents : s.indents = indents
  allowed : s.keyAllowed = allowed
  keys : s.keys = [none]
  found : linearise s.filled s.pieces.reverse = found
  slots : ∀ p, Piece.slot p ∈ s.pieces → p < s.slots

def Leads (s s' : Scanner) : Prop :=
  ∃ j, j + s'.at_.rest.length ≤ s.at_.rest.length ∧ ∀ n, s.run (n + j) = s'.run n

theorem Leads.trans {s s' s'' : Scanner} (h : Leads s s') (h' : Leads s' s'') : Leads s s'' := by
  obtain ⟨j, hj, hrun⟩ := h
  obtain ⟨j', hj', hrun'⟩ := h'
  refine ⟨j' + j, by omega, fun n => ?_⟩
  rw [← Nat.add_assoc, hrun, hrun']

def IsTokenStart (r : List Char) : Prop :=
  ∀ c ∈ r.head?, isWhite c = false ∧ c ≠ '#' ∧ isByteOrderMark c = false

theorem isTokenStart_nil : IsTokenStart [] := nofun

theorem IsTokenStart.ends (h : IsTokenStart r) : Ends isWhite r := fun c hc => (h c hc).1

theorem isTokenStart_cons {c : Char} (h : isWhite c = false ∧ c ≠ '#' ∧ isByteOrderMark c = false)
    (r : List Char) : IsTokenStart (c :: r) := by
  rintro _ ⟨⟩
  exact h

variable {ps : List Piece} {filled : List (Nat × Bool)} {slots : Nat} {indents : List Nat}
  {allowed : Bool}

theorem skipToToken_spaces (h : IsTokenStart r) (key : Option KeyStart) :
    skipToToken (n + 1) ⟨⟨spaces m ++ r, l, k, i⟩, ps, filled, slots, indents, [key], allowed⟩ =
      ⟨⟨r, l, k + m, i + m⟩, ps, filled, slots, indents, [key], allowed⟩ := by
  have hmark : (((⟨spaces m ++ r, l, k, i⟩ : Cursor).peek.map isByteOrderMark).getD false) = false := by
    cases m with
    | zero =>
        cases r with
        | nil => rfl
        | cons c r => exact (h c rfl).2.2
    | succ m => rfl
  have hskip : Cursor.skip ⟨spaces m ++ r, l, k, i⟩ (fun x => x == ' ' || !allowed && x == '\t') =
      ⟨r, l, k + m, i + m⟩ := by
    have hw : ∀ c ∈ spaces m, (c == ' ' || !allowed && c == '\t') = true := fun c hc => by
      simp [eq_of_mem_spaces hc]
    have hr : Ends (fun c => c == ' ' || !allowed && c == '\t') r := fun c hc => by
      have := (h c hc).1
      simp only [isWhite, isBlank, Bool.or_eq_false_iff] at this
      simp [this.1.1, this.1.2]
    have := Cursor.skip_run (l := l) (k := k) (i := i) hw hr
    rwa [length_spaces] at this
  have hcomment : skipComment ⟨r, l, k + m, i + m⟩ = ⟨r, l, k + m, i + m⟩ := by
    cases r with
    | nil => rfl
    | cons c r =>
        rw [skipComment, Cursor.at?_cons, beq_false_of_ne (h c rfl).2.1]
        rfl
  rw [skipToToken]
  simp [hmark, hskip, hcomment, inFlow, Cursor.atBreak_eq_false h.ends, moveTo]

theorem skipToToken_line (h : IsTokenStart r) :
    skipToToken (n + 2) ⟨⟨'\n' :: (spaces m ++ r), l, k, i⟩, ps, filled, slots, indents, [none],
        allowed⟩ =
      ⟨⟨r, l + 1, m, i + 1 + m⟩, ps, filled, slots, indents, [none], true⟩ := by
  have hrest : skipToToken (n + 1) ⟨⟨spaces m ++ r, l + 1, 0, i + 1⟩, ps, filled, slots, indents, [none],
      true⟩ = ⟨⟨r, l + 1, 0 + m, i + 1 + m⟩, ps, filled, slots, indents, [none], true⟩ :=
    skipToToken_spaces h none
  rw [Nat.zero_add] at hrest
  have hskip : Cursor.skip ⟨'\n' :: (spaces m ++ r), l, k, i⟩
      (fun x => x == ' ' || !allowed && x == '\t') = ⟨'\n' :: (spaces m ++ r), l, k, i⟩ :=
    Cursor.skip_run (w := []) nofun
      (Ends.cons (p := fun x => x == ' ' || !allowed && x == '\t') (by simp) _)
  have hcomment : skipComment ⟨'\n' :: (spaces m ++ r), l, k, i⟩ =
      ⟨'\n' :: (spaces m ++ r), l, k, i⟩ := rfl
  have hmark : isByteOrderMark '\n' = false := rfl
  rw [skipToToken]
  simp only [Cursor.peek_cons, Option.map_some, Option.getD_some, hmark, Bool.and_false,
    Bool.false_eq_true, if_false, inFlow, List.length_cons, List.length_nil, Nat.zero_add,
    Nat.lt_irrefl, decide_false, Bool.false_or, hskip, hcomment]
  exact hrest

theorem leads_of_skip {s s' : Scanner} (h : s.skipToToken (s.at_.rest.length + 1) = s')
    (h' : s'.skipToToken (s'.at_.rest.length + 1) = s')
    (hlength : s'.at_.rest.length ≤ s.at_.rest.length) : Leads s s' := by
  refine ⟨0, by omega, fun n => ?_⟩
  cases n with
  | zero => rfl
  | succ n => rw [Nat.add_zero, run, run, h, h']

theorem leads_of_fetch {s s' : Scanner} (hskip : s.skipToToken (s.at_.rest.length + 1) = s)
    (hstale : s.dropStale = some s) (hunroll : s.unroll (some s.column) = s)
    (hfetch : s.fetch = some s') (hlength : s'.at_.rest.length < s.at_.rest.length) : Leads s s' := by
  have hend : s.at_.atEnd = false := by
    rw [Cursor.atEnd, List.isEmpty_eq_false_iff]
    exact List.length_pos_iff.mp (by omega)
  refine ⟨1, by omega, fun n => ?_⟩
  rw [run, hskip]
  simp [bind, Option.bind, hstale, hunroll, hend, hfetch]

def Fits (indents : List Nat) (column : Nat) : Prop := ∀ a ∈ indents.head?, a ≤ column

theorem fits_nil (column : Nat) : Fits [] column := nofun

theorem closeBlocks_eq (h : Fits indents k) : closeBlocks (some k) indents ps = (indents, ps) := by
  cases indents with
  | nil => rfl
  | cons a indents =>
      have : ¬ k < a := Nat.not_lt.mpr (h a rfl)
      simp [closeBlocks, this]

namespace Stands

variable {s : Scanner} {ts : List Token}

theorem skip (h : s.Stands r k indents allowed ts) (hr : IsTokenStart r) :
    s.skipToToken (s.at_.rest.length + 1) = s := by
  obtain ⟨⟨rest, l, k, i⟩, ps, filled, slots, indents, keys, allowed⟩ := s
  obtain ⟨rfl, rfl, rfl, rfl, rfl, -, -⟩ := h
  exact skipToToken_spaces (m := 0) hr none

theorem stale (h : s.Stands r k indents allowed ts) : s.dropStale = some s := by
  obtain ⟨⟨rest, l, k, i⟩, ps, filled, slots, indents, keys, allowed⟩ := s
  obtain ⟨rfl, rfl, rfl, rfl, rfl, -, -⟩ := h
  rfl

theorem settled (h : s.Stands r k indents allowed ts) (hk : Fits indents k) :
    s.unroll (some s.column) = s := by
  obtain ⟨⟨rest, l, k, i⟩, ps, filled, slots, indents, keys, allowed⟩ := s
  obtain ⟨rfl, rfl, rfl, rfl, rfl, -, -⟩ := h
  have hclose : closeBlocks (some k) indents ps = (indents, ps) := closeBlocks_eq hk
  simp [unroll, inFlow, Scanner.column, hclose]

theorem line (h : s.Stands ('\n' :: (spaces m ++ r)) k indents allowed ts) (hr : IsTokenStart r) :
    ∃ s', Leads s s' ∧ s'.Stands r m indents true ts := by
  obtain ⟨⟨rest, l, k, i⟩, ps, filled, slots, indents, keys, allowed⟩ := s
  obtain ⟨rfl, rfl, rfl, rfl, rfl, hfound, hslots⟩ := h
  have hline : skipToToken ((spaces m ++ r).length + 2) ⟨⟨'\n' :: (spaces m ++ r), l, k, i⟩, ps, filled,
      slots, indents, [none], allowed⟩ =
        ⟨⟨r, l + 1, m, i + 1 + m⟩, ps, filled, slots, indents, [none], true⟩ := skipToToken_line hr
  have hstands : Stands ⟨⟨r, l + 1, m, i + 1 + m⟩, ps, filled, slots, indents, [none], true⟩
      r m indents true ts := ⟨rfl, rfl, rfl, rfl, rfl, hfound, hslots⟩
  refine ⟨_, leads_of_skip hline (hstands.skip hr) ?_, hstands⟩
  simp only [List.length_cons, List.length_append]
  omega

theorem blank (h : s.Stands (spaces m ++ r) k indents allowed ts) (hr : IsTokenStart r) :
    ∃ s', Leads s s' ∧ s'.Stands r (k + m) indents allowed ts := by
  obtain ⟨⟨rest, l, k, i⟩, ps, filled, slots, indents, keys, allowed⟩ := s
  obtain ⟨rfl, rfl, rfl, rfl, rfl, hfound, hslots⟩ := h
  have hskip : skipToToken ((spaces m ++ r).length + 1) ⟨⟨spaces m ++ r, l, k, i⟩, ps, filled, slots,
      indents, [none], allowed⟩ =
        ⟨⟨r, l, k + m, i + m⟩, ps, filled, slots, indents, [none], allowed⟩ := skipToToken_spaces hr none
  have hstands : Stands ⟨⟨r, l, k + m, i + m⟩, ps, filled, slots, indents, [none], allowed⟩ r (k + m)
      indents allowed ts := ⟨rfl, rfl, rfl, rfl, rfl, hfound, hslots⟩
  refine ⟨_, leads_of_skip hskip (hstands.skip hr) ?_, hstands⟩
  simp only [List.length_append]
  omega

end Stands

theorem isTokenStart_plain (h : IsPlain t) (r : List Char) : IsTokenStart (t ++ r) := by
  obtain ⟨x, t, rfl⟩ := List.exists_cons_of_ne_nil h.ne_nil
  intro c hc
  cases hc
  refine ⟨h.start x rfl, ?_, ?_⟩
  · rintro rfl
    exact h.unmarked rfl
  · rw [isByteOrderMark, beq_eq_false_iff_ne]
    intro hmark
    have hvisible := h.visible x List.mem_cons_self
    rw [← Char.ofNat_toNat x, hmark] at hvisible
    cases hvisible

def StartsPlain (r : List Char) : Prop :=
  ∃ x u, r = x :: u ∧ startMarks.contains x = false ∧ isWhite x = false ∧
    ((x == '-' || x == '?' || x == ':') && whiteNext u) = false

theorem isPlainStart_of {x : Char} (hmark : startMarks.contains x = false) (hwhite : isWhite x = false)
    (hnext : ((x == '-' || x == '?' || x == ':') && whiteNext r) = false) :
    isPlainStart false ⟨x :: r, l, k, i⟩ = true := by
  have hmarks : ",[]\x7b\x7d#&*!|>'\"%@`".toList.all startMarks.contains = true := by decide
  have hnone : ",[]\x7b\x7d#&*!|>'\"%@`".toList.contains x = false := by
    by_contra hx
    rw [Bool.not_eq_false, List.contains_iff_mem] at hx
    rw [List.all_eq_true.mp hmarks x hx] at hmark
    cases hmark
  simp only [isPlainStart, Cursor.peek_cons, Cursor.whiteAt_one_cons, Cursor.whiteAt_zero_cons, hwhite,
    hnone]
  by_cases hdash : x = '-'
  · subst hdash
    cases r with
    | nil => cases hnext
    | cons y r =>
        have hblank : isBlank y = false := (Bool.or_eq_false_iff.mp hnext).1
        simp [Cursor.peekAt, hblank]
  · have hdash' : (x == '-') = false := beq_false_of_ne hdash
    rw [hdash', Bool.false_or] at hnext
    rw [hdash', if_neg Bool.false_ne_true]
    split
    · next h =>
        rw [h, Bool.true_and] at hnext
        rw [hnext]
        rfl
    · rfl

theorem fetch_plain (h : StartsPlain r) (hdash : (⟨r, l, k, i⟩ : Cursor).atMarker '-' = false)
    (hdot : (⟨r, l, k, i⟩ : Cursor).atMarker '.' = false) :
    fetch ⟨⟨r, l, k, i⟩, ps, filled, slots, indents, [none], allowed⟩ = (do
      let s ← saveKey ⟨⟨r, l, k, i⟩, ps, filled, slots, indents, [none], allowed⟩
      let least := match s.indent with
        | some i => i + 1
        | none => 0
      let (text, broken, c) ← readPlain s.inFlow least ⟨r, l, k, i⟩
      return (s.allowKey broken).fetchScalar text .plain c) := by
  obtain ⟨x, u, rfl, hmark, hwhite, hnext⟩ := h
  have hne : ∀ {y}, startMarks.contains y = true → ¬ (x == y) = true := by
    intro y hy hxy
    rw [eq_of_beq hxy, hy] at hmark
    cases hmark
  have hspecial : ∀ {y}, y = '-' ∨ y = '?' ∨ y = ':' → ¬ (x == y && whiteNext u) = true := by
    intro y hy hxy
    rw [Bool.and_eq_true, beq_iff_eq] at hxy
    rw [hxy.1, hxy.2] at hnext
    rcases hy with rfl | rfl | rfl <;> cases hnext
  have hpercent : ¬ (k == 0 && x == '%') = true := fun h =>
    hne (y := '%') rfl (Bool.and_eq_true_iff.mp h).2
  have hblock : ¬ ((x == '|' || x == '>') && true) = true := by
    rw [Bool.and_true, Bool.or_eq_true, not_or]
    exact ⟨hne rfl, hne rfl⟩
  have hquote : ¬ (x == '\'' || x == '"') = true := by
    rw [Bool.or_eq_true, not_or]
    exact ⟨hne rfl, hne rfl⟩
  have hstart : isPlainStart false ⟨x :: u, l, k, i⟩ = true := isPlainStart_of hmark hwhite hnext
  rw [fetch]
  dsimp only
  rw [Cursor.peek_cons, Option.bind_eq_bind, Option.bind_some, if_neg hpercent, hdash,
    if_neg Bool.false_ne_true, hdot, if_neg Bool.false_ne_true, if_neg (hne rfl), if_neg (hne rfl),
    if_neg (hne rfl), if_neg (hne rfl), if_neg (hne rfl), Cursor.whiteAt_one_cons,
    if_neg (hspecial (.inl rfl)), if_neg (by exact hspecial (.inr (.inl rfl))),
    if_neg (by exact hspecial (.inr (.inr rfl))), if_neg (hne rfl), if_neg (hne rfl),
    if_neg (hne rfl), if_neg (by exact hblock), if_neg hquote]
  exact if_pos (by exact hstart)

structure IsName (w : List Char) : Prop where
  ne_nil : w ≠ []
  chars : ∀ c ∈ w, isKeyChar c = true
  length : w.length ≤ maxKeyLength

instance (w : List Char) : Decidable (IsName w) :=
  decidable_of_iff (w ≠ [] ∧ w.all isKeyChar = true ∧ w.length ≤ maxKeyLength)
    ⟨fun h => ⟨h.1, List.all_eq_true.mp h.2.1, h.2.2⟩,
      fun h => ⟨h.ne_nil, List.all_eq_true.mpr h.chars, h.length⟩⟩

def isFirst (indents : List Nat) (column : Nat) : Bool :=
  match indents.head? with
  | some a => decide (a < column)
  | none => true

def opened (indents : List Nat) (column : Nat) : List Nat :=
  if isFirst indents column then column :: indents else indents

def opening (indents : List Nat) (column : Nat) : List Token :=
  if isFirst indents column then [.blockMappingStart] else []

theorem isFirst_self (column : Nat) (outer : List Nat) : isFirst (column :: outer) column = false :=
  decide_eq_false (Nat.lt_irrefl column)

theorem opening_self (column : Nat) (outer : List Nat) : opening (column :: outer) column = [] := by
  rw [opening, isFirst_self]
  rfl

theorem exists_outer (hfits : Fits indents k) : ∃ outer, opened indents k = k :: outer := by
  cases indents with
  | nil => exact ⟨[], rfl⟩
  | cons a outer =>
      rcases Nat.lt_or_eq_of_le (hfits a rfl) with hlt | rfl
      · exact ⟨a :: outer, if_pos (decide_eq_true hlt)⟩
      · exact ⟨outer, by rw [opened, isFirst_self]; rfl⟩

theorem startsPlain_of_kind {p : Char → Bool} (hne : w ≠ []) (hw : ∀ c ∈ w, p c = true)
    (hwhite : ∀ c ∈ w, isWhite c = false) (hp : ('-' :: '?' :: ':' :: startMarks).any p = false)
    (r : List Char) : StartsPlain (w ++ r) := by
  obtain ⟨x, w, rfl⟩ := List.exists_cons_of_ne_nil hne
  have hx := hw x List.mem_cons_self
  have hne : ∀ y ∈ '-' :: '?' :: ':' :: startMarks, (x == y) = false :=
    fun y hy => beq_false_of_ne (forall_ne_of_kind hx hp y hy)
  simp only [List.forall_mem_cons] at hne
  obtain ⟨hdash, hquestion, hcolon, hmarks⟩ := hne
  refine ⟨x, w ++ r, rfl, ?_, hwhite x List.mem_cons_self, ?_⟩
  · by_contra hmark
    rw [Bool.not_eq_false, List.contains_iff_mem] at hmark
    have := hmarks x hmark
    simp at this
  · rw [hdash, hquestion, hcolon]
    rfl

theorem startsPlain_key (hw : IsName w) (r : List Char) : StartsPlain (w ++ r) :=
  startsPlain_of_kind hw.ne_nil hw.chars (fun c hc => isWhite_of_isKeyChar (hw.chars c hc))
    (by decide) r

theorem fetch_key (hw : IsName w) (hr : whiteNext r = true) :
    fetch ⟨⟨w ++ ':' :: r, l, k, i⟩, ps, filled, slots, indents, [none], true⟩ =
      some ⟨⟨':' :: r, l, k + w.length, i + w.length⟩,
        .token (.scalar w .plain) :: .slot slots :: ps, filled, slots + 1, indents,
        [some ⟨slots, indents.head? == some k, l, k, i⟩], false⟩ := by
  rw [fetch_plain (startsPlain_key hw _) (atMarker_key hw.ne_nil hw.chars rfl)
    (atMarker_key hw.ne_nil hw.chars rfl)]
  have hread : ∀ least, readPlain false least ⟨w ++ ':' :: r, l, k, i⟩ = _ := fun least =>
    readPlain_key hw.ne_nil hw.chars hr
  simp [saveKey, dropKey, inFlow, Scanner.column, indent, bind, Option.bind, hread, allowKey,
    fetchScalar, push, moveTo]

theorem fetch_colon (hr : whiteNext r = true) (key : KeyStart) :
    fetch ⟨⟨':' :: r, l, k + 1, i⟩, ps, filled, slots, indents, [some key], false⟩ =
      some ⟨⟨r, l, k + 2, i + 1⟩, .token .value :: ps, (key.slot, isFirst indents key.column) :: filled,
        slots, opened indents key.column, [none], false⟩ := by
  rw [fetch]
  dsimp only
  rw [Cursor.peek_cons, Option.bind_eq_bind, Option.bind_some, Cursor.whiteAt_one_cons, hr]
  rfl

theorem dropStale_key (hlength : w.length ≤ maxKeyLength) (required : Bool) (slot : Nat) :
    dropStale ⟨⟨':' :: r, l, k + w.length, i + w.length⟩, ps, filled, slots, indents,
        [some ⟨slot, required, l, k, i⟩], allowed⟩ =
      some ⟨⟨':' :: r, l, k + w.length, i + w.length⟩, ps, filled, slots, indents,
        [some ⟨slot, required, l, k, i⟩], allowed⟩ := by
  have hfresh : isStale ⟨':' :: r, l, k + w.length, i + w.length⟩ ⟨slot, required, l, k, i⟩ =
      false := by
    simp only [isStale, Bool.or_eq_false_iff, decide_eq_false_iff_not]
    omega
  simp [dropStale, bind, Option.bind, hfresh]

def keyTokens (indents : List Nat) (column : Nat) (name : List Char) : List Token :=
  opening indents column ++ [.key, .scalar name .plain, .value]

theorem isTokenStart_key (hw : IsName w) (r : List Char) : IsTokenStart (w ++ r) := by
  obtain ⟨x, w, rfl⟩ := List.exists_cons_of_ne_nil hw.ne_nil
  have hx := hw.chars x List.mem_cons_self
  refine isTokenStart_cons ⟨isWhite_of_isKeyChar hx, ne_of_kind hx rfl, ?_⟩ _
  rw [isByteOrderMark, beq_eq_false_iff_ne]
  intro hmark
  rw [← Char.ofNat_toNat x, hmark] at hx
  cases hx

theorem unroll_eq (hfits : Fits indents k) (key : Option KeyStart) :
    unroll ⟨⟨r, l, k, i⟩, ps, filled, slots, indents, [key], allowed⟩ (some k) =
      ⟨⟨r, l, k, i⟩, ps, filled, slots, indents, [key], allowed⟩ := by
  have hclose : closeBlocks (some k) indents ps = (indents, ps) := closeBlocks_eq hfits
  simp [unroll, inFlow, hclose]

theorem Stands.key {s : Scanner} {ts : List Token} (h : s.Stands (w ++ ':' :: r) k indents true ts)
    (hw : IsName w) (hr : whiteNext r = true) (hfits : Fits indents k) :
    ∃ s', Leads s s' ∧
      s'.Stands r (k + w.length + 1) (opened indents k) false (ts ++ keyTokens indents k w) := by
  have hskip := h.skip (isTokenStart_key hw _)
  have hstale := h.stale
  have hsettled := h.settled hfits
  obtain ⟨⟨rest, l, k, i⟩, ps, filled, slots, indents, keys, allowed⟩ := s
  obtain ⟨rfl, rfl, rfl, rfl, rfl, rfl, hslots⟩ := h
  have hpos := List.length_pos_iff.mpr hw.ne_nil
  obtain ⟨j, hj⟩ := Nat.exists_eq_add_one_of_ne_zero (n := k + w.length) (by omega)
  have hname := leads_of_fetch hskip hstale hsettled (fetch_key hw hr)
    (by simp only [List.length_append, List.length_cons]; omega)
  have hcolon : fetch ⟨⟨':' :: r, l, j + 1, i + w.length⟩, .token (.scalar w .plain) :: .slot slots :: ps,
      filled, slots + 1, indents, [some ⟨slots, indents.head? == some k, l, k, i⟩], false⟩ = _ :=
    fetch_colon hr _
  rw [← hj] at hcolon
  have hvalue := leads_of_fetch
    (skipToToken_spaces (m := 0) (isTokenStart_cons (by decide) r) _)
    (dropStale_key hw.length _ _) (unroll_eq (fun a ha => Nat.le_add_right_of_le (hfits a ha)) _) hcolon
    (Nat.lt_succ_self _)
  refine ⟨_, hname.trans hvalue, rfl, by dsimp only; omega, rfl, rfl, rfl, ?_, ?_⟩
  · have hnew : Piece.slot slots ∉ ps.reverse := fun hm =>
      Nat.lt_irrefl _ (hslots _ (List.mem_reverse.mp hm))
    have hslot : linearise ((slots, isFirst indents k) :: filled) [.slot slots] =
        opening indents k ++ [.key] := by
      cases hfirst : isFirst indents k <;> simp [linearise, opening, hfirst]
    rw [List.reverse_cons, List.reverse_cons, List.reverse_cons, linearise_append, linearise_append,
      linearise_append, linearise_fill _ hnew, hslot, keyTokens, List.append_assoc, List.append_assoc,
      List.append_assoc]
    rfl
  · intro p hp
    rcases hp with _ | ⟨_, _ | ⟨_, _ | ⟨_, hp⟩⟩⟩
    · exact Nat.lt_succ_self _
    · exact Nat.lt_succ_of_lt (hslots p hp)

def Suits (t : List Char) : ScalarStyle → Prop
  | .literal => (shape t).block = true
  | .plain => t ≠ [] ∧ (shape t).plain = true
  | .singleQuoted => '\n' ∉ t ∧ (shape t).single = true
  | .doubleQuoted => True
  | .folded => False

theorem suits_textStyle (t : List Char) : Suits t (textStyle t) := by
  unfold textStyle
  dsimp only
  split
  · split
    · assumption
    · trivial
  · next hline =>
      split
      · next hplain =>
          rw [Bool.and_eq_true] at hplain
          refine ⟨?_, hplain.1⟩
          rintro rfl
          cases hplain.2
      · split
        · next hsingle => exact ⟨fun h => hline (List.contains_iff_mem.mpr h), hsingle⟩
        · trivial

theorem startsPlain_of_shape (hne : t ≠ []) (h : (shape t).plain = true) (r : List Char) :
    StartsPlain (t ++ '\n' :: r) := by
  obtain ⟨x, t, rfl⟩ := List.exists_cons_of_ne_nil hne
  have hwhite := (isPlain_of_shape hne h).start x rfl
  have hnext : whiteNext (t ++ '\n' :: r) = whiteNext t := by cases t <;> rfl
  have hstart := marksStart_of_shape h
  simp only [marksStart, Bool.or_eq_false_iff] at hstart
  refine ⟨x, t ++ '\n' :: r, rfl, hstart.1.1.1, hwhite, ?_⟩
  rw [hnext, Bool.or_comm (x == '-') (x == '?'), Bool.or_right_comm]
  exact hstart.1.1.2

theorem isTokenStart_writeText (indent : Nat) (t r : List Char) :
    IsTokenStart (writeText indent t ++ r) := by
  have hsuits := suits_textStyle t
  rw [writeText]
  cases hstyle : textStyle t with
  | plain =>
      rw [hstyle] at hsuits
      rw [List.append_assoc]
      exact isTokenStart_plain (isPlain_of_shape hsuits.1 hsuits.2) _
  | singleQuoted => exact isTokenStart_cons (by decide) _
  | doubleQuoted => exact isTokenStart_cons (by decide) _
  | literal => exact isTokenStart_cons (by decide) _
  | folded =>
      rw [hstyle] at hsuits
      exact hsuits.elim

theorem isPlain_toDigits (n : Nat) : IsPlain (Nat.toDigits 10 n) :=
  isPlain_of_digits Nat.toDigits_ne_nil (Text.toDigits_isDigit n)

theorem fetch_quoted (single : Bool) :
    fetch ⟨⟨closingQuote single :: r, l, k + 1, i⟩, ps, filled, slots, indents, [none], false⟩ =
      (readQuoted single ⟨r, l, k + 2, i + 1⟩).bind fun x =>
        some ⟨x.2, .token (.scalar x.1 (if single then .singleQuoted else .doubleQuoted)) :: ps, filled,
          slots, indents, [none], false⟩ := by
  cases single <;> rfl

theorem fetch_literal :
    fetch ⟨⟨'|' :: r, l, k + 1, i⟩, ps, filled, slots, indents, [none], false⟩ =
      (readBlock true indents.head? ⟨r, l, k + 2, i + 1⟩).bind fun x =>
        some ⟨x.2, .token (.scalar x.1 .literal) :: ps, filled, slots, indents, [none], true⟩ :=
  rfl

theorem fetch_line (h : StartsPlain r) :
    fetch ⟨⟨r, l, k + 1, i⟩, ps, filled, slots, a :: indents, [none], false⟩ =
      (readPlain false (a + 1) ⟨r, l, k + 1, i⟩).bind fun x =>
        some ⟨x.2.2, .token (.scalar x.1 .plain) :: ps, filled, slots, a :: indents, [none], x.2.1⟩ :=
  fetch_plain h rfl rfl

namespace Stands

variable {s : Scanner} {ts : List Token}

theorem token (h : s.Stands r k indents allowed ts) (hstart : IsTokenStart r) (hfits : Fits indents k)
    {x : Token} {c : Cursor} {b : Bool} (hfetch : s.fetch = some
      { s with at_ := c, pieces := .token x :: s.pieces, keyAllowed := b })
    (hlength : c.rest.length < r.length) :
    ∃ s', Leads s s' ∧ s'.Stands c.rest c.column indents b (ts ++ [x]) := by
  refine ⟨_, leads_of_fetch (h.skip hstart) h.stale (h.settled hfits) hfetch (by rwa [h.rest]), rfl, rfl,
    h.indents, rfl, h.keys, ?_, ?_⟩
  · rw [List.reverse_cons, linearise_append, h.found]
    rfl
  · intro p hp
    exact h.slots p ((List.mem_cons.mp hp).resolve_left nofun)

theorem quoted {single : Bool} {u : List Char} {k : Nat}
    (h : s.Stands (closingQuote single :: u) (k + 1) indents false ts) (hfits : Fits indents (k + 1))
    (hread : ∀ l i, ∃ c, c.rest = '\n' :: (spaces m ++ r) ∧
      readQuoted single ⟨u, l, k + 2, i⟩ = some (t, c))
    (hlength : ('\n' :: (spaces m ++ r)).length ≤ u.length) (hr : IsTokenStart r) :
    ∃ s', Leads s s' ∧ s'.Stands r m indents true
      (ts ++ [.scalar t (if single then .singleQuoted else .doubleQuoted)]) := by
  obtain ⟨⟨rest, l, k', i⟩, ps, filled, slots, indents, keys, allowed⟩ := s
  obtain ⟨c, hc, hread⟩ := hread l (i + 1)
  have hstart : IsTokenStart (closingQuote single :: u) :=
    isTokenStart_cons (by cases single <;> decide) u
  have hscanner := h
  obtain ⟨rfl, rfl, rfl, rfl, rfl, -, -⟩ := h
  obtain ⟨s₁, h₁, hs₁⟩ := hscanner.token hstart hfits (by rw [fetch_quoted, hread]; rfl)
    (by rw [hc]; exact Nat.lt_succ_of_le hlength)
  rw [hc] at hs₁
  obtain ⟨s₂, h₂, hs₂⟩ := hs₁.line hr
  exact ⟨s₂, h₁.trans h₂, hs₂⟩

theorem literal {u : List Char} {k : Nat} (h : s.Stands ('|' :: u) (k + 1) (a :: indents) false ts)
    (hfits : a ≤ k + 1)
    (hread : ∀ l i, ∃ l' i', readBlock true (some a) ⟨u, l, k + 2, i⟩ = some (t, ⟨r, l', m, i'⟩))
    (hlength : r.length ≤ u.length) :
    ∃ s', Leads s s' ∧ s'.Stands r m (a :: indents) true (ts ++ [.scalar t .literal]) := by
  obtain ⟨⟨rest, l, k', i⟩, ps, filled, slots, indents', keys, allowed⟩ := s
  obtain ⟨l', i', hread⟩ := hread l (i + 1)
  have hscanner := h
  obtain ⟨rfl, rfl, rfl, rfl, rfl, -, -⟩ := h
  exact hscanner.token (c := ⟨r, l', m, i'⟩) (isTokenStart_cons (by decide) u)
    (by rintro _ ⟨⟩; exact hfits) (by rw [fetch_literal, List.head?_cons, hread]; rfl) (Nat.lt_succ_of_le hlength)

theorem plain {k : Nat} (h : s.Stands (t ++ '\n' :: (spaces m ++ r)) (k + 1) (a :: indents) false ts)
    (hfits : a ≤ k) (hm : m ≤ a) (ht : IsPlain t) (hstart : StartsPlain (t ++ '\n' :: (spaces m ++ r)))
    (hr : Ends isWhite r) :
    ∃ s', Leads s s' ∧ s'.Stands r m (a :: indents) true (ts ++ [.scalar t .plain]) := by
  obtain ⟨⟨rest, l, k', i⟩, ps, filled, slots, indents', keys, allowed⟩ := s
  obtain ⟨l', i', hread⟩ := readPlain_value (l := l) (k := k + 1) (i := i) ht hr
    (Nat.succ_pos k) (Nat.succ_le_succ hfits) (Nat.lt_succ_of_le hm)
  have hscanner := h
  obtain ⟨rfl, rfl, rfl, rfl, rfl, -, -⟩ := h
  exact hscanner.token (c := ⟨r, l', m, i'⟩) (isTokenStart_plain ht _)
    (by rintro _ ⟨⟩; exact Nat.le_succ_of_le hfits) (by rw [fetch_line hstart, hread]; rfl)
    (by simp only [List.length_append, List.length_cons]; omega)

theorem text {k : Nat} (h : s.Stands (writeText (a + 2) t ++ (spaces m ++ r)) (k + 1) (a :: indents)
      false ts) (hfits : a ≤ k) (hm : m ≤ a) (hr : IsTokenStart r) :
    ∃ s', Leads s s' ∧ s'.Stands r m (a :: indents) true (ts ++ [.scalar t (textStyle t)]) := by
  have hsuits := suits_textStyle t
  rw [writeText] at h
  cases hstyle : textStyle t with
  | plain =>
      rw [hstyle] at h hsuits
      have hline : t ++ ['\n'] ++ (spaces m ++ r) = t ++ '\n' :: (spaces m ++ r) := by simp
      exact (hline ▸ h).plain hfits hm (isPlain_of_shape hsuits.1 hsuits.2)
        (startsPlain_of_shape hsuits.1 hsuits.2 _) hr.ends
  | singleQuoted =>
      rw [hstyle] at h hsuits
      obtain ⟨hvisible, hbefore, hbehind⟩ := of_shape_single hsuits.2
      have hline : singleQuoted (a + 2) t ++ ['\n'] ++ (spaces m ++ r) = closingQuote true ::
          (singleFrom (a + 2) false t ++ '\'' :: '\n' :: (spaces m ++ r)) := by
        simp [singleQuoted, closingQuote]
      exact (hline ▸ h).quoted (fun b hb => by cases hb; exact Nat.le_succ_of_le hfits)
        (fun l i => readQuoted_single _ (Nat.succ_pos _) (Nat.succ_pos _) hvisible hsuits.1 hbefore
          hbehind) (by simp only [List.length_append, List.length_cons]; omega) hr
  | doubleQuoted =>
      rw [hstyle] at h
      have hline : doubleQuoted t ++ ['\n'] ++ (spaces m ++ r) = closingQuote false ::
          (t.flatMap quotedChar ++ '"' :: '\n' :: (spaces m ++ r)) := by
        have hquoted : doubleQuoted t = '"' :: t.flatMap quotedChar ++ ['"'] := rfl
        simp [hquoted, closingQuote]
      exact (hline ▸ h).quoted (fun b hb => by cases hb; exact Nat.le_succ_of_le hfits)
        (fun l i => readQuoted_double t _ (Nat.succ_pos _))
        (by simp only [List.length_append, List.length_cons]; omega) hr
  | literal =>
      rw [hstyle] at h hsuits
      obtain ⟨hne, hvisible⟩ := of_shape_block hsuits
      have hline : literalBlock (a + 2) t ++ (spaces m ++ r) = '|' ::
          (blockHints t ++ '\n' :: (literalLines (a + 2) true t ++ (spaces m ++ r))) := by
        simp [literalBlock]
      exact (hline ▸ h).literal (Nat.le_succ_of_le hfits)
        (fun l i => readBlock_literal hne hvisible (by omega) hr.ends)
        (by simp only [List.length_append, List.length_cons]; omega)
  | folded =>
      rw [hstyle] at hsuits
      exact hsuits.elim

theorem number {k : Nat} (h : s.Stands (Nat.toDigits 10 n ++ '\n' :: (spaces m ++ r)) (k + 1)
      (a :: indents) false ts) (hfits : a ≤ k) (hm : m ≤ a) (hr : IsTokenStart r) :
    ∃ s', Leads s s' ∧
      s'.Stands r m (a :: indents) true (ts ++ [.scalar (Nat.toDigits 10 n) .plain]) := by
  have hdigits := Text.toDigits_isDigit n
  exact h.plain hfits hm (isPlain_toDigits n)
    (startsPlain_of_kind Nat.toDigits_ne_nil hdigits
      (fun c hc => isWhite_of_kind (hdigits c hc) (by decide)) (by decide) _) hr.ends

end Stands

end Scanner

end SourceAtlas.Yaml
