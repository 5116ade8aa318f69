import SourceAtlas.Proofs.Yaml.Cursor

namespace SourceAtlas.Yaml

open Text (Ends)

variable {r s t w b : List Char} {l k i n m indent : Nat}

theorem literalLines_word (hw : ∀ c ∈ w, isBreak c = false) (r : List Char) :
    literalLines indent false (w ++ r) = w ++ literalLines indent false r := by
  induction w with
  | nil => rfl
  | cons c w ih =>
      rw [List.forall_mem_cons] at hw
      rw [List.cons_append, literalLines, hw.1, if_neg Bool.false_ne_true, ih hw.2]
      rfl

theorem literalLines_breaks (hb : ∀ c ∈ b, isBreak c = true) (r : List Char) :
    literalLines indent true (b ++ r) = b ++ literalLines indent true r := by
  induction b with
  | nil => rfl
  | cons c b ih =>
      rw [List.forall_mem_cons] at hb
      rw [List.cons_append, literalLines, if_pos hb.1, ih hb.2]
      rfl

theorem literalLines_fresh {c : Char} (hc : isBreak c = false) (r : List Char) :
    literalLines indent true (c :: r) = spaces indent ++ literalLines indent false (c :: r) := by
  rw [literalLines, literalLines, hc]
  rfl

def Margin (indent m : Nat) (r : List Char) : Prop :=
  m = indent ∧ Ends isBreak r ∨ m < indent ∧ Ends isWhite r

theorem blockBreaks_end (h : Margin indent m r) (acc : List Char) (deepest : Nat) :
    ∃ deepest', blockBreaks (some indent) (n + 1) ⟨spaces m ++ r, l, 0, i⟩ acc deepest =
      some (acc, deepest', ⟨r, l, m, i + m⟩) := by
  have hskip : Cursor.skipWhile (· == ' ') indent ⟨spaces m ++ r, l, 0, i⟩ = ⟨r, l, m, i + m⟩ := by
    have hw : ∀ c ∈ spaces m, (c == ' ') = true := fun c hc => by simp [eq_of_mem_spaces hc]
    have := Cursor.skipWhile_run (n := indent) (r := r) (l := l) (k := 0) (i := i) hw ?_
    · rwa [length_spaces, Nat.zero_add] at this
    · rw [length_spaces]
      refine h.imp (fun h => h.1.symm) fun h => ⟨by omega, fun c hc => ?_⟩
      rw [beq_eq_false_iff_ne]
      rintro rfl
      cases h.2 _ hc
  have hbreak : (⟨r, l, m, i + m⟩ : Cursor).atBreak = false := by
    rcases h with ⟨-, h⟩ | ⟨-, h⟩
    · cases r with
      | nil => rfl
      | cons c r => exact h c rfl
    · exact Cursor.atBreak_eq_false h
  have htab : (decide (m < indent) && (⟨r, l, m, i + m⟩ : Cursor).at? '\t') = false := by
    rcases h with ⟨rfl, -⟩ | ⟨-, h⟩
    · simp
    · cases r with
      | nil => exact Bool.and_false _
      | cons c r =>
          rw [Cursor.at?_cons, beq_false_of_ne, Bool.and_false]
          rintro rfl
          cases h _ rfl
  refine ⟨max deepest m, ?_⟩
  rw [blockBreaks]
  simp [hskip, hbreak, htab]

theorem blockBreaks_cons {x : Char} (hx : IsKeptBreak x) (acc : List Char) (deepest : Nat) :
    blockBreaks (some indent) (n + 1) ⟨x :: r, l, 0, i⟩ acc deepest =
      blockBreaks (some indent) n ⟨r, l + 1, 0, i + 1⟩ (acc ++ [x]) deepest := by
  have hspace : (x == ' ') = false := by
    rcases hx with rfl | rfl | rfl <;> rfl
  have htab : (x == '\t') = false := by
    rcases hx with rfl | rfl | rfl <;> rfl
  have hskip : Cursor.skipWhile (· == ' ') indent ⟨x :: r, l, 0, i⟩ = ⟨x :: r, l, 0, i⟩ :=
    Cursor.skipWhile_run (w := []) nofun
      (.inr ⟨Nat.zero_le _, Ends.cons (p := (· == ' ')) hspace r⟩)
  rw [blockBreaks]
  simp [hskip, htab, hx.isBreak, hx.stepLine, hx.breakText]

theorem blockBreaks_run (hb : ∀ c ∈ b, IsKeptBreak c) (h : Margin indent m r) (hn : b.length < n)
    (acc : List Char) (deepest : Nat) :
    ∃ deepest' l' i', blockBreaks (some indent) n ⟨b ++ (spaces m ++ r), l, 0, i⟩ acc deepest =
      some (acc ++ b, deepest', ⟨r, l', m, i'⟩) := by
  induction b generalizing n l i acc with
  | nil =>
      obtain ⟨n, rfl⟩ := Nat.exists_eq_add_one_of_ne_zero (n := n) (by omega)
      obtain ⟨deepest', hend⟩ := blockBreaks_end (n := n) (l := l) (i := i) h acc deepest
      exact ⟨deepest', l, i + m, by rw [List.append_nil]; exact hend⟩
  | cons x b ih =>
      rw [List.forall_mem_cons] at hb
      rw [List.length_cons] at hn
      obtain ⟨n, rfl⟩ := Nat.exists_eq_add_one_of_ne_zero (n := n) (by omega)
      obtain ⟨deepest', l', i', hrest⟩ := ih (n := n) (l := l + 1) (i := i + 1) hb.2 (by omega)
        (acc ++ [x])
      refine ⟨deepest', l', i', ?_⟩
      rw [List.cons_append, blockBreaks_cons hb.1, hrest, List.append_assoc]
      rfl

structure Ended (s core first more : List Char) : Prop where
  last : ∃ u c, core = u ++ [c] ∧ isBreak c = false
  breaks : s = core ∧ first = ['\n'] ∧ more = [] ∨
    ∃ x, s = core ++ x :: more ∧ first = [x] ∧ isBreak x = true ∧ ∀ c ∈ more, isBreak c = true

theorem Ended.append {core first more : List Char} (h : Ended s core first more) (p : List Char) :
    Ended (p ++ s) (p ++ core) first more where
  last := by
    obtain ⟨u, c, hu, hc⟩ := h.last
    exact ⟨p ++ u, c, by rw [hu, List.append_assoc], hc⟩
  breaks := by
    rcases h.breaks with ⟨rfl, hbare⟩ | ⟨x, rfl, hbreak⟩
    · exact .inl ⟨rfl, hbare⟩
    · exact .inr ⟨x, by rw [List.append_assoc], hbreak⟩

theorem blockLines_end (h : m ≠ indent) (st : BlockState) :
    blockLines true indent n ⟨r, l, m, i⟩ st = some (st, ⟨r, l, m, i⟩) := by
  cases n with
  | zero => rfl
  | succ n =>
      rw [blockLines]
      simp [h]

theorem blockLines_line {x : Char} (hw : ∀ c ∈ w, isBreak c = false)
    (hx : IsKeptBreak x) (hb : ∀ c ∈ b, IsKeptBreak c) (h : Margin indent m r) (st : BlockState) :
    ∃ l' i' blank, blockLines true indent (n + 1)
        ⟨w ++ x :: (b ++ (spaces m ++ r)), l, indent, i⟩ st =
      blockLines true indent n ⟨r, l', m, i'⟩
        ⟨st.text ++ (st.first ++ st.more) ++ w, [x], b, blank⟩ := by
  have hw' : ∀ c ∈ w, (!isBreak c) = true := fun c hc => by simp [hw c hc]
  have hx' : Ends (fun c => !isBreak c) (x :: (b ++ (spaces m ++ r))) := .cons (by simp [hx.isBreak]) _
  have hline := Cursor.take_run (l := l) (k := indent) (i := i) hw' hx'
  obtain ⟨deepest, l', i', hbreaks⟩ := blockBreaks_run (l := l + 1) (i := i + w.length + 1)
    (n := (x :: (b ++ (spaces m ++ r))).length + 1) hb h
    (by rw [List.length_cons, List.length_append]; omega) [] 0
  have hend : (⟨w ++ x :: (b ++ (spaces m ++ r)), l, indent, i⟩ : Cursor).atEnd = false := by
    cases w <;> rfl
  refine ⟨l', i', (⟨w ++ x :: (b ++ (spaces m ++ r)), l, indent, i⟩ : Cursor).atBlank, ?_⟩
  rw [blockLines, hend, hline]
  simp only [bne_self_eq_false, Bool.or_false, Bool.false_eq_true, if_false, bind, Option.bind,
    hx.stepLine, hx.breakText, hbreaks]
  simp

theorem isKeptBreak_of_run (hvisible : ∀ c ∈ s, isPlainlyVisible c = true) (hs : ∀ c ∈ b, c ∈ s)
    (hb : ∀ c ∈ b, isBreak c = true) : ∀ c ∈ b, IsKeptBreak c :=
  fun c hc => isKeptBreak_of_visible (hvisible c (hs c hc)) (hb c hc)

theorem ends_literalLines {c : Char} (hc : isBreak c = false) (t r : List Char) :
    Ends isBreak (literalLines indent false (c :: t) ++ r) := by
  rw [literalLines, hc]
  exact .cons hc _

theorem last_of_line (hne : w ≠ []) (hw : ∀ c ∈ w, isBreak c = false) :
    ∃ u c, w = u ++ [c] ∧ isBreak c = false := by
  obtain rfl | ⟨u, c, rfl⟩ := List.eq_nil_or_concat w
  · exact absurd rfl hne
  · rw [List.concat_eq_append] at hw ⊢
    exact ⟨u, c, rfl, hw c (by simp)⟩

theorem literalLines_ended {first more : List Char} (h : Ended s w first more)
    (hw : ∀ c ∈ w, isBreak c = false) : literalLines indent false s = w ++ (first ++ more) := by
  rcases h.breaks with ⟨rfl, rfl, rfl⟩ | ⟨x, rfl, rfl, hx, hmore⟩
  · conv_lhs => rw [← List.append_nil s]
    rw [literalLines_word hw]
    rfl
  · rw [literalLines_word hw, literalLines, if_pos hx]
    conv_lhs => rw [← List.append_nil more, literalLines_breaks hmore]
    simp [literalLines]

theorem blockLines_last {x : Char} (h : Ended s w [x] b) (hw : ∀ c ∈ w, isBreak c = false)
    (hx : IsKeptBreak x) (hb : ∀ c ∈ b, IsKeptBreak c) (hm : m < indent) (hr : Ends isWhite r)
    (st : BlockState) :
    ∃ blank l' i', blockLines true indent (n + 1)
        ⟨literalLines indent false s ++ (spaces m ++ r), l, indent, i⟩ st =
      some (⟨st.text ++ (st.first ++ st.more) ++ w, [x], b, blank⟩, ⟨r, l', m, i'⟩) := by
  obtain ⟨l', i', blank, hstep⟩ := blockLines_line (n := n) (l := l) (i := i) hw hx hb
    (.inr ⟨hm, hr⟩) st
  refine ⟨blank, l', i', ?_⟩
  rw [literalLines_ended h hw, List.singleton_append, List.append_assoc, List.cons_append]
  exact hstep.trans (blockLines_end (by omega) _)

theorem blockLines_read (hs : s ≠ []) (hfirst : Ends isBreak s)
    (hvisible : ∀ c ∈ s, isPlainlyVisible c = true) (hm : m < indent) (hr : Ends isWhite r)
    (hn : s.length < n) (st : BlockState) :
    ∃ core first more blank l' i', Ended s core first more ∧
      blockLines true indent n ⟨literalLines indent false s ++ (spaces m ++ r), l, indent, i⟩ st =
        some (⟨st.text ++ (st.first ++ st.more) ++ core, first, more, blank⟩, ⟨r, l', m, i'⟩) := by
  -- line by line; of each the breaks behind it are kept apart, as they count only if a line follows
  induction n generalizing s l i st with
  | zero => omega
  | succ n ih =>
      obtain ⟨w, u, rfl, hw, hu⟩ := Text.exists_run (fun c => !isBreak c) s
      have hline : ∀ c ∈ w, isBreak c = false := fun c hc => by simpa using hw c hc
      have hne : w ≠ [] := by
        rintro rfl
        obtain ⟨c, u, rfl⟩ := List.exists_cons_of_ne_nil hs
        have := hu c rfl
        simp [hfirst c rfl] at this
      have hlast := last_of_line hne hline
      cases u with
      | nil =>
          have hended : Ended (w ++ []) w ['\n'] [] := ⟨hlast, .inl ⟨by simp, rfl, rfl⟩⟩
          obtain ⟨blank, l', i', hend⟩ := blockLines_last (n := n) (l := l) (i := i) hended hline
            (.inl rfl) nofun hm hr st
          exact ⟨w, ['\n'], [], blank, l', i', hended, hend⟩
      | cons x u =>
          have hx : isBreak x = true := by simpa using hu x rfl
          obtain ⟨b, t, rfl, hb, ht⟩ := Text.exists_run isBreak u
          have hxk := isKeptBreak_of_visible (hvisible x (by simp)) hx
          have hbk := isKeptBreak_of_run hvisible (fun c hc => by simp [hc]) hb
          cases t with
          | nil =>
              have hended : Ended (w ++ x :: (b ++ [])) w [x] b :=
                ⟨hlast, .inr ⟨x, by simp, rfl, hx, hb⟩⟩
              obtain ⟨blank, l', i', hend⟩ := blockLines_last (n := n) (l := l) (i := i) hended hline
                hxk hbk hm hr st
              exact ⟨w, [x], b, blank, l', i', hended, hend⟩
          | cons c t =>
              have hc := ht c rfl
              obtain ⟨l', i', blank, hstep⟩ := blockLines_line (n := n) (l := l) (i := i) hline hxk hbk
                (.inl ⟨rfl, ends_literalLines hc t (spaces m ++ r)⟩) st
              obtain ⟨core, first, more, blank', l', i', hended, hrest⟩ := ih (l := l') (i := i')
                (List.cons_ne_nil c t) ht
                (fun y hy => hvisible y (by simp at hy ⊢; tauto)) (by simp at hn ⊢; omega)
                ⟨st.text ++ (st.first ++ st.more) ++ w, [x], b, blank⟩
              refine ⟨w ++ x :: (b ++ core), first, more, blank', l', i', ?_, ?_⟩
              · have := hended.append (w ++ x :: b)
                simpa using this
              · rw [literalLines_word hline, literalLines, if_pos hx, literalLines_breaks hb,
                  literalLines_fresh hc, List.append_assoc, List.cons_append, List.append_assoc,
                  List.append_assoc, hstep, hrest]
                simp

def chompingOf (s : List Char) : Chomping :=
  match s.reverse with
  | [] => .strip
  | [c] => if isBreak c then .keep else .strip
  | c :: d :: _ => if !isBreak c then .strip else if isBreak d then .keep else .clip

def chompMark : Chomping → List Char
  | .strip => ['-']
  | .clip => []
  | .keep => ['+']

def hidesIndent (s : List Char) : Bool := match s with | c :: _ => isSpace c || isBreak c | [] => false

theorem blockHints_eq (s : List Char) :
    blockHints s = (if hidesIndent s then ['2'] else []) ++ chompMark (chompingOf s) := by
  have hindent : (match s with | c :: _ => if isSpace c || isBreak c then ['2'] else [] | [] => []) =
      if hidesIndent s then ['2'] else [] := by
    cases s <;> rfl
  have hchomp : (match s.reverse with
      | [] => ['-']
      | [c] => if isBreak c then ['+'] else ['-']
      | c :: d :: _ => if !isBreak c then ['-'] else if isBreak d then ['+'] else []) =
      chompMark (chompingOf s) := by
    unfold chompingOf
    split
    · rfl
    · split <;> rfl
    · split
      · rfl
      · split <;> rfl
  exact congrArg₂ (· ++ ·) hindent hchomp

theorem readBlockHeader_hints (s r : List Char) (l k i : Nat) :
    ∃ i', readBlockHeader ⟨blockHints s ++ '\n' :: r, l, k, i⟩ =
      some ⟨chompingOf s, if hidesIndent s then some 2 else none, ⟨r, l + 1, 0, i'⟩⟩ := by
  rw [blockHints_eq]
  cases hidesIndent s <;> cases chompingOf s <;> exact ⟨_, rfl⟩

theorem chompingOf_bare {c : Char} (hc : isBreak c = false) (u : List Char) :
    chompingOf (u ++ [c]) = .strip := by
  rw [chompingOf, List.reverse_append]
  cases u.reverse <;> simp [hc]

theorem chompingOf_clip {c x : Char} (hc : isBreak c = false) (hx : isBreak x = true) (u : List Char) :
    chompingOf (u ++ [c] ++ [x]) = .clip := by
  rw [chompingOf, List.reverse_append, List.reverse_append]
  simp [hc, hx]

theorem chompingOf_keep {x : Char} (hx : isBreak x = true) (hb : ∀ c ∈ b, isBreak c = true)
    (hu : s = [] ∨ b ≠ []) : chompingOf (s ++ x :: b) = .keep := by
  have hall : ∀ c ∈ (x :: b).reverse, isBreak c = true := fun c hc => by
    rcases List.mem_cons.mp (List.mem_reverse.mp hc) with rfl | hc
    · exact hx
    · exact hb c hc
  rw [chompingOf, List.reverse_append]
  cases hrev : (x :: b).reverse with
  | nil => simp at hrev
  | cons c v =>
      rw [hrev, List.forall_mem_cons] at hall
      cases v with
      | nil =>
          have hb : b = [] := by
            have := congrArg List.length hrev
            simpa using this
          rw [hu.resolve_right fun h => h hb]
          simp [hall.1]
      | cons d v => simp [hall.1, hall.2 d List.mem_cons_self]

theorem Ended.chomped {core first more : List Char} (h : Ended s core first more) :
    core ++ (match chompingOf s with
      | .strip => []
      | .clip => first
      | .keep => first ++ more) = s := by
  obtain ⟨u, c, rfl, hc⟩ := h.last
  rcases h.breaks with ⟨rfl, rfl, rfl⟩ | ⟨x, rfl, rfl, hx, hmore⟩
  · rw [chompingOf_bare hc]
    exact List.append_nil _
  · by_cases hne : more = []
    · rw [hne, chompingOf_clip hc hx]
    · rw [chompingOf_keep hx hmore (.inr hne)]
      rfl

theorem eq_nil_of_shown (hb : ∀ c ∈ b, isBreak c = true) (h : hidesIndent (b ++ t) = false) :
    b = [] := by
  cases b with
  | nil => rfl
  | cons x b =>
      rw [List.forall_mem_cons] at hb
      rw [List.cons_append, hidesIndent, hb.1, Bool.or_true] at h
      cases h

theorem blockBreaks_hinted (hb : ∀ c ∈ b, IsKeptBreak c) (ht : Ends isBreak t) (hm : m < indent)
    (hr : Ends isWhite r) (hn : (b ++ t).length < n) :
    ∃ deepest l' i', blockBreaks (some indent) n
        ⟨b ++ (literalLines indent true t ++ (spaces m ++ r)), l, 0, i⟩ [] 0 =
      some (b, deepest, if t = [] then ⟨r, l', m, i'⟩
        else ⟨literalLines indent false t ++ (spaces m ++ r), l', indent, i'⟩) := by
  have hlong : b.length < n := by
    rw [List.length_append] at hn
    omega
  cases t with
  | nil => exact blockBreaks_run hb (.inr ⟨hm, hr⟩) hlong [] 0
  | cons c t =>
      have hc := ht c rfl
      rw [literalLines_fresh hc, List.append_assoc]
      exact blockBreaks_run hb (.inl ⟨rfl, ends_literalLines hc t (spaces m ++ r)⟩) hlong [] 0

theorem blockBreaks_first {c : Char} (hc : isBreak c = false) (hspace : (c == ' ') = false)
    (htab : (c == '\t') = false) (m : Nat) (r : List Char) :
    blockBreaks none (n + 1) ⟨spaces m ++ c :: r, l, 0, i⟩ [] 0 =
      some ([], m, ⟨c :: r, l, m, i + m⟩) := by
  have hspaces : ∀ x ∈ spaces m, (x == ' ') = true := fun x hx => by simp [eq_of_mem_spaces hx]
  have hskip := Cursor.skip_run (p := (· == ' ')) (l := l) (k := 0) (i := i) (r := c :: r) hspaces
    (Ends.cons (p := (· == ' ')) hspace _)
  rw [length_spaces, Nat.zero_add] at hskip
  simp [blockBreaks, hskip, hc, htab]

theorem blockBreaks_front (hs : s ≠ []) (hvisible : ∀ c ∈ s, isPlainlyVisible c = true)
    {around : Nat} (hm : m < around + 2) (hr : Ends isWhite r)
    (hn : s.length < n) :
    ∃ b t deepest l' i', s = b ++ t ∧ (∀ c ∈ b, isBreak c = true) ∧ Ends isBreak t ∧
      (if hidesIndent s then some (around + 2) else none).getD (max deepest (max (around + 1) 1)) =
        around + 2 ∧
      blockBreaks (if hidesIndent s then some (around + 2) else none) n
          ⟨literalLines (around + 2) true s ++ (spaces m ++ r), l, 0, i⟩ [] 0 =
        some (b, deepest, if t = [] then ⟨r, l', m, i'⟩
          else ⟨literalLines (around + 2) false t ++ (spaces m ++ r), l', around + 2, i'⟩) := by
  obtain ⟨b, t, rfl, hb, ht⟩ := Text.exists_run isBreak s
  have hbk := isKeptBreak_of_run hvisible (fun c hc => by simp [hc]) hb
  cases hhides : hidesIndent (b ++ t) with
  | true =>
      obtain ⟨deepest, l', i', hbreaks⟩ := blockBreaks_hinted (l := l) (i := i) hbk ht hm hr hn
      refine ⟨b, t, deepest, l', i', rfl, hb, ht, rfl, ?_⟩
      rw [literalLines_breaks hb, List.append_assoc]
      exact hbreaks
  | false =>
      obtain rfl := eq_nil_of_shown hb hhides
      obtain ⟨c, t, rfl⟩ := List.exists_cons_of_ne_nil (l := t) (by simpa using hs)
      obtain ⟨n, rfl⟩ := Nat.exists_eq_add_one_of_ne_zero (n := n) (by omega)
      have hc := ht c rfl
      have hspace : (c == ' ') = false := (Bool.or_eq_false_iff.mp hhides).1
      have htab : (c == '\t') = false := by
        rw [beq_eq_false_iff_ne]
        rintro rfl
        cases hvisible _ List.mem_cons_self
      have hline : literalLines (around + 2) false (c :: t) =
          c :: literalLines (around + 2) false t := by
        rw [literalLines, hc]
        rfl
      refine ⟨[], c :: t, around + 2, l, i + (around + 2), rfl, hb, ht, by simp, ?_⟩
      rw [List.nil_append, literalLines_fresh hc, List.append_assoc, hline, List.cons_append]
      exact blockBreaks_first hc hspace htab _ _

theorem length_literalLines (indent : Nat) (fresh : Bool) (s : List Char) :
    s.length ≤ (literalLines indent fresh s).length := by
  induction s generalizing fresh with
  | nil => exact Nat.zero_le _
  | cons c s ih =>
      rw [literalLines]
      split
      · exact Nat.succ_le_succ (ih true)
      · rw [List.length_append, List.length_cons, List.length_cons]
        have := ih false
        omega

theorem readBlock_literal (hs : s ≠ []) (hvisible : ∀ c ∈ s, isPlainlyVisible c = true)
    {around : Nat} (hm : m < around + 2) (hr : Ends isWhite r) :
    ∃ l' i', readBlock true (some around) ⟨blockHints s ++ '\n' ::
        (literalLines (around + 2) true s ++ (spaces m ++ r)), l, k, i⟩ =
      some (s, ⟨r, l', m, i'⟩) := by
  have hfuel : s.length ≤ (literalLines (around + 2) true s ++ (spaces m ++ r)).length := by
    have := length_literalLines (around + 2) true s
    rw [List.length_append]
    omega
  obtain ⟨i₁, hheader⟩ := readBlockHeader_hints s
    (literalLines (around + 2) true s ++ (spaces m ++ r)) l k i
  obtain ⟨b, t, deepest, l₂, i₂, rfl, hb, ht, hindent, hbreaks⟩ := blockBreaks_front
    (n := (literalLines (around + 2) true s ++ (spaces m ++ r)).length + 1) (l := l + 1) (i := i₁)
    hs hvisible hm hr (by omega)
  have hgiven : (if hidesIndent (b ++ t) then some 2 else none).map
      (fun k => (some around).getD 0 + k) =
      if hidesIndent (b ++ t) then some (around + 2) else none := by
    split <;> rfl
  rw [readBlock, hheader]
  simp only [bind, Option.bind, hgiven, hbreaks, hindent]
  by_cases hempty : t = []
  · subst hempty
    rw [if_pos rfl, blockLines_end (by omega)]
    obtain ⟨x, b, rfl⟩ := List.exists_cons_of_ne_nil (l := b) (by simpa using hs)
    rw [List.forall_mem_cons] at hb
    have hkeep := chompingOf_keep (s := []) hb.1 hb.2 (.inl rfl)
    refine ⟨l₂, i₂, ?_⟩
    rw [List.append_nil, ← List.nil_append (x :: b), hkeep]
    rfl
  · rw [if_neg hempty]
    obtain ⟨core, first, more, blank, l', i', hended, hlines⟩ := blockLines_read (l := l₂) (i := i₂)
      (n := (literalLines (around + 2) false t ++ (spaces m ++ r)).length + 1) hempty ht
      (fun c hc => hvisible c (by simp [hc])) hm hr
      (by
        have := length_literalLines (around + 2) false t
        rw [List.length_append]
        omega) ⟨[], [], b, false⟩
    refine ⟨l', i', ?_⟩
    have hchomped := (hended.append b).chomped
    simp only [hlines, pure]
    congr 2

theorem of_shape_block (h : (shape s).block = true) :
    s ≠ [] ∧ ∀ c ∈ s, isPlainlyVisible c = true := by
  cases s with
  | nil => cases h
  | cons c s =>
      simp only [shape, List.isEmpty_cons, Bool.false_eq_true, if_false, Bool.not_eq_true',
        Bool.or_eq_false_iff, List.any_eq_false, Bool.not_eq_false] at h
      exact ⟨nofun, h.2.1⟩

end SourceAtlas.Yaml
