import SourceAtlas.Proofs.Yaml.Admitted
import SourceAtlas.Yaml.Node

namespace SourceAtlas.Yaml

open Scanner (Fits IsName IsTokenStart Leads Stands isFirst keyTokens opened opening)

variable {r w : List Char} {k m a column : Nat} {indents : List Nat} {allowed : Bool}

structure Line where
  name : List Char
  written : List Char
  tokens : List Token
  node : Node

namespace Line

def write (column : Nat) (e : Line) : List Char := spaces column ++ (e.name ++ ':' :: e.written)

def scanned (e : Line) : List Token := .key :: .scalar e.name .plain :: .value :: e.tokens

def pair (e : Line) : Node × Node := (.scalar e.name .plain none, e.node)

end Line

def Scans (column : Nat) (written : List Char) (tokens : List Token) : Prop :=
  ∀ {s : Scanner} {k m : Nat} {r : List Char} {indents : List Nat} {ts : List Token},
    column ≤ k → m ≤ column → IsTokenStart r →
    s.Stands (written ++ (spaces m ++ r)) (k + 1) (column :: indents) false ts →
    ∃ s', Leads s s' ∧ s'.Stands r m (column :: indents) true (ts ++ tokens)

def Reads (tokens : List Token) (node : Node) : Prop :=
  ∀ {fuel : Nat} {rest : List Token} {anchors : Anchors} {handles : List (List Char)},
    tokens.length < fuel →
    Reader.nodeUnless fuel Reader.entryEnds true true ⟨tokens ++ rest, anchors, handles⟩ =
      some (node, ⟨rest, anchors, handles⟩)

structure Line.IsSound (column : Nat) (e : Line) : Prop where
  name : IsName e.name
  white : ∀ r, whiteNext (e.written ++ r) = true
  admitted : Admitted e.written
  scans : Scans column e.written e.tokens
  reads : Reads e.tokens e.node

namespace Scanner

namespace Stands

variable {s : Scanner} {ts : List Token} {e : Line} {es : List Line}

theorem entry (h : s.Stands (e.name ++ ':' :: (e.written ++ (spaces m ++ r))) column indents true ts)
    (he : e.IsSound column) (hfits : Fits indents column) (hm : m ≤ column) (hr : IsTokenStart r) :
    ∃ s', Leads s s' ∧ s'.Stands r m (opened indents column) true
      (ts ++ opening indents column ++ e.scanned) := by
  obtain ⟨s₁, h₁, hs₁⟩ := h.key he.name (he.white _) hfits
  obtain ⟨outer, houter⟩ := exists_outer hfits
  rw [houter] at hs₁ ⊢
  obtain ⟨s₂, h₂, hs₂⟩ := he.scans (Nat.le_add_right column e.name.length) hm hr hs₁
  refine ⟨s₂, h₁.trans h₂, ?_⟩
  rw [keyTokens, List.append_assoc, List.append_assoc] at hs₂
  rwa [List.append_assoc]

theorem lines (h : s.Stands (e.name ++ ':' :: (e.written ++ (es.flatMap (Line.write column) ++
      (spaces m ++ r)))) column indents true ts)
    (hes : ∀ e' ∈ e :: es, e'.IsSound column) (hfits : Fits indents column) (hm : m ≤ column)
    (hr : IsTokenStart r) :
    ∃ s', Leads s s' ∧ s'.Stands r m (opened indents column) true
      (ts ++ opening indents column ++ (e :: es).flatMap Line.scanned) := by
  induction es generalizing s e indents ts with
  | nil =>
      rw [List.flatMap_singleton]
      exact h.entry (hes e List.mem_cons_self) hfits hm hr
  | cons e' es ih =>
      obtain ⟨he, hes⟩ := List.forall_mem_cons.mp hes
      have hname := (hes e' List.mem_cons_self).name
      have htext : (e' :: es).flatMap (Line.write column) ++ (spaces m ++ r) = spaces column ++
          (e'.name ++ ':' :: (e'.written ++ (es.flatMap (Line.write column) ++ (spaces m ++ r)))) := by
        simp [Line.write]
      rw [htext] at h
      obtain ⟨s₁, h₁, hs₁⟩ := h.entry he hfits le_rfl (isTokenStart_key hname _)
      obtain ⟨outer, houter⟩ := exists_outer hfits
      rw [houter] at hs₁ ⊢
      have hinner : Fits (column :: outer) column := by
        rintro _ ⟨⟩
        exact le_rfl
      obtain ⟨s₂, h₂, hs₂⟩ := ih hs₁ hes hinner
      rw [opened, isFirst_self, if_neg Bool.false_ne_true, opening_self, List.append_nil,
        List.append_assoc] at hs₂
      exact ⟨s₂, h₁.trans h₂, hs₂⟩

theorem close (h : s.Stands r k (a :: indents) allowed ts) (hr : IsTokenStart r) (ha : k < a) :
    ∃ s', Leads s s' ∧ s'.Stands r k indents allowed (ts ++ [.blockEnd]) := by
  have hskip := h.skip hr
  have hstale := h.stale
  obtain ⟨⟨rest, l, k, i⟩, ps, filled, slots, _, keys, allowed⟩ := s
  obtain ⟨rfl, rfl, rfl, rfl, rfl, rfl, hslots⟩ := h
  have hclosed : Stands ⟨⟨rest, l, k, i⟩, .token .blockEnd :: ps, filled, slots, indents, [none],
      allowed⟩ rest k indents allowed (linearise filled ps.reverse ++ [.blockEnd]) := by
    refine ⟨rfl, rfl, rfl, rfl, rfl, ?_, fun p hp => hslots p ((List.mem_cons.mp hp).resolve_left nofun)⟩
    rw [List.reverse_cons, linearise_append]
    rfl
  refine ⟨_, ⟨0, by simp, fun n => ?_⟩, hclosed⟩
  have hunroll : unroll ⟨⟨rest, l, k, i⟩, ps, filled, slots, a :: indents, [none], allowed⟩ (some k) =
      unroll ⟨⟨rest, l, k, i⟩, .token .blockEnd :: ps, filled, slots, indents, [none], allowed⟩
        (some k) := by
    simp [unroll, inFlow, closeBlocks, ha]
  cases n with
  | zero => rfl
  | succ n =>
      rw [Nat.add_zero, run, run, hskip, hclosed.skip hr, hstale, hclosed.stale]
      simp only [bind, Option.bind, Scanner.column, hunroll]
      rfl

theorem finish (h : s.Stands [] k [a] allowed ts) (ha : a ≤ k) (n : Nat) :
    ∃ s', s.run (n + 1) = some s' ∧ linearise s'.filled s'.pieces.reverse = ts ++ [.blockEnd] := by
  have hskip := h.skip isTokenStart_nil
  have hstale := h.stale
  have hsettled := h.settled (by rintro _ ⟨⟩; exact ha)
  obtain ⟨⟨rest, l, k, i⟩, ps, filled, slots, _, keys, allowed⟩ := s
  obtain ⟨rfl, rfl, rfl, rfl, rfl, rfl, -⟩ := h
  rw [run, hskip, hstale]
  refine ⟨⟨⟨[], l, k, i⟩, .token .blockEnd :: ps, filled, slots, [], [none], allowed⟩, ?_, ?_⟩
  · simp only [bind, Option.bind, hsettled]
    rfl
  · rw [List.reverse_cons, linearise_append]
    rfl

end Stands

theorem stands_start (hr : IsTokenStart r) :
    ∃ s', Leads (start ("---\n".toList ++ r)) s' ∧ s'.Stands r 0 [] true [.documentStart] := by
  have hmark : Stands ⟨⟨'\n' :: r, 0, 3, 3⟩, [.token .documentStart], [], 0, [], [none], false⟩
      ('\n' :: r) 3 [] false [.documentStart] :=
    ⟨rfl, rfl, rfl, rfl, rfl, rfl, fun p hp => by cases hp with | tail _ hp => cases hp⟩
  obtain ⟨s, h, hs⟩ := hmark.line (m := 0) hr
  have hskip : skipToToken (r.length + 4 + 1) (start ("---\n".toList ++ r)) = start ("---\n".toList ++ r) :=
    skipToToken_spaces (m := 0) (isTokenStart_cons (by decide) _) none
  exact ⟨s, (leads_of_fetch hskip rfl rfl rfl (Nat.lt_succ_of_le (Nat.le_add_right _ 2))).trans h, hs⟩

end Scanner

def writeLines (es : List Line) : List Char := "---\n".toList ++ es.flatMap (Line.write 0)

theorem admitted_write {e : Line} (he : e.IsSound column) : Admitted (e.write column) :=
  (admitted_spaces column).append (.append (fun c hc => isAdmitted_of_isKeyChar (he.name.chars c hc))
    (he.admitted.cons rfl))

theorem admitted_lines {es : List Line} (hes : ∀ e ∈ es, e.IsSound column) :
    Admitted (es.flatMap (Line.write column)) := fun c hc => by
  obtain ⟨e, he, hc⟩ := List.mem_flatMap.mp hc
  exact admitted_write (hes e he) c hc

theorem tokens?_writeLines {es : List Line} (hne : es ≠ []) (hes : ∀ e ∈ es, e.IsSound 0) :
    tokens? (writeLines es) =
      some (.documentStart :: .blockMappingStart :: (es.flatMap Line.scanned ++ [.blockEnd])) := by
  obtain ⟨e, es, rfl⟩ := List.exists_cons_of_ne_nil hne
  have hadmitted : Admitted (writeLines (e :: es)) :=
    .append (by decide) (admitted_lines hes)
  have htext : (e :: es).flatMap (Line.write 0) =
      e.name ++ ':' :: (e.written ++ (es.flatMap (Line.write 0) ++ (spaces 0 ++ []))) := by
    simp [Line.write, spaces]
  obtain ⟨s₁, h₁, hs₁⟩ := Scanner.stands_start (r := (e :: es).flatMap (Line.write 0)) (by
    rw [htext]
    exact Scanner.isTokenStart_key (hes e List.mem_cons_self).name _)
  rw [htext] at hs₁
  obtain ⟨s₂, h₂, hs₂⟩ := hs₁.lines hes (Scanner.fits_nil 0) le_rfl Scanner.isTokenStart_nil
  obtain ⟨j, hj, hrun⟩ := h₁.trans h₂
  obtain ⟨s₃, h₃, hs₃⟩ := hs₂.finish le_rfl ((writeLines (e :: es)).length - j + 1)
  have hall : (Scanner.start (writeLines (e :: es))).run ((writeLines (e :: es)).length + 2) = some s₃ := by
    have hlength : (writeLines (e :: es)).length + 2 =
        (writeLines (e :: es)).length - j + 1 + 1 + j := by
      change _ ≤ (writeLines (e :: es)).length at hj
      omega
    rw [hlength]
    exact (hrun _).trans h₃
  rw [tokens?, if_pos (List.all_eq_true.mpr hadmitted), hall]
  simp [hs₃, opening, isFirst]

namespace Reader

variable {fuel : Nat} {rest : List Token} {anchors : Anchors} {handles : List (List Char)}

theorem nodeUnless_scalar (t : List Char) (style : ScalarStyle) (h : 1 < fuel) :
    nodeUnless fuel entryEnds true true ⟨.scalar t style :: rest, anchors, handles⟩ =
      some (.scalar t style none, ⟨rest, anchors, handles⟩) := by
  obtain ⟨n, rfl⟩ : ∃ n, fuel = n + 2 := ⟨fuel - 2, by omega⟩
  rfl

theorem reads_scalar (t : List Char) (style : ScalarStyle) :
    Reads [.scalar t style] (.scalar t style none) := fun h => nodeUnless_scalar t style h

theorem blockPairs_lines {es : List Line} (hes : ∀ e ∈ es, Reads e.tokens e.node)
    (h : (es.flatMap Line.scanned).length < fuel) :
    blockPairs fuel ⟨es.flatMap Line.scanned ++ .blockEnd :: rest, anchors, handles⟩ =
      some (es.map Line.pair, ⟨rest, anchors, handles⟩) := by
  induction es generalizing fuel with
  | nil =>
      obtain ⟨n, rfl⟩ : ∃ n, fuel = n + 1 := ⟨fuel - 1, by omega⟩
      rfl
  | cons e es ih =>
      obtain ⟨he, hes⟩ := List.forall_mem_cons.mp hes
      rw [List.flatMap_cons, List.length_append, Line.scanned] at h
      simp only [List.length_cons] at h
      obtain ⟨n, rfl⟩ : ∃ n, fuel = n + 2 := ⟨fuel - 2, by omega⟩
      have hkey : ∀ ts, nodeUnless (n + 1) entryEnds true true
          ⟨.scalar e.name .plain :: ts, anchors, handles⟩ =
            some (.scalar e.name .plain none, ⟨ts, anchors, handles⟩) :=
        fun ts => nodeUnless_scalar e.name .plain (by omega)
      have hvalue : ∀ ts, nodeUnless n entryEnds true true ⟨e.tokens ++ ts, anchors, handles⟩ =
          some (e.node, ⟨ts, anchors, handles⟩) := fun ts => he (by omega)
      have hlines : blockPairs (n + 1) ⟨es.flatMap Line.scanned ++ .blockEnd :: rest, anchors, handles⟩ =
          some (es.map Line.pair, ⟨rest, anchors, handles⟩) := ih hes (by omega)
      rw [List.flatMap_cons, Line.scanned, List.append_assoc, List.cons_append, List.cons_append,
        List.cons_append, blockPairs]
      simp only [next, skip, List.head?_cons, List.tail_cons, bind, Option.bind, hkey, blockValue, hvalue,
        hlines]
      rfl

theorem node_mapping {es : List Line} (hes : ∀ e ∈ es, Reads e.tokens e.node)
    (h : (es.flatMap Line.scanned).length + 1 < fuel) (bare : Bool) :
    node fuel true bare ⟨.blockMappingStart :: (es.flatMap Line.scanned ++ .blockEnd :: rest), anchors,
        handles⟩ = some (.mapping (es.map Line.pair), ⟨rest, anchors, handles⟩) := by
  obtain ⟨n, rfl⟩ : ∃ n, fuel = n + 1 := ⟨fuel - 1, by omega⟩
  rw [node]
  simp only [next, List.head?_cons, properties, bind, Option.bind, skip, List.tail_cons,
    blockPairs_lines hes (Nat.lt_of_succ_lt_succ h), if_true]
  rfl

theorem reads_mapping {es : List Line} (hes : ∀ e ∈ es, Reads e.tokens e.node) :
    Reads (.blockMappingStart :: (es.flatMap Line.scanned ++ [.blockEnd])) (.mapping (es.map Line.pair)) := by
  intro fuel rest anchors handles h
  simp only [List.length_cons, List.length_append, List.length_nil] at h
  obtain ⟨n, rfl⟩ : ∃ n, fuel = n + 1 := ⟨fuel - 1, by omega⟩
  rw [List.cons_append, List.append_assoc, List.singleton_append, nodeUnless]
  exact node_mapping hes (by omega) true

end Reader

theorem ofText?_writeLines {es : List Line} (hne : es ≠ []) (hes : ∀ e ∈ es, e.IsSound 0) :
    Document.ofText? (writeLines es) = some ⟨some (.mapping (es.map Line.pair)), Anchors.none⟩ := by
  have htokens := tokens?_writeLines hne hes
  have hroot : Reader.node (4 * ((es.flatMap Line.scanned ++ [Token.blockEnd]).length + 1 + 1) + 8) true
      false ⟨.blockMappingStart :: (es.flatMap Line.scanned ++ [.blockEnd]), Anchors.none, []⟩ =
        some (.mapping (es.map Line.pair), ⟨[], Anchors.none, []⟩) :=
    Reader.node_mapping (fun e he => (hes e he).reads) (by rw [List.length_append]; omega) false
  generalize es.flatMap Line.scanned ++ [Token.blockEnd] = ts at htokens hroot
  have hdirectives : Reader.directives false (4 * (ts.length + 1 + 1) + 8)
      ⟨.documentStart :: .blockMappingStart :: ts, Anchors.none, []⟩ =
        some ⟨.documentStart :: .blockMappingStart :: ts, Anchors.none, []⟩ := rfl
  have hcontent : Reader.atContentEnd ⟨.blockMappingStart :: ts, Anchors.none, []⟩ = false := rfl
  rw [Document.ofText?, htokens]
  simp only [Option.bind_eq_bind, Option.bind_some, List.length_cons, hdirectives, Reader.next,
    List.head?_cons, beq_self_eq_true, Bool.not_true, Bool.false_and, Bool.false_eq_true, if_false,
    if_true, Reader.skip, List.tail_cons, hcontent, Bool.and_false, hroot]
  rfl

namespace Leaf

def letters : Leaf → List Char
  | text t => t
  | number n => Nat.toDigits 10 n

def style : Leaf → ScalarStyle
  | text t => textStyle t
  | number _ => .plain

theorem admitted_write (v : Leaf) (indent : Nat) : Admitted (v.write indent) := by
  cases v with
  | text t => exact admitted_writeText indent t
  | number n =>
      exact .append (fun c hc => isAdmitted_of_isDigit (Text.toDigits_isDigit n c hc))
        (admitted_singleton rfl)

end Leaf

def entryLine (column : Nat) (e : String × Leaf) : Line :=
  ⟨e.1.toList, ' ' :: e.2.write (column + 2), [.scalar e.2.letters e.2.style],
    .scalar e.2.letters e.2.style none⟩

theorem writeEntry_eq (depth : Nat) (e : String × Leaf) :
    writeEntry depth e = (entryLine (2 * depth) e).write (2 * depth) := by
  simp [writeEntry, Line.write, entryLine]

theorem scans_leaf (v : Leaf) (column : Nat) :
    Scans column (' ' :: v.write (column + 2)) [.scalar v.letters v.style] := by
  intro s k m r indents ts hk hm hr h
  have hstart : IsTokenStart (v.write (column + 2) ++ (spaces m ++ r)) := by
    cases v with
    | text t => exact Scanner.isTokenStart_writeText _ t _
    | number n =>
        rw [Leaf.write, List.append_assoc]
        exact Scanner.isTokenStart_plain (Scanner.isPlain_toDigits n) _
  obtain ⟨s₁, h₁, hs₁⟩ :=
    Stands.blank (m := 1) (r := v.write (column + 2) ++ (spaces m ++ r)) h hstart
  obtain ⟨s₂, h₂, hs₂⟩ : ∃ s', Leads s₁ s' ∧ s'.Stands r m (column :: indents) true
      (ts ++ [.scalar v.letters v.style]) := by
    cases v with
    | text t => exact hs₁.text (Nat.le_succ_of_le hk) hm hr
    | number n =>
        rw [Leaf.write, List.append_assoc] at hs₁
        exact hs₁.number (Nat.le_succ_of_le hk) hm hr
  exact ⟨s₂, h₁.trans h₂, hs₂⟩

theorem isSound_entryLine {e : String × Leaf} (he : IsName e.1.toList) (column : Nat) :
    (entryLine column e).IsSound column where
  name := he
  white _ := rfl
  admitted := (e.2.admitted_write _).cons rfl
  scans := scans_leaf e.2 column
  reads := Reader.reads_scalar _ _

def sectionLine (name : String) (column : Nat) (es : List Line) : Line :=
  ⟨name.toList, '\n' :: es.flatMap (Line.write column),
    .blockMappingStart :: (es.flatMap Line.scanned ++ [.blockEnd]), .mapping (es.map Line.pair)⟩

theorem isSound_sectionLine {name : String} {es : List Line} (hname : IsName name.toList)
    (h : a < column) (hne : es ≠ []) (hes : ∀ e ∈ es, e.IsSound column) :
    (sectionLine name column es).IsSound a where
  name := hname
  white _ := rfl
  admitted := (admitted_lines hes).cons rfl
  scans := by
    intro s k m r indents ts hk hm hr hs
    obtain ⟨e, es, rfl⟩ := List.exists_cons_of_ne_nil hne
    have htext : (sectionLine name column (e :: es)).written ++ (spaces m ++ r) =
        '\n' :: (spaces column ++ (e.name ++ ':' :: (e.written ++ (es.flatMap (Line.write column) ++
          (spaces m ++ r))))) := by
      simp [sectionLine, Line.write]
    have hfirst := (hes e List.mem_cons_self).name
    rw [htext] at hs
    obtain ⟨s₁, h₁, hs₁⟩ := hs.line (Scanner.isTokenStart_key hfirst _)
    have hfits : Fits (a :: indents) column := by
      rintro _ ⟨⟩
      exact h.le
    obtain ⟨s₂, h₂, hs₂⟩ := hs₁.lines hes hfits (hm.trans h.le) hr
    have hopen : isFirst (a :: indents) column = true := decide_eq_true h
    rw [opened, opening, if_pos hopen, if_pos hopen] at hs₂
    obtain ⟨s₃, h₃, hs₃⟩ := hs₂.close hr (Nat.lt_of_le_of_lt hm h)
    refine ⟨s₃, h₁.trans (h₂.trans h₃), ?_⟩
    simpa [sectionLine] using hs₃
  reads := Reader.reads_mapping fun e he => (hes e he).reads

theorem writeSection_eq (name : String) (es : List (String × Leaf)) :
    writeSection name es = (sectionLine name 2 (es.map (entryLine 2))).write 0 := by
  have hentry : writeEntry 1 = fun e => (entryLine 2 e).write 2 := funext (writeEntry_eq 1)
  simp [writeSection, sectionLine, Line.write, spaces, List.flatMap_map, hentry]

end SourceAtlas.Yaml
