import SourceAtlas.Yaml.Cursor

namespace SourceAtlas.Yaml

inductive ScalarStyle where
  | plain
  | singleQuoted
  | doubleQuoted
  | literal
  | folded
  deriving DecidableEq, Repr

structure Gap where
  blanks : List Char
  first : List Char
  more : List Char
  broken : Bool
  deriving Repr

def Gap.none : Gap := ⟨[], [], [], false⟩

def Gap.isEmpty (g : Gap) : Bool := !g.broken && g.blanks.isEmpty

/-- A single break becomes a space, further breaks are kept. -/
def Gap.text (g : Gap) : List Char :=
  if g.broken then
    match g.first with
    | ['\n'] => if g.more.isEmpty then [' '] else g.more
    | _ => g.first ++ g.more
  else g.blanks

def readGap (tabLimit : Nat) : Nat → Cursor → Gap → Option (Gap × Cursor)
  | 0, c, g => some (g, c)
  | n + 1, c, g =>
      if c.atBlank then
        if g.broken && c.column < tabLimit && c.at? '\t' then none
        else if g.broken then readGap tabLimit n c.step g
        else readGap tabLimit n c.step { g with blanks := g.blanks ++ c.peek.toList }
      else if c.atBreak then
        if g.broken then readGap tabLimit n c.stepLine { g with more := g.more ++ c.breakText }
        else readGap tabLimit n c.stepLine ⟨[], c.breakText, [], true⟩
      else some (g, c)

def gapAt (tabLimit : Nat) (c : Cursor) (g : Gap) : Option (Gap × Cursor) :=
  readGap tabLimit (c.rest.length + 1) c g

def isFlowMark (x : Option Char) : Bool :=
  match x with
  | some x => x == ',' || x == '[' || x == ']' || x == '\x7b' || x == '\x7d'
  | none => false

def plainEnds (inFlow : Bool) (c : Cursor) : Option Bool :=
  if inFlow && c.at? ':' && (isFlowMark (c.peekAt 1) || c.peekAt 1 == some '?') then none
  else some ((c.at? ':' && c.whiteAt 1) || (inFlow && isFlowMark c.peek))

def plainWord (inFlow : Bool) : Nat → Cursor → List Char → Option (List Char × Cursor)
  | 0, c, acc => some (acc, c)
  | n + 1, c, acc =>
      if c.whiteAt 0 then some (acc, c)
      else match plainEnds inFlow c with
        | none => none
        | some true => some (acc, c)
        | some false => plainWord inFlow n c.step (acc ++ c.peek.toList)

def plainFrom (inFlow : Bool) (indent : Nat) :
    Nat → Cursor → Gap → List Char → Option (List Char × Bool × Cursor)
  | 0, c, g, acc => some (acc, g.broken, c)
  | n + 1, c, g, acc =>
      if c.atDocumentMark || c.at? '#' then some (acc, g.broken, c)
      else do
        let (word, c1) ← plainWord inFlow (c.rest.length + 1) c []
        let (acc1, g1) := if word.isEmpty then (acc, g) else (acc ++ g.text ++ word, Gap.none)
        if !(c1.atBlank || c1.atBreak) then return (acc1, g1.broken, c1)
        let (g2, c2) ← gapAt indent c1 g1
        if !inFlow && c2.column < indent then return (acc1, g2.broken, c2)
        plainFrom inFlow indent n c2 g2 acc1

def readPlain (inFlow : Bool) (indent : Nat) (c : Cursor) :
    Option (List Char × Bool × Cursor) :=
  plainFrom inFlow indent (c.rest.length + 1) c Gap.none []

def hexValue (x : Char) : Option Nat :=
  if '0' ≤ x ∧ x ≤ '9' then some (x.toNat - '0'.toNat)
  else if 'a' ≤ x ∧ x ≤ 'f' then some (x.toNat - 'a'.toNat + 10)
  else if 'A' ≤ x ∧ x ≤ 'F' then some (x.toNat - 'A'.toNat + 10)
  else none

def hexNumber (digits : List Char) : Option Nat :=
  digits.foldlM (fun n x => (hexValue x).map (n * 16 + ·)) 0

def isScalarValue (n : Nat) : Bool := n < 0xd800 || (0xdfff < n && n ≤ 0x10ffff)

def shortEscapes : List (Char × Char) :=
  [('0', '\x00'), ('a', '\x07'), ('b', '\x08'), ('t', '\t'), ('\t', '\t'), ('n', '\n'),
   ('v', '\x0b'), ('f', '\x0c'), ('r', '\r'), ('e', '\x1b'), (' ', ' '), ('"', '"'), ('/', '/'),
   ('\\', '\\'), ('N', '\u0085'), ('_', '\u00a0'), ('L', '\u2028'), ('P', '\u2029')]

def longEscapes : List (Char × Nat) := [('x', 2), ('u', 4), ('U', 8)]

def readEscape (c : Cursor) : Option (Char × Cursor) := do
  let x ← c.peek
  match shortEscapes.lookup x with
  | some y => some (y, c.step)
  | none =>
      let width ← longEscapes.lookup x
      let digits := c.step.rest.take width
      if digits.length < width then none
      else
        let n ← hexNumber digits
        if isScalarValue n then some (Char.ofNat n, c.step.steps width) else none

structure QuotedWord where
  text : List Char
  next : Cursor
  -- the word ended in an escaped line break
  joined : Bool

def quotedWord (single : Bool) : Nat → Cursor → List Char → Option QuotedWord
  | 0, c, acc => some ⟨acc, c, false⟩
  | n + 1, c, acc =>
      if c.whiteAt 0 then some ⟨acc, c, false⟩
      else if single then
        if c.startsWith ['\'', '\''] then quotedWord single n (c.steps 2) (acc ++ ['\''])
        else if c.at? '\'' then some ⟨acc, c, false⟩
        else quotedWord single n c.step (acc ++ c.peek.toList)
      else if c.at? '"' then some ⟨acc, c, false⟩
      else if c.at? '\\' then
        if c.step.atBreak then some ⟨acc, c.step.stepLine, true⟩
        else do
          let (x, c1) ← readEscape c.step
          quotedWord single n c1 (acc ++ [x])
      else quotedWord single n c.step (acc ++ c.peek.toList)

def quotedFrom (single : Bool) : Nat → Cursor → List Char → Option (List Char × Cursor)
  | 0, _, _ => none
  | n + 1, c, acc =>
      if c.atDocumentMark || c.atEnd then none
      else do
        let w ← quotedWord single (c.rest.length + 1) c acc
        if w.next.at? (if single then '\'' else '"') then return (w.text, w.next.step)
        let g0 := if w.joined then ⟨[], [], [], true⟩ else Gap.none
        let (g, c1) ← gapAt 0 w.next g0
        quotedFrom single n c1 (w.text ++ g.text)

def readQuoted (single : Bool) (c : Cursor) : Option (List Char × Cursor) :=
  quotedFrom single (c.rest.length + 1) c []

inductive Chomping where
  | strip
  | clip
  | keep
  deriving DecidableEq, Repr

structure BlockHeader where
  chomping : Chomping
  indent : Option Nat
  next : Cursor

def readChomping (c : Cursor) : Option Chomping × Cursor :=
  if c.at? '+' then (some .keep, c.step)
  else if c.at? '-' then (some .strip, c.step)
  else (none, c)

def readIndent (c : Cursor) : Option (Option Nat × Cursor) :=
  match c.peek with
  | some x =>
      if x == '0' then none
      else if x.isDigit then some (some (x.toNat - '0'.toNat), c.step)
      else some (none, c)
  | none => some (none, c)

def skipComment (c : Cursor) : Cursor :=
  if c.at? '#' then c.skip (fun x => !isBreak x) else c

def readBlockHeader (c : Cursor) : Option BlockHeader := do
  let (first, c1) := readChomping c
  let (indent, c2) ← readIndent c1
  let (second, c3) :=
    if first.isNone && indent.isSome then readChomping c2 else (none, c2)
  let c4 := skipComment (c3.skip isBlank)
  if !c4.atBreakOrEnd then none
  else some ⟨(first <|> second).getD .clip, indent, c4.stepLine⟩

def blockBreaks (indent : Option Nat) :
    Nat → Cursor → List Char → Nat → Option (List Char × Nat × Cursor)
  | 0, c, acc, deepest => some (acc, deepest, c)
  | n + 1, c, acc, deepest =>
      let c1 := match indent with
        | some k => c.skipWhile (· == ' ') (k - c.column)
        | none => c.skip (· == ' ')
      let deepest1 := max deepest c1.column
      let shallow := match indent with
        | some k => decide (c1.column < k)
        | none => true
      if shallow && c1.at? '\t' then none
      else if c1.atBreak then blockBreaks indent n c1.stepLine (acc ++ c1.breakText) deepest1
      else some (acc, deepest1, c1)

structure BlockState where
  text : List Char
  first : List Char
  more : List Char
  afterBlank : Bool

def blockLines (literal : Bool) (indent : Nat) :
    Nat → Cursor → BlockState → Option (BlockState × Cursor)
  | 0, c, s => some (s, c)
  | n + 1, c, s =>
      if c.column != indent || c.atEnd then some (s, c)
      else do
        let blank := c.atBlank
        let join :=
          if !literal && s.first == ['\n'] && !s.afterBlank && !blank then
            if s.more.isEmpty then [' '] else s.more
          else s.first ++ s.more
        let (line, c1) := c.take (fun x => !isBreak x)
        let (more, _, c2) ← blockBreaks (some indent) (c1.rest.length + 1) c1.stepLine [] 0
        blockLines literal indent n c2 ⟨s.text ++ join ++ line, c1.breakText, more, blank⟩

def readBlock (literal : Bool) (around : Option Nat) (c : Cursor) :
    Option (List Char × Cursor) := do
  let h ← readBlockHeader c
  let given := h.indent.map (fun k => around.getD 0 + k)
  let (more, deepest, c1) ← blockBreaks given (h.next.rest.length + 1) h.next [] 0
  let least := match around with
    | some k => k + 1
    | none => 1
  let indent := given.getD (max deepest (max least 1))
  let (s, c2) ← blockLines literal indent (c1.rest.length + 1) c1 ⟨[], [], more, false⟩
  let ending := match h.chomping with
    | .strip => []
    | .clip => s.first
    | .keep => s.first ++ s.more
  return (s.text ++ ending, c2)

end SourceAtlas.Yaml
