import SourceAtlas.Yaml.Scalar

namespace SourceAtlas.Yaml

inductive Token where
  | versionDirective
  | tagDirective (handle : List Char)
  | documentStart
  | documentEnd
  | blockSequenceStart
  | blockMappingStart
  | blockEnd
  | flowSequenceStart
  | flowSequenceEnd
  | flowMappingStart
  | flowMappingEnd
  | blockEntry
  | flowEntry
  | key
  | value
  | alias (name : List Char)
  | anchor (name : List Char)
  | tag (handle suffix : List Char)
  | scalar (text : List Char) (style : ScalarStyle)
  deriving DecidableEq, Repr

inductive Piece where
  | token (t : Token)
  | slot (n : Nat)
  deriving Repr

structure KeyStart where
  slot : Nat
  required : Bool
  line : Nat
  column : Nat
  index : Nat
  deriving Repr

structure Scanner where
  at_ : Cursor
  pieces : List Piece
  filled : List (Nat × Bool)
  slots : Nat
  indents : List Nat
  keys : List (Option KeyStart)
  keyAllowed : Bool

namespace Scanner

def start (s : List Char) : Scanner := ⟨Cursor.start s, [], [], 0, [], [none], true⟩

def indent (s : Scanner) : Option Nat := s.indents.head?

def inFlow (s : Scanner) : Bool := 1 < s.keys.length

def push (s : Scanner) (t : Token) : Scanner := { s with pieces := .token t :: s.pieces }

def moveTo (s : Scanner) (c : Cursor) : Scanner := { s with at_ := c }

def column (s : Scanner) : Nat := s.at_.column

def dropKey (s : Scanner) : Option Scanner :=
  match s.keys with
  | some k :: r => if k.required then none else some { s with keys := none :: r }
  | _ => some s

def maxKeyLength : Nat := 1024

def isStale (c : Cursor) (k : KeyStart) : Bool :=
  decide (k.line < c.line) || decide (k.index + maxKeyLength < c.index)

def dropStale (s : Scanner) : Option Scanner := do
  let keys ← s.keys.mapM fun k =>
    match k with
    | some k => if isStale s.at_ k then (if k.required then none else some none) else some (some k)
    | none => some none
  return { s with keys := keys }

def saveKey (s : Scanner) : Option Scanner :=
  if s.keyAllowed then do
    let s ← s.dropKey
    let required := !s.inFlow && s.indent == some s.column
    let k : KeyStart := ⟨s.slots, required, s.at_.line, s.column, s.at_.index⟩
    return { s with
      keys := some k :: s.keys.tail
      pieces := .slot s.slots :: s.pieces
      slots := s.slots + 1 }
  else some s

def closeBlocks (column : Option Nat) : List Nat → List Piece → List Nat × List Piece
  | [], ps => ([], ps)
  | i :: r, ps =>
      let deeper := match column with
        | some c => decide (c < i)
        | none => true
      if deeper then closeBlocks column r (.token .blockEnd :: ps) else (i :: r, ps)

def unroll (s : Scanner) (column : Option Nat) : Scanner :=
  if s.inFlow then s
  else
    let (indents, pieces) := closeBlocks column s.indents s.pieces
    { s with indents := indents, pieces := pieces }

def opens (s : Scanner) (column : Nat) : Bool :=
  !s.inFlow && match s.indent with
    | some i => decide (i < column)
    | none => true

def roll (s : Scanner) (column : Nat) (t : Token) : Scanner :=
  if s.opens column then { s.push t with indents := column :: s.indents } else s

def openFlow (s : Scanner) : Scanner := { s with keys := none :: s.keys }

def closeFlow (s : Scanner) : Scanner := if s.inFlow then { s with keys := s.keys.tail } else s

def allowKey (s : Scanner) (b : Bool) : Scanner := { s with keyAllowed := b }

def skipToToken : Nat → Scanner → Scanner
  | 0, s => s
  | n + 1, s =>
      let c0 := if s.at_.column == 0 && (s.at_.peek.map isByteOrderMark).getD false
        then s.at_.step else s.at_
      let tabs := s.inFlow || !s.keyAllowed
      let c1 := c0.skip (fun x => x == ' ' || (tabs && x == '\t'))
      let c2 := skipComment c1
      if c2.atBreak then
        skipToToken n { s with
          at_ := c2.stepLine
          keyAllowed := if s.inFlow then s.keyAllowed else true }
      else s.moveTo c2

def isNameChar (x : Char) : Bool := x.isAlphanum || x == '_' || x == '-'

def readTagHandle (directive : Bool) (c : Cursor) : Option (List Char × Cursor) :=
  if !c.at? '!' then none
  else
    let (name, c1) := c.step.take isNameChar
    if c1.at? '!' then some ('!' :: name ++ ['!'], c1.step)
    else if directive && !name.isEmpty then none
    else some ('!' :: name, c1)

def isUriChar (brackets : Bool) (x : Char) : Bool :=
  isNameChar x || ";/?:@&=+$.!~*'()%".toList.contains x || (brackets && ",[]".toList.contains x)

def readUri (brackets : Bool) (head : List Char) (c : Cursor) : Option (List Char × Cursor) :=
  let (text, c1) := c.take (isUriChar brackets)
  let all := head.drop 1 ++ text
  if head.isEmpty && text.isEmpty then none else some (all, c1)

def readTag (inFlow : Bool) (c : Cursor) : Option (Token × Cursor) := do
  let (t, c1) ←
    if c.peekAt 1 == some '<' then do
      let (suffix, c1) ← readUri true [] (c.steps 2)
      if c1.at? '>' then some (Token.tag [] suffix, c1.step) else none
    else do
      let (handle, c1) ← readTagHandle false c
      if 1 < handle.length && handle.getLast? == some '!' then do
        let (suffix, c2) ← readUri false [] c1
        some (Token.tag handle suffix, c2)
      else do
        let (suffix, c2) ← readUri false handle c1
        if suffix.isEmpty then some (Token.tag [] ['!'], c2)
        else some (Token.tag ['!'] suffix, c2)
  if c1.whiteAt 0 || (inFlow && c1.at? ',') then some (t, c1) else none

def readAnchorName (c : Cursor) : Option (List Char × Cursor) :=
  let (name, c1) := c.step.take isNameChar
  let ended := c1.whiteAt 0 || match c1.peek with
    | some x => "?:,]\x7d%@`".toList.contains x
    | none => true
  if name.isEmpty || !ended then none else some (name, c1)

def readVersionNumber (known : List Char) (c : Cursor) : Option Cursor :=
  let (digits, c1) := c.take Char.isDigit
  if digits.isEmpty || 9 < digits.length then none
  else match digits.dropWhile (· == '0') with
    | [d] => if known.contains d then some c1 else none
    | _ => none

def readDirective (c : Cursor) : Option (Token × Cursor) := do
  let (name, c1) := c.step.take isNameChar
  if name.isEmpty || !c1.whiteAt 0 then none
  else
    let (t, c2) ←
      if name == "YAML".toList then do
        let c2 ← readVersionNumber ['1'] (c1.skip isBlank)
        let c3 ← if c2.at? '.' then readVersionNumber ['1', '2'] c2.step else none
        some (Token.versionDirective, c3)
      else if name == "TAG".toList then do
        let (handle, c2) ← readTagHandle true (c1.skip isBlank)
        if !c2.atBlank then none
        else do
          let (_, c3) ← readUri true [] (c2.skip isBlank)
          if c3.whiteAt 0 then some (Token.tagDirective handle, c3) else none
      else none
    let c3 := skipComment (c2.skip isBlank)
    if c3.atBreakOrEnd then some (t, c3.stepLine) else none

def indicator (s : Scanner) (t : Token) (width : Nat) : Scanner :=
  (s.push t).moveTo (s.at_.steps width)

def fetchValue (s : Scanner) : Option Scanner :=
  match s.keys with
  | some k :: r =>
      let opens := s.opens k.column
      let s := { s with
        keys := none :: r
        filled := (k.slot, opens) :: s.filled
        indents := if opens then k.column :: s.indents else s.indents }
      some ((s.allowKey false).indicator .value 1)
  | _ =>
      if s.inFlow then some ((s.allowKey false).indicator .value 1)
      else if !s.keyAllowed then none
      else some (((s.roll s.column .blockMappingStart).allowKey true).indicator .value 1)

def isPlainStart (inFlow : Bool) (c : Cursor) : Bool :=
  match c.peek with
  | none => false
  | some x =>
      if x == '-' then !(match c.peekAt 1 with | some y => isBlank y | none => false)
      else if x == '?' || x == ':' then !inFlow && !c.whiteAt 1
      else !(c.whiteAt 0 || ",[]\x7b\x7d#&*!|>'\"%@`".toList.contains x)

def fetchScalar (s : Scanner) (text : List Char) (style : ScalarStyle) (c : Cursor) : Scanner :=
  (s.push (.scalar text style)).moveTo c

def fetch (s : Scanner) : Option Scanner := do
  let c := s.at_
  let x ← c.peek
  if c.column == 0 && x == '%' then
    let s ← (s.unroll none).dropKey
    let (t, c1) ← readDirective c
    return ((s.allowKey false).push t).moveTo c1
  if c.atMarker '-' then
    return (((← (s.unroll none).dropKey).allowKey false).indicator .documentStart 3)
  if c.atMarker '.' then
    return (((← (s.unroll none).dropKey).allowKey false).indicator .documentEnd 3)
  if x == '[' then
    return (((← s.saveKey).openFlow.allowKey true).indicator .flowSequenceStart 1)
  if x == '\x7b' then
    return (((← s.saveKey).openFlow.allowKey true).indicator .flowMappingStart 1)
  if x == ']' then
    return (((← s.dropKey).closeFlow.allowKey false).indicator .flowSequenceEnd 1)
  if x == '\x7d' then
    return (((← s.dropKey).closeFlow.allowKey false).indicator .flowMappingEnd 1)
  if x == ',' then
    return (((← s.dropKey).allowKey true).indicator .flowEntry 1)
  if x == '-' && c.whiteAt 1 then
    if !s.inFlow && !s.keyAllowed then none
    let s ← (s.roll s.column .blockSequenceStart).dropKey
    return ((s.allowKey true).indicator .blockEntry 1)
  if x == '?' && (s.inFlow || c.whiteAt 1) then
    if !s.inFlow && !s.keyAllowed then none
    let s ← (s.roll s.column .blockMappingStart).dropKey
    return ((s.allowKey (!s.inFlow)).indicator .key 1)
  if x == ':' && (s.inFlow || c.whiteAt 1) then
    return (← s.fetchValue)
  if x == '*' then
    let (name, c1) ← readAnchorName c
    return (((← s.saveKey).allowKey false).push (.alias name)).moveTo c1
  if x == '&' then
    let (name, c1) ← readAnchorName c
    return (((← s.saveKey).allowKey false).push (.anchor name)).moveTo c1
  if x == '!' then
    let (t, c1) ← readTag s.inFlow c
    return (((← s.saveKey).allowKey false).push t).moveTo c1
  if (x == '|' || x == '>') && !s.inFlow then
    let s ← s.dropKey
    let (text, c1) ← readBlock (x == '|') s.indent c.step
    return (s.allowKey true).fetchScalar text (if x == '|' then .literal else .folded) c1
  if x == '\'' || x == '"' then
    let (text, c1) ← readQuoted (x == '\'') c.step
    return ((← s.saveKey).allowKey false).fetchScalar text
      (if x == '\'' then .singleQuoted else .doubleQuoted) c1
  if isPlainStart s.inFlow c then
    let s ← s.saveKey
    let least := match s.indent with
      | some i => i + 1
      | none => 0
    let (text, broken, c1) ← readPlain s.inFlow least c
    return (s.allowKey broken).fetchScalar text .plain c1
  none

def run : Nat → Scanner → Option Scanner
  | 0, _ => none
  | n + 1, s => do
      let s := s.skipToToken (s.at_.rest.length + 1)
      let s ← s.dropStale
      let s := s.unroll (some s.column)
      if s.at_.atEnd then
        (s.unroll none).dropKey
      else run n (← s.fetch)

end Scanner

def linearise (filled : List (Nat × Bool)) (pieces : List Piece) : List Token :=
  pieces.flatMap fun
    | .token t => [t]
    | .slot n =>
        match filled.lookup n with
        | some true => [.blockMappingStart, .key]
        | some false => [.key]
        | none => []

def tokens? (s : List Char) : Option (List Token) :=
  if s.all isAdmitted then
    match (Scanner.start s).run (s.length + 2) with
    | some r => some (linearise r.filled r.pieces.reverse)
    | none => none
  else none

end SourceAtlas.Yaml
