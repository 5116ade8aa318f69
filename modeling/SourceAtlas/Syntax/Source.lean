import SourceAtlas.Text.Blank

namespace SourceAtlas.Syntax

/-- With `markup`, an angle bracket in front of an operand opens an element, else a type. -/
structure Source where
  chars : Array Char
  markup : Bool

namespace Source

variable (s : Source)

def char (i : Nat) : Char := s.chars.getD i '\x00'

def size : Nat := s.chars.size

def isPlainBlank (c : Char) : Bool := c == ' ' || ('\t' ≤ c && c ≤ '\r')

def isBlank (c : Char) : Bool :=
  Text.isBlank c || c == '\u2060' || c == '\u200B' || c == '\uFEFF'

def isLineEnd (c : Char) : Bool := c == '\n' || c == '\u2028' || c == '\u2029'

def skipWhile (f : Char → Bool) : (fuel : Nat) → Nat → Nat
  | 0, i => i
  | n + 1, i => if i < s.size && f (s.char i) then skipWhile f n (i + 1) else i

def skip (f : Char → Bool) (i : Nat) : Nat := s.skipWhile f (s.size - i) i

def startsWith (t : List Char) (i : Nat) : Bool :=
  match t with
  | [] => true
  | c :: r => s.char i == c && i < s.size && startsWith r (i + 1)

def blockEnd : (fuel : Nat) → Nat → Option Nat
  | 0, _ => none
  | n + 1, i =>
      let c := s.char i
      if c == '\x00' then none
      else if c == '*' && s.char (i + 1) == '/' then some (i + 2)
      else blockEnd n (i + 1)

def lineEnd (i : Nat) : Nat := s.skip (fun c => !isLineEnd c && c != '\r' && c != '\x00') i

def commentEnd? (i : Nat) : Option Nat :=
  if s.char i == '/' && s.char (i + 1) == '/' then some (s.lineEnd (i + 2))
  else if s.char i == '/' && s.char (i + 1) == '*' then s.blockEnd (s.size - i) (i + 2)
  else none

def pageCommentEnd? (i : Nat) : Option Nat :=
  if s.startsWith "<!--".toList i then some (s.lineEnd (i + 4))
  else if s.startsWith "-->".toList i then some (s.lineEnd (i + 3))
  else none

def solidFrom : (fuel : Nat) → Nat → Nat
  | 0, i => i
  | n + 1, i =>
      let j := s.skip isBlank i
      match s.commentEnd? j with
      | some k => solidFrom n k
      | none => j

def solid (i : Nat) : Nat := s.solidFrom (s.size + 1 - i) i

def statementStartFrom : (fuel : Nat) → Nat → Nat
  | 0, i => i
  | n + 1, i =>
      let j := s.solid i
      match s.pageCommentEnd? j with
      | some k => statementStartFrom n k
      | none => j

def statementStart (i : Nat) : Nat := s.statementStartFrom (s.size + 1 - i) i

def commentsFrom (stop : Nat) : (fuel : Nat) → Nat → List (Nat × Nat) → List (Nat × Nat)
  | 0, _, acc => acc
  | n + 1, i, acc =>
      let j := s.skip isBlank i
      if stop ≤ j then acc
      else match (s.commentEnd? j).or (s.pageCommentEnd? j) with
        | some k => commentsFrom stop n k ((j, k) :: acc)
        | none => acc

def comments (start stop : Nat) : List (Nat × Nat) :=
  (s.commentsFrom stop (stop + 1 - start) start []).reverse

def wordBreaks : List Char := ":;`\"'@#.,|^&<=>+-*/\\%?!~()[]\x7b\x7d".toList

def isWordStart (c : Char) : Bool :=
  !(c.toNat < 32 || isBlank c || c.isDigit || wordBreaks.contains c)

def isWordChar (c : Char) : Bool := isWordStart c || c.isDigit

def isHex (c : Char) : Bool := c.isDigit || ('a' ≤ c && c ≤ 'f') || ('A' ≤ c && c ≤ 'F')

def allHex (i n : Nat) : Bool := (List.range n).all fun k => isHex (s.char (i + k))

def codePointEnd? (i : Nat) : Option Nat :=
  if s.char i != 'u' then none
  else if s.char (i + 1) == '\x7b' then
    let j := s.skip isHex (i + 2)
    if i + 2 < j && s.char j == '\x7d' then some (j + 1) else none
  else if s.allHex (i + 1) 4 then some (i + 5) else none

def wordUnit? (ok : Char → Bool) (i : Nat) : Option Nat :=
  if s.size ≤ i then none
  else if ok (s.char i) then some (i + 1)
  else if s.char i == '\\' then s.codePointEnd? (i + 1)
  else none

def wordRest : (fuel : Nat) → Nat → Nat
  | 0, i => i
  | n + 1, i =>
      match s.wordUnit? isWordChar i with
      | some j => wordRest n j
      | none => i

def wordEnd? (i : Nat) : Option Nat :=
  (s.wordUnit? isWordStart i).map fun j => s.wordRest (s.size - j) j

def slice (i j : Nat) : String := String.ofList (s.chars.extract i j).toList

def isOctal (c : Char) : Bool := '0' ≤ c && c ≤ '7'

def escapeEnd? (i : Nat) : Option Nat :=
  let c := s.char (i + 1)
  if c == '\x00' then none
  else if c == 'u' then s.codePointEnd? (i + 1)
  else if c == 'x' then (if s.allHex (i + 2) 2 then some (i + 4) else none)
  else if isOctal c then some (s.skipWhile isOctal 3 (i + 1))
  else if (c == '\r' || c == '?') && isLineEnd (s.char (i + 2)) then some (i + 3)
  else some (i + 2)

def textEndFrom (q : Char) : (fuel : Nat) → Nat → Option Nat
  | 0, _ => none
  | n + 1, i =>
      let c := s.char i
      if c == q then some (i + 1)
      else if c == '\x00' || c == '\n' || c == '\r' then none
      else if c == '\\' then
        match s.escapeEnd? i with
        | some j => textEndFrom q n j
        | none => none
      else textEndFrom q n (i + 1)

def textEnd? (i : Nat) : Option Nat :=
  let q := s.char i
  if q == '"' || q == '\'' then s.textEndFrom q (s.size - i) (i + 1) else none

def brokenTextEndFrom (q : Char) : (fuel : Nat) → Nat → Nat
  | 0, i => i
  | n + 1, i =>
      let c := s.char i
      if s.size ≤ i || c == '\n' || c == '\r' then i
      else if c == q then i + 1
      else if c == '\\' then brokenTextEndFrom q n (i + 2)
      else brokenTextEndFrom q n (i + 1)

def brokenTextEnd? (i : Nat) : Option Nat :=
  let q := s.char i
  if q == '"' || q == '\'' then some (s.brokenTextEndFrom q (s.size - i) (i + 1)) else none

def digitsEnd (ok : Char → Bool) : (fuel : Nat) → Nat → Nat
  | 0, i => i
  | n + 1, i =>
      if ok (s.char i) then digitsEnd ok n (i + 1)
      else if s.char i == '_' && ok (s.char (i + 1)) then digitsEnd ok n (i + 2)
      else i

def digits (ok : Char → Bool) (i : Nat) : Nat :=
  if ok (s.char i) then s.digitsEnd ok (s.size - i) i else i

def exponentEnd (i : Nat) : Nat :=
  if s.char i == 'e' || s.char i == 'E' then
    let j := if s.char (i + 1) == '+' || s.char (i + 1) == '-' then i + 2 else i + 1
    let k := s.digits Char.isDigit j
    if j < k then k else i
  else i

def basedEnd? (i : Nat) : Option Nat :=
  if s.char i != '0' then none
  else
    let ok? : Option (Char → Bool) :=
      match (s.char (i + 1)).toLower with
      | 'x' => some isHex
      | 'o' => some isOctal
      | 'b' => some fun c => c == '0' || c == '1'
      | _ => none
    ok?.bind fun ok =>
      let j := s.digits ok (i + 2)
      if i + 2 < j then some (if s.char j == 'n' then j + 1 else j) else none

def numberEnd? (i : Nat) : Option Nat :=
  match s.basedEnd? i with
  | some j => some j
  | none =>
      let j := s.digits Char.isDigit i
      if i < j then
        if s.char j == 'n' then some (j + 1)
        else if s.char i == '0' && i + 1 < j && !('1' ≤ s.char (i + 1) && s.char (i + 1) ≤ '9') then
          some j
        else if s.char j == '.' then some (s.exponentEnd (s.digits Char.isDigit (j + 1)))
        else some (s.exponentEnd j)
      else if s.char i == '.' && (s.char (i + 1)).isDigit then
        some (s.exponentEnd (s.digits Char.isDigit (i + 1)))
      else none

def patternBodyEnd? : (fuel : Nat) → (inClass : Bool) → Nat → Option Nat
  | 0, _, _ => none
  | n + 1, inClass, i =>
      let c := s.char i
      if c == '\x00' || c == '\n' then none
      else if c == '\\' then
        if s.char (i + 1) == '\n' || s.char (i + 1) == '\x00' then none
        else patternBodyEnd? n inClass (i + 2)
      else if inClass then patternBodyEnd? n (c != ']') (i + 1)
      else if c == '/' then some i
      else patternBodyEnd? n (c == '[') (i + 1)

def patternEnd? (i : Nat) : Option Nat :=
  if s.char i != '/' then none
  else match s.patternBodyEnd? (s.size - i) false (i + 1) with
    | some j => if j = i + 1 then none else some (s.skip Char.isLower (j + 1))
    | none => none

def templateTextEnd? : (fuel : Nat) → Nat → Option Nat
  | 0, _ => none
  | n + 1, i =>
      let c := s.char i
      if c == '`' then some i
      else if c == '\x00' then none
      else if c == '$' && s.char (i + 1) == '\x7b' then some i
      else if c == '\\' then
        match s.escapeEnd? i with
        | some j => templateTextEnd? n j
        | none => none
      else templateTextEnd? n (i + 1)

def operators : List (List Char) :=
  [">>>=", "...", "===", "!==", "**=", "<<=", ">>=", ">>>", "&&=", "||=", "??=", "=>", "==", "!=",
    "<=", ">=", "&&", "||", "??", "++", "--", "+=", "-=", "*=", "/=", "%=", "&=", "|=", "^=", "**",
    "<<", ">>", "?."].map String.toList

def operator (i : Nat) : List Char :=
  (operators.find? fun o => s.startsWith o i).getD [s.char i]

inductive Gap where
  | rejected
  | sameLine (stop : Nat)
  | clear (stop : Nat)

def blockGap : (fuel : Nat) → (broken : Bool) → Nat → Nat × Bool × Bool
  | 0, broken, i => (i, broken, false)
  | n + 1, broken, i =>
      let c := s.char i
      if c == '\x00' then (i, broken, false)
      else if c == '*' && s.char (i + 1) == '/' then (i + 2, broken, true)
      else blockGap n (broken || isLineEnd c) (i + 1)

def gapFrom (whole : Bool) : (fuel : Nat) → (broken : Bool) → Nat → Gap
  | 0, _, i => .clear i
  | n + 1, broken, i =>
      let j := s.skip isPlainBlank i
      if s.char j != '/' then .clear j
      else if s.char (j + 1) == '/' then
        gapFrom whole n broken (s.skip (fun c => !isLineEnd c && c != '\x00') (j + 2))
      else if s.char (j + 1) == '*' then
        let (k, broken, closed) := s.blockGap (s.size - j) broken (j + 2)
        if closed && s.char k != '/' && !whole then (if broken then .clear k else .sameLine k)
        else gapFrom whole n broken k
      else .rejected

def gap (whole : Bool) (i : Nat) : Gap := s.gapFrom whole (s.size + 1 - i) false i

def carriers : List Char := "`,.;*%><=?^|&/:".toList

def isLetter (c : Char) : Bool := c.isAlpha

def endsBeforeWord (i : Nat) : Bool :=
  if s.char (i + 1) != 'n' then true
  else if !isLetter (s.char (i + 2)) then false
  else if s.startsWith "stanceof".toList (i + 2) then isLetter (s.char (i + 10))
  else true

def endsBefore (operators body : Bool) (i : Nat) : Bool :=
  let c := s.char i
  if carriers.contains c && i < s.size then false
  else if c == '\x7b' then !body
  else if c == '(' || c == '[' then !operators
  else if c == '+' then s.char (i + 1) == '+'
  else if c == '-' then s.char (i + 1) == '-'
  else if c == '!' then s.char (i + 1) != '='
  else if c == 'i' then s.endsBeforeWord i
  else true

def endsFrom (operators body : Bool) : (fuel : Nat) → Nat → Bool
  | 0, _ => false
  | n + 1, i =>
      if s.char i == '\x00' then true
      else if s.char i == '/' then
        match s.gap false i with
        | .rejected => false
        | .clear j =>
            if s.char j != ',' && s.char j != '=' then true else after n j
        | .sameLine j => after n j
      else after n i
where
  after (n i : Nat) : Bool :=
    let c := s.char i
    if c == '\x7d' then true
    else if isLineEnd c then
      match s.gap true (i + 1) with
      | .rejected => false
      | .clear j | .sameLine j => s.endsBefore operators body j
    else if isPlainBlank c then endsFrom operators body n (i + 1)
    else false

def ends (operators body : Bool) (i : Nat) : Bool :=
  s.endsFrom operators body (s.size + 2 - i) i

end Source

end SourceAtlas.Syntax
