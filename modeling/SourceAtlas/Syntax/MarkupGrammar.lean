import SourceAtlas.Syntax.ExpressionGrammar

namespace SourceAtlas.Syntax.MarkupGrammar

open SourceAtlas.Syntax.Parser SourceAtlas.Syntax.Part

variable (c : Rules)

def isTagChar (ch : Char) : Bool := ch.isAlphanum || ch == '_' || ch == '$'

def hyphenatedEnd? (s : Source) (i : Nat) : Option Nat :=
  let k := s.skip isTagChar i
  if s.char k == '-' && i < k && !(s.char i).isDigit then
    some (s.skip (fun ch => isTagChar ch || ch == '-') k)
  else none

def hyphenated : Part := token .identifier hyphenatedEnd?

def tagWord : Part := firstOf [hyphenated, anyWord]

def plainWord : Part := seq [lacks hyphenated, anyWord]

def dottedName : Part := seq [plainWord, many (seq [op ".", anyWord])]

def colonName : Part := seq [tagWord, op ":", tagWord]

def tagName : Part := firstOf [colonName, dottedName, tagWord]

def referenceEnd? (s : Source) (i : Nat) : Option Nat :=
  let closed (first stop most : Nat) : Option Nat :=
    if first < stop && stop ≤ first + most && s.char stop == ';' then some (stop + 1) else none
  if s.char i != '&' then none
  else if s.char (i + 1) == '#' then
    if s.char (i + 2) == 'x' || s.char (i + 2) == 'X' then
      closed (i + 3) (s.skip Source.isHex (i + 3)) 6
    else closed (i + 2) (s.skip Char.isDigit (i + 2)) 5
  else closed (i + 1) (s.skip Char.isAlpha (i + 1)) 30

def valueEndFrom (s : Source) (q : Char) : (fuel : Nat) → Nat → Option Nat
  | 0, _ => none
  | n + 1, i =>
      let ch := s.char i
      if ch == q then some (i + 1)
      else if ch == '\x00' then none
      else if ch == '&' then
        if s.char (i + 1) == '#' || (s.char (i + 1)).isAlpha then
          match referenceEnd? s i with
          | some j => valueEndFrom s q n j
          | none => none
        else valueEndFrom s q n (i + 2)
      else valueEndFrom s q n (i + 1)

def quoted : Part :=
  token .text fun s i =>
    let q := s.char i
    if q == '"' || q == '\'' then valueEndFrom s q (s.size - i) (i + 1) else none

def insertion : Part :=
  group .phrase
    [sym "\x7b", opt (firstOf [ExpressionGrammar.spread c, ExpressionGrammar.sequence c .inner]),
     sym "\x7d"]

def tagAttribute : Part :=
  firstOf
    [insertion c,
     group .phrase
       [firstOf [colonName, tagWord],
        opt (seq [op "=", firstOf [quoted, insertion c, c .element]])]]

def textStops : List Char := "<>&\x7b\x7d\x00".toList

def showsFrom (s : Source) (stop : Nat) : (fuel : Nat) → (atBreak : Bool) → Nat → Bool
  | 0, _, _ => false
  | n + 1, atBreak, i =>
      if stop ≤ i then false
      else
        let ch := s.char i
        if ch == '\n' then showsFrom s stop n true (i + 1)
        else if atBreak && Source.isPlainBlank ch then showsFrom s stop n true (i + 1)
        else true

def plainText : Part := do
  let s ← source
  let i ← position
  let j := s.skip (fun ch => !textStops.contains ch) i
  if showsFrom s j (j - i) false i then
    accept j
    return [Node.leaf .phrase i j]
  else fail

def reference : Part := token .phrase referenceEnd?

def content : Part :=
  many (firstOf [plainText, reference, insertion c, seq [lacks (sym "</"), c .element]])

def openTag : Part :=
  let named := firstOf [colonName, seq [dottedName, opt (TypeGrammar.arguments c)], tagWord]
  seq [op "<", opt (seq [named, many (tagAttribute c)])]

def element : Part :=
  seq [openTag c, firstOf
    [sym "/>",
     seq [sym ">", content c, sym "</", opt tagName, sym ">"]]]

end SourceAtlas.Syntax.MarkupGrammar
