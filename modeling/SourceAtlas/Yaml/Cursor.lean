namespace SourceAtlas.Yaml

def isBreak (c : Char) : Bool :=
  c == '\n' || c == '\r' || c == '\u0085' || c == '\u2028' || c == '\u2029'

def isBlank (c : Char) : Bool := c == ' ' || c == '\t'

def isAdmitted (c : Char) : Bool :=
  let n := c.toNat
  n == 0x9 || n == 0xa || n == 0xd || (0x20 ≤ n && n ≤ 0x7e) || n == 0x85 ||
    (0xa0 ≤ n && n ≤ 0xfffd) || 0x10000 ≤ n

def isByteOrderMark (c : Char) : Bool := c.toNat == 0xfeff

structure Cursor where
  rest : List Char
  line : Nat
  column : Nat
  index : Nat
  deriving DecidableEq, Repr

namespace Cursor

def start (s : List Char) : Cursor := ⟨s, 0, 0, 0⟩

def peek (c : Cursor) : Option Char := c.rest.head?

def peekAt (c : Cursor) (n : Nat) : Option Char := c.rest[n]?

def atEnd (c : Cursor) : Bool := c.rest.isEmpty

def at? (c : Cursor) (x : Char) : Bool := c.peek == some x

def whiteAt (c : Cursor) (n : Nat) : Bool :=
  match c.peekAt n with
  | some x => isBlank x || isBreak x
  | none => true

def atBlank (c : Cursor) : Bool := match c.peek with | some x => isBlank x | none => false

def atBreak (c : Cursor) : Bool := match c.peek with | some x => isBreak x | none => false

def atBreakOrEnd (c : Cursor) : Bool := c.atBreak || c.atEnd

def step (c : Cursor) : Cursor :=
  match c.rest with
  | [] => c
  | _ :: r => ⟨r, c.line, c.column + 1, c.index + 1⟩

def steps : Nat → Cursor → Cursor
  | 0, c => c
  | n + 1, c => steps n c.step

def stepLine (c : Cursor) : Cursor :=
  match c.rest with
  | '\r' :: '\n' :: r => ⟨r, c.line + 1, 0, c.index + 2⟩
  | x :: r => if isBreak x then ⟨r, c.line + 1, 0, c.index + 1⟩ else c
  | [] => c

def breakText (c : Cursor) : List Char :=
  match c.peek with
  | some x => if x == '\u2028' || x == '\u2029' then [x] else if isBreak x then ['\n'] else []
  | none => []

def skipWhile (p : Char → Bool) : Nat → Cursor → Cursor
  | 0, c => c
  | n + 1, c =>
      match c.peek with
      | some x => if p x then skipWhile p n c.step else c
      | none => c

def skip (c : Cursor) (p : Char → Bool) : Cursor := c.skipWhile p c.rest.length

def take (c : Cursor) (p : Char → Bool) : List Char × Cursor := (c.rest.takeWhile p, c.skip p)

def startsWith (c : Cursor) (s : List Char) : Bool := s.isPrefixOf c.rest

def atMarker (c : Cursor) (x : Char) : Bool :=
  c.column == 0 && c.startsWith [x, x, x] && c.whiteAt 3

def atDocumentMark (c : Cursor) : Bool := c.atMarker '-' || c.atMarker '.'

end Cursor

end SourceAtlas.Yaml
