import Std.Data.HashMap
import SourceAtlas.Syntax.Source
import SourceAtlas.Syntax.Tree

namespace SourceAtlas.Syntax

/-- How a phrase may stop. With `ends` a line break can end the statement after it; with `operators`
it is part of an expression; with `arrowType` a parameter list may be followed by a type. -/
structure Mode where
  ends : Bool
  operators : Bool
  arrowType : Bool
  deriving DecidableEq, Hashable

namespace Mode

def inner : Mode := ⟨false, true, true⟩

def last : Mode := ⟨true, true, true⟩

def lastType : Mode := ⟨true, false, true⟩

end Mode

inductive Rule where
  | statement
  | block
  | expression (m : Mode)
  | operand (m : Mode)
  | type (m : Mode)
  | plainType (m : Mode)
  | pattern
  | classBody
  | objectType
  | element
  | parameters
  | brokenBlock
  | brokenTemplate
  | brokenElement
  deriving DecidableEq, Hashable

structure Progress where
  pos : Nat
  -- the end of the furthest token read so far
  reach : Nat
  known : Std.HashMap (Rule × Nat) (Option (List Node × Nat))

abbrev Parser (α : Type) := Source → Progress → Option α × Progress

namespace Parser

protected def pure {α : Type} (a : α) : Parser α := fun _ p => (some a, p)

protected def bind {α β : Type} (x : Parser α) (f : α → Parser β) : Parser β := fun s p =>
  match x s p with
  | (some a, p) => f a s p
  | (none, p) => (none, p)

instance : Monad Parser where
  pure := Parser.pure
  bind := Parser.bind

def fail {α : Type} : Parser α := fun _ p => (none, p)

def orElse {α : Type} (x y : Parser α) : Parser α := fun s p =>
  let start := p.pos
  match x s p with
  | (some a, p) => (some a, p)
  | (none, p) => y s { p with pos := start }

def position : Parser Nat := fun _ p => (some p.pos, p)

def goto (i : Nat) : Parser Unit := fun _ p => (some (), { p with pos := i })

def accept (i : Nat) : Parser Unit := fun _ p =>
  (some (), { p with pos := i, reach := max p.reach i })

def source : Parser Source := fun s p => (some s, p)

def ahead {α : Type} (x : Parser α) : Parser α := fun s p =>
  let start := p.pos
  match x s p with
  | (r, p) => (r, { p with pos := start })

def notAhead {α : Type} (x : Parser α) : Parser Unit := fun s p =>
  match ahead x s p with
  | (some _, p) => (none, p)
  | (none, p) => (some (), p)

def check (f : Source → Nat → Bool) : Parser Unit := fun s p =>
  if f s p.pos then (some (), p) else (none, p)

end Parser

open SourceAtlas.Syntax.Parser

abbrev Part := Parser (List Node)

namespace Part

def nothing : Part := pure []

def firstOf : List Part → Part
  | [] => fail
  | x :: r => orElse x (firstOf r)

def seq : List Part → Part
  | [] => nothing
  | x :: r => do
      let a ← x
      let b ← seq r
      return a ++ b

def opt (x : Part) : Part := orElse x nothing

def manyFrom (x : Part) : (fuel : Nat) → List (List Node) → Part
  | 0, acc => pure acc.reverse.flatten
  | n + 1, acc => do
      let i ← position
      match ← orElse (some <$> x) (pure none) with
      | some a =>
          let j ← position
          if j ≤ i then pure (a :: acc).reverse.flatten else manyFrom x n (a :: acc)
      | none => pure acc.reverse.flatten

def many (x : Part) : Part := do
  let s ← source
  manyFrom x (s.size + 1) []

def many1 (x : Part) : Part := seq [x, many x]

def sepBy (sep x : Part) : Part := seq [x, many (seq [sep, x])]

def nodeOf (k : Kind) (ns : List Node) : Node :=
  .mk k none ((ns.head?.map Node.start).getD 0) ((ns.getLast?.map Node.stop).getD 0) ns

def group (k : Kind) (parts : List Part) : Part := do
  let ns ← seq parts
  return [nodeOf k ns]

def chain (x : Part) : Part := do
  match ← x with
  | [n] => return [n]
  | ns => return [nodeOf .phrase ns]

def role (r : Role) (x : Part) : Part := do
  return (← x).map (Node.inRole r)

def token (k : Kind) (stop? : Source → Nat → Option Nat) : Part := fun s p =>
  let i := s.solid p.pos
  match stop? s i with
  | some j => (some [Node.leaf k i j], { p with pos := j, reach := max p.reach j })
  | none => (none, p)

def op (t : String) : Part :=
  token .token fun s i => if s.operator i == t.toList then some (i + t.length) else none

def opOf (ts : List (List Char)) : Part :=
  token .token fun s i =>
    let o := s.operator i
    if ts.contains o && i < s.size then some (i + o.length) else none

def sym (t : String) : Part :=
  token .token fun s i => if s.startsWith t.toList i then some (i + t.length) else none

def wordWhere (k : Kind) (ok : String → Bool) : Part :=
  token k fun s i =>
    match s.wordEnd? i with
    | some j => if ok (s.slice i j) then some j else none
    | none => none

def keyword (w : String) : Part := wordWhere .token (· == w)

def anyWord : Part := wordWhere .identifier fun _ => true

def anyText : Part := token .text fun s i => s.textEnd? i

def anyNumber : Part := token .phrase fun s i => s.numberEnd? i

def nextChar : Parser Char := fun s p => (some (s.char (s.solid p.pos)), p)

def peek (x : Part) : Part := do
  let _ ← ahead x
  nothing

def lacks (x : Part) : Part := do
  notAhead x
  nothing

def nextIs (f : Char → Bool) : Part := do
  if f (← nextChar) then nothing else fail

def nextWord : Parser (Option String) := fun s p =>
  let i := s.solid p.pos
  (some ((s.wordEnd? i).map (s.slice i)), p)

def nextWordIs (ok : String → Bool) : Part := do
  match ← nextWord with
  | some w => if ok w then nothing else fail
  | none => fail

def goesOn (m : Mode) : Part := do
  check fun s i => !(m.ends && s.ends m.operators false i)
  nothing

def stop (operators body : Bool) : Part := do
  let s ← source
  let i ← position
  if s.ends operators body i then nothing else op ";"

def endOfExpression : Part := stop true false

def endOfClause : Part := stop false false

def endOfHead : Part := stop false true

end Part

end SourceAtlas.Syntax
