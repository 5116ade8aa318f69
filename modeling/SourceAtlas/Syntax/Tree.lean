namespace SourceAtlas.Syntax

inductive Kind where
  | program
  | token
  | phrase
  | comment
  | broken
  | identifier
  | text
  | array
  | object
  | member
  | subscript
  | nonNull
  | parenthesized
  | arguments
  | call
  | importWord
  | arrowFunction
  | functionExpression
  | generatorFunction
  | functionDeclaration
  | generatorDeclaration
  | variableDeclarator
  | classDeclaration
  | abstractClassDeclaration
  | classHeritage
  | extendsClause
  | importStatement
  | importRequire
  | exportStatement
  deriving DecidableEq, Repr, Inhabited

inductive Role where
  | name
  | value
  | source
  | function
  | arguments
  deriving DecidableEq, Repr

inductive Node where
  | mk (kind : Kind) (role : Option Role) (start stop : Nat) (children : List Node)
  deriving Repr, Inhabited

namespace Node

def kind : Node → Kind | mk k .. => k

def role : Node → Option Role | mk _ r .. => r

def start : Node → Nat | mk _ _ s .. => s

def stop : Node → Nat | mk _ _ _ s _ => s

def children : Node → List Node | mk _ _ _ _ cs => cs

def inRole (r : Role) : Node → Node | mk k _ s e cs => mk k (some r) s e cs

def isNamed (n : Node) : Bool := n.kind ≠ .token

def leaf (k : Kind) (start stop : Nat) : Node := mk k none start stop []

def child? (n : Node) (r : Role) : Option Node := n.children.find? (·.role = some r)

def firstNamed? (n : Node) : Option Node := n.children.find? isNamed

mutual

def size : Node → Nat
  | mk _ _ _ _ cs => sizes cs + 1

def sizes : List Node → Nat
  | [] => 0
  | n :: r => size n + sizes r

end

mutual

def preorder : Node → List Node
  | mk k r s e cs => mk k r s e cs :: preorders cs

def preorders : List Node → List Node
  | [] => []
  | n :: r => preorder n ++ preorders r

end

mutual

def withComments (between : Nat → Nat → List Node) : Node → Node
  | mk k r s e cs => mk k r s e (spread between none cs)

def spread (between : Nat → Nat → List Node) : Option Nat → List Node → List Node
  | _, [] => []
  | before, n :: rest =>
      (match before with
        | some p => between p n.start
        | none => []) ++ withComments between n :: spread between (some n.stop) rest

end

mutual

def bare : Node → Node
  | mk k r s e cs => mk k r s e (bares cs)

def bares : List Node → List Node
  | [] => []
  | n :: r => if n.kind = .comment then bares r else bare n :: bares r

end

theorem size_pos (n : Node) : 0 < n.size := by cases n; simp [size]

end Node

/-- A source with its tree. `sound` tells that all of it could be read. -/
structure Tree where
  chars : Array Char
  root : Node
  sound : Bool
  deriving Inhabited

def Tree.textOf (t : Tree) (n : Node) : String :=
  String.ofList (t.chars.extract n.start n.stop).toList

end SourceAtlas.Syntax
