import SourceAtlas.Syntax.Cursor
import SourceAtlas.Text.Blank

namespace SourceAtlas

inductive ComponentKind where
  | functional
  | «class»
  deriving DecidableEq, Repr

inductive Binding where
  | arrow
  | function
  | other
  deriving DecidableEq, Repr

inductive Declaration where
  | function (name : String)
  | value (name : String) (bound : Binding)
  | «class» (name : String) (extended : Bool)
  deriving DecidableEq, Repr

namespace Declaration

open Syntax (Node Tree Cursor)

def name : Declaration → String
  | function n | value n _ | «class» n _ => n

def isCapitalized (n : String) : Bool :=
  match n.toList with
  | c :: _ => c.isUpper
  | [] => false

def isFunctional : Declaration → Bool
  | function n => isCapitalized n
  | value n b => isCapitalized n && b ≠ .other
  | «class» .. => false

def isClassComponent : Declaration → Bool
  | «class» n extended => isCapitalized n && extended
  | _ => false

def component (d : Declaration) : Option ComponentKind :=
  if d.isFunctional then some .functional
  else if d.isClassComponent then some .class
  else none

def nameIn (t : Tree) (n : Node) : Option String := do
  let text := t.textOf (← n.child? .name)
  if text.isEmpty then none else some text

mutual

def bindingOf : Node → Binding
  | .mk .parenthesized _ _ _ cs => bindingIn cs
  | .mk .arrowFunction .. => .arrow
  | .mk .functionExpression .. | .mk .generatorFunction .. => .function
  | _ => .other

def bindingIn : List Node → Binding
  | [] => .other
  | n :: r => if n.isNamed then bindingOf n else bindingIn r

end

def isExtended (t : Tree) (n : Node) : Bool :=
  match n.children.find? (·.kind = .classHeritage) with
  | none => false
  | some h =>
      h.children.any (·.kind = .extendsClause) ||
        "extends".toList.isPrefixOf ((t.textOf h).toList.dropWhile Text.isBlank)

def atNode (t : Tree) (parent : Option Node) (n : Node) : Option Declaration :=
  match n.kind with
  | .functionDeclaration | .generatorDeclaration => (nameIn t n).map function
  | .functionExpression =>
      if parent.any (·.kind = .exportStatement) then (nameIn t n).map function else none
  | .variableDeclarator =>
      match n.child? .name with
      | some v =>
          if v.kind = .identifier then
            some (value (t.textOf v) (((n.child? .value).map bindingOf).getD .other))
          else none
      | none => none
  | .classDeclaration | .abstractClassDeclaration =>
      (nameIn t n).map fun name => «class» name (isExtended t n)
  | _ => none

def inTree (t : Tree) : List Declaration :=
  t.root.collect fun c => atNode t c.parent? c.focus

end Declaration

end SourceAtlas
