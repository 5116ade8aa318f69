import SourceAtlas.Syntax.Cursor
import SourceAtlas.Text.Search

namespace SourceAtlas.Import

open Syntax (Node Tree Cursor Kind)

def isQuoteMark (c : Char) : Bool := c == '\'' || c == '"'

def unquoted (s : List Char) : Option (List Char) :=
  match s with
  | q :: r =>
      match r.getLast? with
      | some e => if isQuoteMark q && isQuoteMark e then some r.dropLast else none
      | none => none
  | [] => none

def literal (t : Tree) (n : Node) : Option String :=
  if n.kind = .text then
    match unquoted (t.textOf n).toList with
    | some (c :: r) => some (String.ofList (c :: r))
    | _ => none
  else none

def isLoader (t : Tree) (callee : Node) : Bool :=
  match callee.kind with
  | .importWord => true
  | .identifier => t.textOf callee == "require"
  | _ => false

def loaded (t : Tree) (call : Node) : Option Node := do
  let callee ← call.child? .function
  if !isLoader t callee then none
  let first ← (← call.child? .arguments).firstNamed?
  if first.kind = .text then some first else none

def sourceOf (t : Tree) (n : Node) : Option Node :=
  match n.kind with
  | .importStatement =>
      (n.child? .source).or
        ((n.children.find? (·.kind = .importRequire)).bind (·.child? .source))
  | .exportStatement => n.child? .source
  | .call => loaded t n
  | _ => none

def specifierOf (t : Tree) (n : Node) : Option String := (sourceOf t n).bind (literal t)

def inTree (t : Tree) : List String := t.root.collect fun c => specifierOf t c.focus

end SourceAtlas.Import
