import SourceAtlas.Text.Blank
import SourceAtlas.Text.Search

namespace SourceAtlas.Import

def isQuote (c : Char) : Bool := c == '\'' || c == '"'

def importWord : List Char := "import".toList

def fromWord : List Char := "from".toList

def afterBlanks (s : List Char) : Option (List Char) :=
  match s.takeWhile Text.isBlank with
  | [] => none
  | _ => some (s.dropWhile Text.isBlank)

def quotedText (s : List Char) : Option (List Char × List Char) :=
  match s with
  | [] => none
  | c :: r =>
      if c == '\n' then none
      else
        let inside := r.takeWhile (fun x => !isQuote x && x != '\n')
        match r.dropWhile (fun x => !isQuote x && x != '\n') with
        | q :: rest => if isQuote q then some (c :: inside, rest) else none
        | [] => none

def specifierAt (s : List Char) : Option (List Char × List Char) := do
  let r ← Text.stripPrefix? fromWord s
  match ← afterBlanks r with
  | q :: rest => if isQuote q then quotedText rest else none
  | [] => none

def fromClause (s : List Char) : Option (List Char × List Char) :=
  match specifierAt s with
  | some x => some x
  | none =>
      match s with
      | [] => none
      | c :: r => if c == '\n' then none else fromClause r

def importAt (s : List Char) : Option (List Char × List Char) := do
  fromClause (← afterBlanks (← Text.stripPrefix? importWord s))

def scan : Nat → List Char → List (List Char)
  | 0, _ => []
  | _, [] => []
  | n + 1, c :: r =>
      match importAt (c :: r) with
      | some (spec, rest) => spec :: scan n rest
      | none => scan n r

def specifiers (s : String) : List String :=
  (scan s.toList.length s.toList).map String.ofList

def isRelative (s : String) : Bool := s.toList.head? = some '.'

end SourceAtlas.Import
