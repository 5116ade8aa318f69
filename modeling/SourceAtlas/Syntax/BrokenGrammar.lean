import SourceAtlas.Syntax.MarkupGrammar
import SourceAtlas.Syntax.StatementGrammar

/-!
What is read of a statement that cannot be read as a whole. Its sound operands stand, and texts,
templates and what lies between tags are not taken for code. The limit: a parser that weighs ways to
recover against each other may also skip a sound piece next to an error; here every sound piece counts.
-/

namespace SourceAtlas.Syntax.BrokenGrammar

open SourceAtlas.Syntax.Parser SourceAtlas.Syntax.Part

variable (c : Rules)

def skipOver (x : Part) : Part := do
  let _ ← x
  nothing

def clauseWords : List String :=
  StatementGrammar.statementWords ++
    ["else", "case", "default", "in", "of", "instanceof", "extends", "implements", "as"]

def clause : Part :=
  firstOf
    [group .importStatement [StatementGrammar.importHead],
     group .exportStatement [keyword "export", StatementGrammar.exportFrom],
     seq [lacks (nextWordIs clauseWords.contains), c (.operand .inner)]]

def divider : Part := opt (skipOver (firstOf [op "/", op "<"]))

/-- A quote that nothing closes takes the rest of its line with it. -/
def anyToken : Part := fun s p =>
  let i := s.solid p.pos
  if s.size ≤ i then (none, p)
  else
    let j := ((s.wordEnd? i).or ((s.textEnd? i).or
      ((s.brokenTextEnd? i).or (s.numberEnd? i)))).getD (i + 1)
    (some [], { p with pos := j, reach := max p.reach j })

def step : Part := firstOf [seq [skipOver (firstOf [sym ")", sym "]"]), divider], anyToken]

def scrap : Part :=
  firstOf
    [seq [clause c, divider], c .brokenBlock, c .brokenTemplate, c .brokenElement,
     seq [lacks (nextIs "\x7b\x7d".toList.contains), step]]

def block : Part := seq [skipOver (sym "\x7b"), many (scrap c), skipOver (sym "\x7d")]

def templateText : Part := do
  let s ← source
  let i ← position
  match s.templateTextEnd? (s.size + 1 - i) i with
  | some j => if i < j then accept j; nothing else fail
  | none => fail

/-- Behind its last insertion a template that nothing closes is over. -/
def template : Part :=
  let insertion := seq [skipOver (sym "$\x7b"), many (scrap c), skipOver (sym "\x7d")]
  seq [skipOver (sym "`"), many (firstOf [templateText, insertion]), opt (skipOver (sym "`"))]

def straySign : Part := skipOver (firstOf [sym "&", sym ">", sym "\x7d"])

def content : Part :=
  many (firstOf
    [MarkupGrammar.plainText, MarkupGrammar.reference, MarkupGrammar.insertion c, c .brokenBlock,
     seq [lacks (sym "</"), firstOf [c .element, c .brokenElement]], straySign])

/-- Without a closing tag an element is over at the first sign that does not belong there. -/
def element : Part := do
  if (← source).markup then
    seq [MarkupGrammar.openTag c, sym ">",
      firstOf
        [seq [content c, sym "</", opt MarkupGrammar.tagName, sym ">"], MarkupGrammar.content c]]
  else fail

end SourceAtlas.Syntax.BrokenGrammar
