import SourceAtlas.Syntax.TypeGrammar

namespace SourceAtlas.Syntax.ExpressionGrammar

open SourceAtlas.Syntax.Parser SourceAtlas.Syntax.Part

variable (c : Rules)

def expression : Part := c (.expression .inner)

def sequence (m : Mode) : Part :=
  chain (seq [c (.expression m), many (seq [goesOn m, sym ",", c (.expression m)])])

def commaList (item : Part) : Part := seq [opt item, many (seq [sym ",", opt item])]

def spread : Part := group .phrase [sym "...", expression c]

def arguments : Part :=
  group .arguments [sym "(", commaList (firstOf [spread c, expression c]), sym ")"]

def valueWords : List String := ["this", "super", "true", "false", "null", "undefined"]

def operandWords : List String :=
  valueWords ++ ["function", "class", "new", "typeof", "void", "delete", "await", "yield", "import"]

def name : Part := wordWhere .identifier fun w => !operandWords.contains w

def initializer (m : Mode) : Part := seq [op "=", c (.expression m)]

def withDefault : Part := seq [c .pattern, opt (initializer c .inner)]

def objectPattern : Part :=
  group .object
    [sym "\x7b",
     commaList (firstOf
       [group .phrase [sym "...", c .pattern],
        group .phrase [TypeGrammar.propertyName c, op ":", withDefault c],
        seq [anyWord, opt (initializer c .inner)]]),
     sym "\x7d"]

def arrayPattern : Part := group .array [sym "[", commaList (withDefault c), sym "]"]

def isTarget : Kind → Bool
  | .identifier | .member | .subscript | .nonNull | .parenthesized | .object | .array => true
  | _ => false

def target (x : Part) : Part := do
  let ns ← x
  if ns.all (fun n => isTarget n.kind) then return ns else fail

def pattern : Part := do
  match ← nextChar with
  | '\x7b' => objectPattern c
  | '[' => arrayPattern c
  | '.' => group .phrase [sym "...", c .pattern]
  | _ => firstOf [
      seq [anyWord, lacks (nextIs fun ch => ch == '.' || ch == '[' || ch == '(')],
      target (c (.operand .inner))]

def decorator : Part :=
  let callee := chain (seq [anyWord, many (seq [op ".", anyWord])])
  let called := group .call
    [role .function callee, opt (TypeGrammar.arguments c), role .arguments (arguments c)]
  group .phrase
    [sym "@", firstOf
      [group .phrase [sym "(", firstOf [called, callee], sym ")"], called, callee]]

def beginsPattern (ch : Char) : Bool :=
  Source.isWordStart ch || ch == '\x7b' || ch == '[' || ch == '.'

def parameterModifier (words : List String) : Part :=
  seq [wordWhere .token words.contains, nextIs beginsPattern]

def parameter : Part :=
  group .phrase
    [many (decorator c),
     opt (parameterModifier TypeGrammar.accessWords), opt (parameterModifier ["override"]),
     opt (parameterModifier ["readonly"]),
     c .pattern, opt (op "?"), opt (TypeGrammar.typeMark c .inner), opt (initializer c .inner)]

def parameters : Part :=
  group .phrase
    [sym "(", opt (seq [sepBy (sym ",") (parameter c), opt (sym ",")]), sym ")"]

def arrowBody (m : Mode) : Part := firstOf [c .block, c (.expression m)]

def arrowHead (m : Mode) : Part :=
  firstOf
    [seq [keyword "async", name, op "=>"],
     seq [name, op "=>"],
     seq [opt (keyword "async"), opt (TypeGrammar.parameters c), c .parameters,
       if m.arrowType then opt (seq [op ":", TypeGrammar.result c .inner]) else nothing, op "=>"]]

def arrow (m : Mode) : Part := group .arrowFunction [arrowHead c m, arrowBody c m]

def functionRest : Part := seq [TypeGrammar.signature c .inner, c .block]

def function : Part :=
  firstOf
    [group .generatorFunction
       [opt (keyword "async"), keyword "function", op "*", opt (role .name anyWord),
        functionRest c],
     group .functionExpression
       [opt (keyword "async"), keyword "function", opt (role .name anyWord), functionRest c]]

def className : Part :=
  role .name (wordWhere .identifier fun w => w != "extends" && w != "implements")

def classRest : Part :=
  seq
    [opt (TypeGrammar.parameters c),
     opt (group .classHeritage
       [firstOf
         [seq
           [group .extendsClause
             [keyword "extends",
              sepBy (sym ",") (seq [expression c, opt (TypeGrammar.arguments c)])],
            opt (seq [keyword "implements", sepBy (sym ",") (TypeGrammar.type c)])],
          seq [keyword "implements", sepBy (sym ",") (TypeGrammar.type c)]]]),
     c .classBody]

def classExpression : Part :=
  group .phrase [many (decorator c), keyword "class", opt className, classRest c]

def array : Part :=
  group .array [sym "[", commaList (firstOf [spread c, expression c]), sym "]"]

def method : Part :=
  group .phrase
    [TypeGrammar.methodWords, TypeGrammar.propertyName c, opt (op "?"), functionRest c]

def object : Part :=
  group .object
    [sym "\x7b",
     commaList (firstOf
       [spread c,
        group .phrase [TypeGrammar.propertyName c, op ":", expression c],
        method c,
        anyWord]),
     sym "\x7d"]

def filled (x : Part) : Part := seq [x, peek (firstOf [op "=", keyword "of", keyword "in"])]

def parenthesized : Part :=
  group .parenthesized
    [sym "(", sequence c .inner, opt (TypeGrammar.typeMark c .inner), sym ")"]

def template : Part := TypeGrammar.template (sequence c .inner)

def search : Part := token .phrase fun s i => s.patternEnd? i

def memberName : Part := firstOf [anyWord, TypeGrammar.privateWord]

def under (k : Kind) (n : Node) (parts : List Part) : Part := do
  return [nodeOf k (n :: (← seq parts))]

def aloneTypeArguments (m : Mode) : Part :=
  seq [TypeGrammar.arguments c, firstOf
    [nextIs fun ch => ")];:,.?&|^=!\x7b\x7d\x00".toList.contains ch,
     nextWordIs (· == "implements"),
     do check (fun s i => m.ends && s.ends true false i); nothing]]

def callTails (n : Node) : List Part :=
  let callee := n.inRole .function
  [under .call callee [role .arguments (arguments c)],
   under .call callee [role .arguments (template c)],
   under .call callee [TypeGrammar.arguments c, role .arguments (arguments c)],
   under .call callee [TypeGrammar.arguments c, role .arguments (template c)],
   under .call callee [op "?.", opt (TypeGrammar.arguments c), role .arguments (arguments c)]]

def memberTails (n : Node) : List Part :=
  [under .member n [op ".", memberName],
   under .subscript n [opt (op "?."), sym "[", sequence c .inner, sym "]"],
   under .member n [op "?.", memberName],
   under .nonNull n [op "!"]]

def tailsFrom (m : Mode) (tails : Node → List Part) : (fuel : Nat) → Node → Part
  | 0, n => pure [n]
  | k + 1, n => do
      match ← orElse (some <$> seq [goesOn m, firstOf (tails n)]) (pure none) with
      | some [t] => tailsFrom m tails k t
      | _ => return [n]

def withTails (m : Mode) (tails : Node → List Part) (x : Part) : Part := do
  let s ← source
  match ← x with
  | [n] => tailsFrom m tails (s.size + 1) n
  | ns => return ns

def metaWord (first second : String) : Part :=
  group .phrase [keyword first, op ".", keyword second]

def constructed : Part :=
  firstOf
    [metaWord "import" "meta", wordWhere .phrase valueWords.contains, parenthesized c,
     function c, classExpression c, array c, object c, anyText, anyNumber, template c, search,
     name]

def creation : Part :=
  firstOf
    [metaWord "new" "target",
     group .phrase
       [keyword "new",
        firstOf
          [withTails .inner (memberTails c) (constructed c),
           group .phrase [nextWordIs (· == "new"), c (.operand .inner)]],
        opt (TypeGrammar.arguments c), opt (arguments c)]]

def importOperand : Part :=
  firstOf
    [metaWord "import" "meta",
     seq [wordWhere .importWord (· == "import"),
       nextIs fun ch => ch == '(' || ch == '.' || ch == '<']]

def wordOperand (m : Mode) : Part := do
  match ← nextWord with
  | some "function" => function c
  | some "class" => classExpression c
  | some "new" => firstOf [
      creation c,
      seq [wordWhere .identifier (· == "new"), lacks (nextIs "([`.".toList.contains)]]
  | some "import" => importOperand
  | some "async" => firstOf [arrow c m, function c, name]
  | some w =>
      if valueWords.contains w then wordWhere .phrase valueWords.contains
      else firstOf [arrow c m, name]
  | none => fail

def angled (m : Mode) : Part := do
  if (← source).markup then firstOf [arrow c m, c .element]
  else firstOf [arrow c m, group .phrase [TypeGrammar.arguments c, c (.operand m)]]

def primary (m : Mode) : Part := do
  let ch ← nextChar
  match ch with
  | '(' => firstOf [arrow c m, parenthesized c]
  | '[' => firstOf [array c, filled (arrayPattern c)]
  | '\x7b' => firstOf [object c, filled (objectPattern c)]
  | '`' => template c
  | '"' | '\'' => anyText
  | '/' => search
  | '<' => angled c m
  | '@' => classExpression c
  | '#' => group .phrase [TypeGrammar.privateWord, peek (keyword "in")]
  | _ => if ch.isDigit || ch == '.' then anyNumber else wordOperand c m

def prefixSigns : List (List Char) := ["!", "~", "+", "-", "++", "--"].map String.toList

def prefixWords : List String := ["typeof", "void", "delete", "await"]

def assignmentSigns : List (List Char) :=
  ["=", "+=", "-=", "*=", "/=", "%=", "**=", "<<=", ">>=", ">>>=", "&=", "|=", "^=", "&&=", "||=",
    "??="].map String.toList

def finish (m : Mode) (x : Part) : Part := do
  match ← x with
  | [n] => firstOf [
      if isTarget n.kind then under .phrase n [goesOn m, opOf assignmentSigns, c (.expression m)]
      else fail,
      under .phrase n [goesOn m, firstOf [op "++", op "--"]],
      pure [n]]
  | ns => return ns

def isSpent (s : Source) (ns : List Node) : Bool :=
  ns.any fun n => n.kind = .arrowFunction &&
    (n.children.getLast?.map fun body => s.char body.start) != some '\x7b'

def tailed (m : Mode) : Part := do
  let ns ← primary c m
  if isSpent (← source) ns then return ns
  else finish c m (withTails m
    (fun n => callTails c n ++ memberTails c n ++ [under .phrase n [aloneTypeArguments c m]])
    (pure ns))

def operand (m : Mode) : Part :=
  firstOf
    [group .phrase [opOf prefixSigns, c (.operand m)],
     group .phrase [wordWhere .token prefixWords.contains, c (.operand m)],
     group .phrase [keyword "yield", opt (seq [goesOn m, opt (op "*"), c (.expression m)])],
     tailed c m]

def binarySigns : List (List Char) :=
  ["+", "-", "*", "/", "%", "**", "<<", ">>", ">>>", "&", "|", "^", "&&", "||", "??", "==", "!=",
    "===", "!==", "<", "<=", ">", ">="].map String.toList

def choice (m : Mode) : Part :=
  seq
    [op "?",
     firstOf
       [seq [expression c, op ":"],
        seq [c (.expression ⟨false, true, false⟩), op ":"]],
     c (.expression m)]

def continuation (m : Mode) : Part :=
  seq [goesOn m, firstOf
    [seq [opOf binarySigns, c (.operand m)],
     seq [firstOf [keyword "in", keyword "instanceof"], c (.operand m)],
     seq [firstOf [keyword "as", keyword "satisfies"], c (.type m)],
     choice c m]]

def wholeExpression (m : Mode) : Part := chain (seq [c (.operand m), many (continuation c m)])

end SourceAtlas.Syntax.ExpressionGrammar
