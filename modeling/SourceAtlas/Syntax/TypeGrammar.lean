import SourceAtlas.Syntax.Parser

namespace SourceAtlas.Syntax

abbrev Rules := Rule → Part

namespace TypeGrammar

open SourceAtlas.Syntax.Parser SourceAtlas.Syntax.Part

variable (c : Rules)

def type : Part := c (.type .inner)

def typeMark (m : Mode) : Part := seq [op ":", c (.type m)]

def arguments : Part :=
  group .phrase [op "<", sepBy (sym ",") (type c), opt (sym ","), sym ">"]

def parameter : Part :=
  group .phrase
    [firstOf [seq [keyword "const", anyWord], anyWord],
     opt (seq [firstOf [keyword "extends", op ":"], type c]), opt (seq [op "=", type c])]

def parameters : Part :=
  group .phrase [sym "<", sepBy (sym ",") (parameter c), opt (sym ","), sym ">"]

def result (m : Mode) : Part :=
  firstOf
    [group .phrase [keyword "asserts", lacks (keyword "is"), anyWord,
       opt (seq [keyword "is", c (.type m)])],
     group .phrase [anyWord, goesOn m, keyword "is", c (.type m)],
     c (.type m)]

def signature (m : Mode) : Part :=
  seq [opt (parameters c), c .parameters, opt (seq [op ":", result c m])]

def functionType (m : Mode) : Part :=
  firstOf
    [group .phrase [opt (keyword "abstract"), keyword "new", opt (parameters c), c .parameters,
       op "=>", c (.type m)],
     group .phrase [opt (parameters c), c .parameters, op "=>", result c m]]

def computed : Part := seq [sym "[", c (.expression .inner), sym "]"]

def privateWord : Part := seq [sym "#", anyWord]

def propertyName : Part :=
  firstOf [anyWord, anyText, anyNumber, privateWord, group .phrase [computed c]]

def templateFrom : (fuel : Nat) → (insertion : Part) → Part
  | 0, _ => fail
  | n + 1, insertion => do
      let s ← source
      let i ← position
      match s.templateTextEnd? (s.size + 1 - i) i with
      | none => fail
      | some j =>
          accept j
          let plain := if i < j then [Node.leaf .phrase i j] else []
          if s.char j == '`' then
            accept (j + 1)
            return plain ++ [Node.leaf .token j (j + 1)]
          else
            accept (j + 2)
            let inside ← seq [insertion, sym "\x7d"]
            let rest ← templateFrom n insertion
            return plain ++ nodeOf .phrase (Node.leaf .token j (j + 2) :: inside) :: rest

def template (insertion : Part) : Part := do
  let s ← source
  group .phrase [sym "`", templateFrom (s.size + 1) insertion]

def tupleMember : Part :=
  firstOf
    [group .phrase [opt (sym "..."), anyWord, opt (op "?"), op ":", type c],
     group .phrase [sym "...", type c],
     seq [type c, opt (op "?")]]

def qualified : Part := seq [anyWord, many (seq [op ".", firstOf [anyWord, privateWord]])]

def importCall : Part :=
  group .call
    [role .function (wordWhere .importWord (· == "import")),
     role .arguments (group .arguments
       [sym "(", sepBy (sym ",") (c (.expression .inner)), opt (sym ","), sym ")"])]

def query : Part :=
  seq [firstOf [group .member [importCall c, many1 (seq [op ".", anyWord])], importCall c,
         group .phrase [qualified]],
       opt (arguments c)]

def constraint (m : Mode) : Part := seq [keyword "extends", c (.plainType m)]

def basicWords : List String :=
  ["any", "number", "boolean", "string", "symbol", "void", "unknown", "never", "object", "const"]

def headed (m : Mode) : Part :=
  firstOf
    [functionType c m,
     group .phrase [keyword "keyof", c (.plainType m)],
     group .phrase [keyword "readonly", c (.plainType m)],
     group .phrase [keyword "unique", keyword "symbol"],
     group .phrase [keyword "typeof", query c],
     group .phrase [keyword "infer", anyWord, opt (constraint c m)],
     group .phrase [sym "(", type c, sym ")"],
     c .objectType,
     group .phrase [sym "[", opt (sepBy (sym ",") (tupleMember c)), opt (sym ","), sym "]"],
     group .phrase [firstOf [op "-", op "+"], anyNumber],
     group .phrase [firstOf [group .member [importCall c, many1 (seq [op ".", anyWord])],
       importCall c], opt (arguments c)],
     template (type c),
     anyText,
     anyNumber,
     group .phrase [op "?", c (.plainType m)],
     op "*",
     group .phrase [qualified, firstOf [seq [goesOn m, arguments c], lacks (op "<")]],
     wordWhere .phrase basicWords.contains]

def plainType (m : Mode) : Part :=
  chain (seq [headed c m, many (seq [goesOn m, sym "[", opt (type c), sym "]"])])

def joint : Part := firstOf [op "|", op "&"]

def union (m : Mode) : Part :=
  chain (seq [opt joint, c (.plainType m), many (seq [goesOn m, joint, c (.plainType m)])])

def wholeType (m : Mode) : Part :=
  chain (seq [union c m,
    opt (seq [goesOn m, keyword "extends", union c .inner, op "?", type c, op ":", c (.type m)])])

def beginsName (ch : Char) : Bool :=
  Source.isWordStart ch || ch.isDigit || ch == '\\' || "\"'[#*".toList.contains ch

def modifier (words : List String) : Part :=
  seq [wordWhere .token words.contains, nextIs beginsName]

def modifiers (groups : List (List String)) : Part := seq (groups.map fun ws => opt (modifier ws))

def accessWords : List String := ["public", "private", "protected"]

def memberWords : List (List String) := [accessWords, ["static"], ["override"], ["readonly"]]

def methodWords : Part :=
  seq [modifiers (memberWords ++ [["async"]]),
    opt (firstOf [modifier ["get", "set"], op "*"])]

def indexMember (m : Mode) : Part :=
  group .phrase
    [opt (seq [opt (firstOf [op "-", op "+"]), keyword "readonly"]), sym "[", anyWord,
     firstOf [seq [op ":", type c],
       seq [keyword "in", type c, opt (seq [keyword "as", type c])]],
     sym "]", firstOf [sym "-?:", sym "+?:", sym "?:", op ":"], c (.type m)]

def member (m : Mode) : Part :=
  firstOf
    [indexMember c m,
     group .phrase [opt (keyword "abstract"), keyword "new", opt (parameters c), c .parameters,
       opt (typeMark c m)],
     group .phrase [nextIs (fun ch => ch == '(' || ch == '<'), signature c m],
     group .phrase [methodWords, propertyName c, opt (op "?"), signature c m],
     group .phrase [modifiers memberWords, propertyName c, opt (op "?"), opt (typeMark c m)]]

def separator : Part := firstOf [sym ",", endOfClause]

def objectType : Part :=
  let members := seq [opt (firstOf [sym ",", sym ";"]), sepBy separator (member c .lastType),
    opt separator]
  group .phrase [sym "\x7b", opt members, sym "\x7d"]

end TypeGrammar

end SourceAtlas.Syntax
