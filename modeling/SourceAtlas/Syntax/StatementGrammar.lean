import SourceAtlas.Syntax.ExpressionGrammar

namespace SourceAtlas.Syntax.StatementGrammar

open SourceAtlas.Syntax.Parser SourceAtlas.Syntax.Part

variable (c : Rules)

def statement : Part := c .statement

def condition : Part := ExpressionGrammar.parenthesized c

def lastSequence : Part := ExpressionGrammar.sequence c .last

def statementWords : List String :=
  ["if", "for", "while", "do", "switch", "try", "with", "break", "continue", "debugger", "return",
    "throw", "var", "const", "enum", "interface", "abstract"]

def expressionStatement : Part :=
  group .phrase
    [lacks (nextWordIs statementWords.contains), lacks exportSign, lastSequence c,
     endOfExpression]
where
  -- The word is no name in front of a sign that goes on to tell what is exported.
  exportSign : Part := seq [keyword "export", nextIs "*=\x7b".toList.contains]

def labeled : Part := group .phrase [ExpressionGrammar.name, op ":", statement c]

def binding : Part :=
  firstOf [anyWord, ExpressionGrammar.objectPattern c, ExpressionGrammar.arrayPattern c]

def declarator : Part :=
  firstOf
    [group .variableDeclarator [role .name anyWord, op "!", TypeGrammar.typeMark c .lastType],
     group .variableDeclarator
       [role .name (binding c), opt (TypeGrammar.typeMark c .lastType),
        opt (seq [op "=", role .value (c (.expression .last))])]]

def declaratorsEnd (ns : List Node) : Part :=
  let valued := (ns.getLast?.bind (·.child? .value)).isSome
  if valued then endOfExpression else endOfClause

def variableLists : Part := do
  let ns ← seq
    [firstOf [keyword "const", seq [keyword "let", goesOn .last], keyword "var"],
     sepBy (op ",") (declarator c)]
  let stop ← declaratorsEnd ns
  return [nodeOf .phrase (ns ++ stop)]

def block : Part := group .phrase [sym "\x7b", many (statement c), pageEnd, sym "\x7d"]
where
  -- Comments of the page may also stand behind the last statement.
  pageEnd : Part := do
    goto ((← source).statementStart (← position))
    nothing

def headSignature : Part := TypeGrammar.signature c .lastType

def functionDeclaration : Part :=
  let head := seq [opt (keyword "async"), keyword "function"]
  let name := role .name anyWord
  firstOf
    [group .generatorDeclaration [head, op "*", name, headSignature c, c .block],
     group .functionDeclaration [head, name, headSignature c, c .block],
     group .phrase [head, name, headSignature c, endOfHead]]

def decorators : Part := many (ExpressionGrammar.decorator c)

def classDeclaration : Part :=
  let name := ExpressionGrammar.className
  let rest := ExpressionGrammar.classRest c
  firstOf
    [group .classDeclaration [decorators c, keyword "class", name, rest],
     group .abstractClassDeclaration
       [decorators c, keyword "abstract", keyword "class", name, rest]]

def enumeration : Part :=
  let entry := seq [TypeGrammar.propertyName c, opt (ExpressionGrammar.initializer c .inner)]
  group .phrase
    [opt (keyword "const"), keyword "enum", anyWord, sym "\x7b",
     opt (seq [sepBy (sym ",") entry, opt (sym ",")]), sym "\x7d"]

def interfaceDeclaration : Part :=
  group .phrase
    [keyword "interface", anyWord, opt (TypeGrammar.parameters c),
     opt (seq [keyword "extends", sepBy (sym ",") parent]), c .objectType]
where
  parent : Part := seq [TypeGrammar.qualified, opt (TypeGrammar.arguments c)]

def typeDeclaration : Part :=
  group .phrase
    [keyword "type", goesOn .last, anyWord, opt (TypeGrammar.parameters c), op "=",
     c (.type .lastType),
     endOfClause]

def dottedName : Part := seq [anyWord, many (seq [op ".", anyWord])]

def space : Part :=
  group .phrase
    [firstOf [keyword "namespace", keyword "module"], goesOn .last, firstOf [anyText, dottedName],
     opt (c .block)]

def importAlias : Part := group .phrase [keyword "import", anyWord, op "=", dottedName, endOfClause]

def undeclared : Part :=
  firstOf
    [functionDeclaration c, classDeclaration c, enumeration c, variableLists c, interfaceDeclaration c,
     typeDeclaration c, space c, importAlias]

def ambient : Part :=
  group .phrase
    [keyword "declare", goesOn .last,
     firstOf
       [undeclared c,
        seq [keyword "global", c .block],
        seq [keyword "module", op ".", anyWord, op ":", c (.type .lastType), endOfClause]]]

def declaration : Part := firstOf [undeclared c, ambient c]

def sourceText : Part := role .source anyText

def fromClause : Part := seq [keyword "from", sourceText]

def exportedName : Part := firstOf [anyWord, anyText]

def renamed : Part := seq [exportedName, opt (seq [keyword "as", exportedName])]

def typeWord : Part := firstOf [keyword "type", keyword "typeof"]

def names (plain : Part) : Part :=
  let entry := firstOf [seq [typeWord, plain, peek (firstOf [sym ",", sym "\x7d"])], plain]
  group .phrase [sym "\x7b", opt (seq [sepBy (sym ",") entry, opt (sym ",")]), sym "\x7d"]

def importedName : Part :=
  firstOf
    [seq [exportedName, keyword "as", anyWord], wordWhere .identifier (· != "default")]

def everything : Part := group .phrase [op "*", keyword "as", anyWord]

def importClause : Part :=
  let several := firstOf [everything, names importedName]
  firstOf [several, seq [anyWord, opt (seq [sym ",", several])]]

def importRequire : Part :=
  group .importRequire
    [anyWord, op "=", keyword "require", sym "(", sourceText, sym ")"]

def importBody : Part :=
  firstOf [seq [importClause, fromClause], importRequire, sourceText]

def importHead : Part :=
  seq [keyword "import", firstOf [seq [typeWord, importBody], importBody]]

def importStatement : Part :=
  group .importStatement
    [importHead, opt (seq [keyword "with", ExpressionGrammar.object c]), endOfClause]

def exportFrom : Part :=
  seq [opt (keyword "type"), firstOf
    [seq [op "*", opt (seq [keyword "as", exportedName]), fromClause],
     seq [names renamed, opt fromClause]]]

def exportBody : Part :=
  firstOf
    [seq [exportFrom, endOfClause],
     seq [op "=", c (.expression .last), endOfExpression],
     seq [keyword "as", keyword "namespace", anyWord, endOfClause],
     seq [keyword "default",
       firstOf [declaration c, seq [c (.expression .last), endOfExpression]]],
     declaration c]

def exportStatement : Part :=
  group .exportStatement [decorators c, keyword "export", goesOn .last, exportBody c]

def followUp (word : String) (x : Part) : Part :=
  firstOf [group .phrase [keyword word, x], lacks (keyword word)]

def ifStatement : Part :=
  group .phrase
    [keyword "if", condition c, statement c, followUp "else" (statement c)]

def drawn : Part :=
  let source := seq [firstOf [keyword "of", keyword "in"], ExpressionGrammar.sequence c .inner]
  let named := seq [keyword "var", binding c]
  firstOf
    [seq [named, opt (ExpressionGrammar.initializer c .inner), source],
     seq [named, op "=", c (.operand .inner), source],
     seq [firstOf [keyword "let", keyword "const"], binding c, source],
     seq [ExpressionGrammar.target (c (.operand .inner)), source]]

def counted : Part :=
  let inside := ExpressionGrammar.sequence c .inner
  seq
    [firstOf [variableLists c, seq [inside, op ";"], op ";"], opt inside, op ";", opt inside]

def forStatement : Part :=
  group .phrase
    [keyword "for",
     firstOf
       [seq [opt (keyword "await"), sym "(", drawn c, sym ")"], seq [sym "(", counted c, sym ")"]],
     statement c]

def doStatement : Part :=
  group .phrase
    [keyword "do", statement c, keyword "while", condition c, opt endOfClause]

def caseWords : List String := ["case", "default"]

def switchStatement : Part :=
  let body := many (seq [lacks (nextWordIs caseWords.contains), statement c])
  group .phrase
    [keyword "switch", condition c, sym "\x7b",
     many (firstOf
       [group .phrase [keyword "case", ExpressionGrammar.sequence c .inner, op ":", body],
        group .phrase [keyword "default", op ":", body]]),
     sym "\x7d"]

def tryStatement : Part :=
  group .phrase
    [keyword "try", c .block,
     followUp "catch" (seq
       [opt (seq [sym "(", binding c, opt (TypeGrammar.typeMark c .inner), sym ")"]), c .block]),
     followUp "finally" (c .block)]

def yielding (word : String) : Part :=
  let more := do
    let s ← source
    let i ← position
    if s.ends false false i then nothing else opt (lastSequence c)
  group .phrase [keyword word, more, endOfExpression]

def jump (word : String) : Part :=
  let more := do
    let s ← source
    let i ← position
    if s.ends false false i then nothing else opt anyWord
  group .phrase [keyword word, more, endOfClause]

def simpleStatement (word : String) : Part :=
  match word with
  | "if" => ifStatement c
  | "for" => forStatement c
  | "while" => group .phrase [keyword "while", condition c, statement c]
  | "do" => doStatement c
  | "switch" => switchStatement c
  | "try" => tryStatement c
  | "with" => group .phrase [keyword "with", condition c, statement c]
  | "break" => jump "break"
  | "continue" => jump "continue"
  | "debugger" => group .phrase [keyword "debugger", endOfClause]
  | "return" => yielding c "return"
  | "throw" => group .phrase [keyword "throw", lastSequence c, endOfExpression]
  | "import" => firstOf [importStatement c, importAlias]
  | "export" => exportStatement c
  | _ => declaration c

def headWords : List String :=
  statementWords ++
    ["import", "export", "function", "async", "class", "let", "type", "namespace", "module",
     "declare"]

def wordStatement : Part := do
  match ← nextWord with
  | some w => firstOf [
      if headWords.contains w then simpleStatement c w else fail,
      labeled c,
      expressionStatement c]
  | none => expressionStatement c

def wholeStatement : Part := do
  let s ← source
  goto (s.statementStart (← position))
  match ← nextChar with
  | '\x7b' => firstOf [c .block, expressionStatement c]
  | ';' => group .phrase [op ";"]
  | '@' => firstOf [exportStatement c, classDeclaration c, expressionStatement c]
  | _ => wordStatement c

def fieldEnd (ns : List Node) : Part :=
  let valued := (ns.getLast?.bind (·.child? .value)).isSome
  firstOf [if valued then endOfExpression else endOfClause, sym ","]

def openerWords : List String := ["abstract", "accessor"]

def fieldWords : Part :=
  let one := TypeGrammar.modifier
  let declared := ["declare"]
  let access := TypeGrammar.accessWords
  seq
    [opt (firstOf [seq [one declared, opt (one access)], seq [one access, opt (one declared)]]),
     firstOf
       [seq [one ["abstract"], opt (one ["readonly"])],
        seq [one ["readonly"], one ["abstract"]],
        one ["accessor"],
        seq [lacks (nextWordIs openerWords.contains),
          TypeGrammar.modifiers [["static"], ["override"], ["readonly"]]]]]

def field : Part := do
  let ns ← group .phrase
    [fieldWords, TypeGrammar.propertyName c, opt (firstOf [op "?", op "!"]),
     opt (TypeGrammar.typeMark c .lastType),
     opt (seq [op "=", role .value (c (.expression .last))])]
  let stop ← fieldEnd ns
  return ns ++ stop

def methodHead : Part :=
  seq [TypeGrammar.propertyName c, opt (op "?"), goesOn .lastType, headSignature c]

def methodStart : Part :=
  seq [lacks (nextWordIs openerWords.contains), TypeGrammar.methodWords, methodHead c]

def abstractMethod : Part :=
  seq [TypeGrammar.modifiers [TypeGrammar.accessWords], TypeGrammar.modifier ["abstract"],
    TypeGrammar.modifiers [["override"]],
    opt (firstOf [TypeGrammar.modifier ["get", "set"], op "*"]), methodHead c]

def classMember : Part :=
  firstOf
    [sym ";",
     group .phrase [keyword "static", nextIs (· == '\x7b'), c .block],
     group .phrase [TypeGrammar.indexMember c .lastType, firstOf [endOfClause, sym ","]],
     group .phrase [decorators c, methodStart c, c .block],
     group .phrase [methodStart c, firstOf [endOfHead, sym ","]],
     group .phrase [abstractMethod c, firstOf [endOfClause, sym ","]],
     seq [decorators c, field c]]

def classBody : Part := group .phrase [sym "\x7b", many (classMember c), sym "\x7d"]

end SourceAtlas.Syntax.StatementGrammar
