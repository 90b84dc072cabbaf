import GoGraft.Go.Grammar.Expressions

/-! The rules of Go's declarations and statements. -/

namespace GoGraft.Go.Grammar

open Go.Rule

/-- What a simple statement may hold after its first expression. -/
def simpleTail (value : Rule) : Rule :=
  choice
    [mark "++",
     mark "--",
     seq (mark "<-") expression,
     sequence [many (seq (mark ",") expression), token .assignment, value]]

def simpleStatement : Rule :=
  seq expression (opt (simpleTail expressionList))

def names : Rule :=
  commaList name

/-- One declaration after a word, or any number of them in brackets. -/
def declarations (keyword : String) (spec : Rule) : Rule :=
  seq (word keyword)
    (alt (sequence [mark "(", many (seq spec terminator), mark ")"]) spec)

def values : Rule :=
  seq (mark "=") expressionList

def constantSpec : Rule :=
  seq names (opt (seq (opt anyType) values))

def variableSpec : Rule :=
  seq names (alt (seq anyType (opt values)) values)

def typeSpec : Rule :=
  alt (sequence [name, mark "=", anyType])
    (node .typeSpec
      (seq (node .specName name)
        (alt (node .specType anyType)
          (seq (typeParameters operandWords) (node .specType anyType)))))

def typeDeclaration : Rule :=
  node .typeDeclaration (declarations "type" typeSpec)

def ifStatement : Rule :=
  sequence
    [word "if", expression,
     opt (sequence [opt (simpleTail expressionList), mark ";", expression]),
     block,
     opt (seq (word "else") (alt block (ref .ifStatement)))]

/-- A `for` header from its first semicolon on. -/
def forClause : Rule :=
  sequence [mark ";", opt expression, mark ";", opt simpleStatement]

/-- The assigned values in a `for` header, where `range` is a keyword. -/
def forValues : Rule :=
  within { range := true } expressionList

def rangeTail : Rule :=
  sequence
    [many (seq (mark ",") expression), alt (mark "=") (mark ":="), word "range", expression]

def forHeader : Rule :=
  choice
    [seq (word "range") expression,
     forClause,
     seq (within { range := true } expression)
       (opt (alt rangeTail (seq (opt (simpleTail forValues)) forClause)))]

def forStatement : Rule :=
  sequence [word "for", opt forHeader, block]

def body : Rule :=
  seq colon (opt (ref .statements))

def defaultCase : Rule :=
  seq (word "default") body

def cases (clause : Rule) : Rule :=
  node .block
    (sequence
      [openBrace, many (alt (seq (word "case") (seq clause body)) defaultCase), closeBrace])

def typeGuard : Rule :=
  sequence [dot, mark "(", word "type", mark ")"]

def guardedPrimary (after : Accepts) : Rule :=
  seq (expecting after primary) typeGuard

def guardedDefinition : Rule :=
  sequence [many (seq (mark ",") expression), mark ":=", guardedPrimary { guard := true }]

/-- The header of a switch may already end after its first expression, so that an opening brace
there is that of the cases, and `++` that of a statement. -/
def headExpression : Rule :=
  expecting { body := true, step := true } expression

def guardedValue : Rule :=
  alt (guardedPrimary { body := true, guard := true }) (seq headExpression guardedDefinition)

def typeSwitchHeader : Rule :=
  alt (guardedPrimary { body := true, guard := true })
    (seq headExpression
      (alt guardedDefinition
        (sequence [opt (simpleTail expressionList), mark ";", guardedValue])))

def switchHeader : Rule :=
  seq expression (opt (sequence [opt (simpleTail expressionList), mark ";", opt expression]))

def switchStatement : Rule :=
  seq (word "switch")
    (commit typeSwitchHeader (cases (commaList anyType))
      (seq (opt switchHeader) (cases expressionList)))

def communication : Rule :=
  seq expression
    (opt (alt (seq (mark "<-") expression)
      (sequence
        [many (seq (mark ",") expression), alt (mark "=") (mark ":="), expression])))

def selectStatement : Rule :=
  seq (word "select") (cases communication)

/-- A label in front of a statement, or at the end of a list of statements. -/
def label : Rule :=
  seq (token (.name operandWords)) (within { terminator := true } colon)

def unlabeledStatement : Rule :=
  choice
    [typeDeclaration,
     declarations "const" constantSpec,
     declarations "var" variableSpec,
     seq (word "return") (opt expressionList),
     seq (word "go") expression,
     seq (word "defer") expression,
     ref .ifStatement,
     forStatement,
     switchStatement,
     selectStatement,
     word "fallthrough",
     seq (word "break") (opt name),
     seq (word "continue") (opt name),
     seq (word "goto") name,
     block,
     mark ";",
     simpleStatement]

def statement : Rule :=
  within { statement := true }
    (expecting { clause := true }
      (commit label (node .labeled (within { clause := true } (ref .statement)))
        unlabeledStatement))

/-- After a terminator the words of a clause are keywords in every list of statements. -/
def statements : Rule :=
  alt
    (sequence
      [ref .statement,
       many (seq terminator (within { clause := true } (ref .statement))),
       opt (seq terminator (opt (within { clause := true, statement := true } label)))])
    (within { statement := true } label)

end GoGraft.Go.Grammar
