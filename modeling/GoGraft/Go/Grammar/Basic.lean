import GoGraft.Go.Rule

/-! Names of the rules of Go that refer to one another, and the pieces from which all rules are
made. -/

namespace GoGraft.Go.Grammar

inductive Name where
  | simpleType
  | anyType
  | typeElement
  | instantiated
  | parameters
  | expression
  | literal
  | statement
  | statements
  | ifStatement
  deriving DecidableEq, Repr

abbrev Rule := Go.Rule Name

open Go.Rule

def mark (spelling : String) : Rule :=
  token (.mark spelling.toList [])

/-- A dot that does not begin an ellipsis. -/
def dot : Rule :=
  token (.mark ['.'] ['.'])

/-- A colon that does not begin an assignment. -/
def colon : Rule :=
  token (.mark [':'] ['='])

def word (spelling : String) : Rule :=
  token (.word spelling.toList)

/-- An identifier where no keyword may stand. -/
def name : Rule :=
  token (.name [])

def openBrace : Rule :=
  mark "\x7b"

def closeBrace : Rule :=
  mark "\x7d"

def terminator : Rule :=
  token .terminator

def string : Rule :=
  token .string

/-- One or more of a rule, with a separator between them. -/
def separated (rule separator : Rule) : Rule :=
  seq rule (many (seq separator rule))

def commaList (rule : Rule) : Rule :=
  separated rule (mark ",")

/-- Items that each end with a terminator, save that the last need not. -/
def terminatedList (item : Rule) : Rule :=
  sequence [item, many (seq terminator item), opt terminator]

/-- The words that start a type. -/
def typeWords : List Text :=
  ["chan", "func", "interface", "map", "struct"].map String.toList

/-- The words that start an expression. -/
def operandWords : List Text :=
  typeWords ++ Token.constantWords

def expression : Rule := ref .expression

def anyType : Rule := ref .anyType

def parameters : Rule := ref .parameters

def literal : Rule := ref .literal

end GoGraft.Go.Grammar
