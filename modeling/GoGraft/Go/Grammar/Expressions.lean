import GoGraft.Go.Grammar.Types

/-! The rules of Go's expressions. Operators are read without their precedence, which does not
bear on what is an expression. A type may stand at the head of a composite literal or a
conversion; a name in front of a brace heads a literal only where the brace cannot open a body. -/

namespace GoGraft.Go.Grammar

open Go.Rule

def expressionList : Rule :=
  commaList expression

def block : Rule :=
  node .block (sequence [openBrace, opt (ref .statements), closeBrace])

def literalPart : Rule :=
  alt expression literal

def literalElement : Rule :=
  seq literalPart (opt (seq colon literalPart))

def literalValue : Rule :=
  sequence [openBrace, opt (commaList literalElement), opt (mark ","), closeBrace]

def argument : Rule :=
  seq expression (opt (mark "..."))

def arguments : Rule :=
  sequence [mark "(", opt (seq (commaList argument) (opt (mark ","))), mark ")"]

/-- The arguments of `new` and `make`, the first of which is a type. -/
def allocationArguments : Rule :=
  sequence
    [mark "(", opt (sequence [anyType, many (seq (mark ",") expression), opt (mark ",")]), mark ")"]

def typeList : Rule :=
  sequence [mark "[", commaList anyType, opt (mark ","), mark "]"]

/-- What turns a type into an expression: an operand to convert, or types to instantiate it with. -/
def conversion : Rule :=
  alt (sequence [mark "(", expression, opt (mark ","), mark ")"]) typeList

/-- What can follow a composite literal inside the header of a statement. -/
def headerContinuation : Rule :=
  choice [openBrace, mark ".", mark "(", mark "[", mark ",", mark ":", token .assignment,
    token .operator]

/-- The body of a literal whose type has a package name or arguments. In the header of a statement
it must be followed by more of the header or not be a block, and on a line of its own it must not
be a block. -/
def qualifiedLiteral : Rule :=
  choice
    [unlessBody literal,
     whereBody
      (alt (seq literal (within { terminator := true } (ahead headerContinuation)))
        (sequence [ahead literal, notAhead block, literal])),
     seq (notAhead openBrace) (across (unlessBody (seq (notAhead block) literal)))]

def genericTail : Rule :=
  alt (seq typeList (opt (alt qualifiedLiteral typeList))) (seq typeArguments qualifiedLiteral)

/-- Type arguments of a qualified name on a line of their own must not start an expression. -/
def laterGenericTail : Rule :=
  seq (notAhead (mark "[")) (across (seq (notAhead expression) genericTail))

def namedOperand : Rule :=
  seq (token (.name operandWords))
    (opt (choice
      [unlessBody literal,
       sequence [dot, name, opt (choice [qualifiedLiteral, genericTail, laterGenericTail])],
       genericTail]))

def allocation : Rule :=
  seq (alt (word "new") (word "make")) (tail (alt allocationArguments (notAhead (mark "("))))

def instantiatedHead : Rule :=
  choice [mapHead, sliceHead, arrayHead, channelHead]

/-- A type literal that ends in a name with type arguments: the arguments then belong to the whole
literal, which is thereby an expression. -/
def instantiated : Rule :=
  alt (seq (alt instantiatedHead (mark "*")) (ref .instantiated))
    (seq (typeName typeWords) typeList)

def parenthesizedOperandType : Rule :=
  sequence [mark "(", within { operand := true } anyType, mark ")"]

/-- A function literal, or a function type that is converted to. What could be a result is one. -/
def functionOperand : Rule :=
  sequence
    [word "func", parameters, alt (seq result (alt block conversion)) block]

def operand : Rule :=
  choice
    [namedOperand,
     token .string,
     token .number,
     token .rune,
     seq parenthesizedOperandType typeList,
     sequence [mark "(", expression, mark ")"],
     seq parenthesizedOperandType conversion,
     functionOperand,
     seq structType (alt literal conversion),
     sequence [choice [mapHead, sliceHead, arrayHead], anyType, alt literal conversion],
     sequence [mark "[", mark "...", mark "]", anyType, literal],
     sequence [channelHead, anyType, conversion],
     seq interfaceType conversion,
     sequence [mark "~", anyType, conversion],
     seq instantiatedHead (ref .instantiated),
     allocation,
     word "nil",
     word "true",
     word "false",
     word "iota"]

def sliceBounds : Rule :=
  sequence [colon, opt (seq expression (opt (seq colon expression))), mark "]"]

def index : Rule :=
  seq (mark "[") (alt (seq expression (alt (mark "]") sliceBounds)) sliceBounds)

def typeAssertion : Rule :=
  alt (unlessGuard (sequence [dot, mark "(", anyType, mark ")"]))
    (sequence [dot, mark "(", notAhead (word "type"), anyType, mark ")"])

def postfixPart : Rule :=
  choice [seq dot name, typeAssertion, arguments, index, seq operandTypeArguments arguments]

def unaryOperator : Rule :=
  choice [mark "<-", mark "*", mark "&", mark "-", mark "!", mark "+", mark "^"]

def primary : Rule :=
  seq operand (many postfixPart)

def expressionRule : Rule :=
  sequence [many unaryOperator, primary, opt (seq (token .operator) expression)]

end GoGraft.Go.Grammar
