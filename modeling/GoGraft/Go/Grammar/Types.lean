import GoGraft.Go.Grammar.Basic

/-! The rules of Go's types. -/

namespace GoGraft.Go.Grammar

open Go.Rule

/-- The name of a type, with that of its package if it has one. -/
def typeName (reserved : List Text) : Rule :=
  seq (token (.name reserved)) (opt (seq dot name))

def typeElement : Rule :=
  separated anyType (mark "|")

def typeArguments : Rule :=
  sequence [mark "[", commaList (ref .typeElement), opt (mark ","), mark "]"]

/-- Type arguments where an index could stand as well. -/
def operandTypeArguments : Rule :=
  sequence
    [mark "[", within { operand := true } (ref .typeElement),
     many (seq (mark ",") (ref .typeElement)), opt (mark ","), mark "]"]

/-- What a function gives back: parameters in brackets or one type. -/
def result : Rule :=
  alt parameters (ref .simpleType)

def signature : Rule :=
  seq parameters (opt result)

/-- One parameter or several that share a type. Of several names only the first may not be a word
that starts a type. -/
def parameter : Rule :=
  choice
    [sequence
      [token (.name typeWords), mark ",", name, many (seq (mark ",") name), anyType,
       ahead (alt (mark ",") (mark ")"))],
     sequence [opt (token (.name typeWords)), mark "...", anyType],
     seq (token (.name typeWords)) anyType,
     anyType]

def parameterList : Rule :=
  sequence [mark "(", opt (commaList parameter), opt (mark ","), mark ")"]

/-- The parameters of a generic declaration. Words in `reserved` are keywords at the first name. -/
def typeParameters (reserved : List Text) : Rule :=
  sequence
    [mark "[", declaration (token (.name reserved)), many (seq (mark ",") (declaration name)),
     opt (mark ","), mark "]"]
where
  declaration (firstName : Rule) : Rule :=
    sequence [firstName, many (seq (mark ",") name), ref .typeElement]

/-- The end of a field: a terminator, or the closing brace of the list. -/
def fieldEnd : Rule :=
  alt terminator closeBrace

def fieldTag : Rule :=
  node .fieldTag string

def embeddedType (arguments : Rule) : Rule :=
  node .fieldType
    (alt (seq (typeName []) (opt arguments))
      (seq (mark "~") (alt (seq (typeName typeWords) typeArguments) (seq anyType typeArguments))))

def embeddedField (arguments : Rule) : Rule :=
  sequence
    [alt (embeddedType arguments) (seq (mark "*") (embeddedType typeArguments)), opt fieldTag,
     ahead fieldEnd]

def namedField : Rule :=
  sequence [commaList (node .fieldName name), node .fieldType anyType, opt fieldTag]

/-- A type on the next line, with which no field starts there. -/
def typeOnNextLine : Rule :=
  sequence
    [terminator, notAhead (seq (alt (embeddedField operandTypeArguments) namedField) fieldEnd),
     anyType, opt fieldTag, fieldEnd]

/-- Type arguments at the end of a field. Before a type on the next line the brackets are those of
an array instead. -/
def fieldTypeArguments : Rule :=
  seq operandTypeArguments (notAhead typeOnNextLine)

def field : Rule :=
  node .field (alt (embeddedField fieldTypeArguments) namedField)

def structType : Rule :=
  node .struct
    (seq (word "struct")
      (node .fieldList (sequence [openBrace, opt (terminatedList field), closeBrace])))

def interfaceElement : Rule :=
  alt (seq (token (.name typeWords)) (within { terminator := true } signature)) (ref .typeElement)

def interfaceType : Rule :=
  sequence [word "interface", openBrace, opt (terminatedList interfaceElement), closeBrace]

def sliceHead : Rule :=
  seq (mark "[") (mark "]")

def arrayHead : Rule :=
  sequence [mark "[", expression, mark "]"]

def mapHead : Rule :=
  sequence [word "map", mark "[", anyType, mark "]"]

def channelHead : Rule :=
  seq (word "chan") (opt (mark "<-"))

def simpleType : Rule :=
  choice
    [seq (typeName typeWords) (opt typeArguments),
     seq (mark "*") anyType,
     seq sliceHead anyType,
     seq arrayHead anyType,
     structType,
     interfaceType,
     seq mapHead anyType,
     seq channelHead anyType,
     seq (mark "<-") (sequence [word "chan", anyType]),
     seq (word "func") signature,
     sequence [mark "~", anyType, opt typeArguments]]

def parenthesizedType : Rule :=
  sequence [mark "(", anyType, mark ")"]

end GoGraft.Go.Grammar
