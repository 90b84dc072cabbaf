import GoGraft.Go.Grammar.Statements

/-! The grammar of a Go file, and reading a text by it. A file is a list of items, each ended by a
terminator; statements are taken beside declarations, and the package clause may stand anywhere. -/

namespace GoGraft.Go

open Rule Grammar

namespace Grammar

def importSpec : Rule :=
  node .importSpec (seq (opt (alt dot name)) (node .importPath string))

def importList : Rule :=
  node .importList (sequence [mark "(", opt (terminatedList importSpec), mark ")"])

def importDeclaration : Rule :=
  node .importDeclaration (seq (word "import") (alt importList importSpec))

def packageClause : Rule :=
  node .package (seq (word "package") name)

def functionDeclaration : Rule :=
  sequence [word "func", name, opt (typeParameters []), signature, opt block]

def methodDeclaration : Rule :=
  sequence [word "func", parameters, token (.name typeWords), signature, opt block]

def item : Rule :=
  choice
    [packageClause,
     importDeclaration,
     functionDeclaration,
     methodDeclaration,
     within { item := true } (ref .statement)]

def file : Rule :=
  seq (many (seq item terminator)) (token .ending)

def rules : Name → Rule
  | .simpleType => simpleType
  | .anyType => alt (ref .simpleType) parenthesizedType
  | .typeElement => typeElement
  | .instantiated => instantiated
  | .parameters => parameterList
  | .expression => expressionRule
  | .literal => literalValue
  | .statement => statement
  | .statements => statements
  | .ifStatement => ifStatement

end Grammar

/-- A depth that no reading of a text of the given length reaches. -/
def readingDepth (length : Nat) : Nat :=
  128 * (length + 8)

/-- A byte order mark is white space at the very start of a file. -/
def takeByteOrderMark : Text → List Tree × Text
  | '﻿' :: rest => ([.leaf .blank ['﻿']], rest)
  | text => ([], text)

/-- The trees of a Go file, if the text is one. -/
def parse? (source : Text) : Option (List Tree) :=
  let (mark, text) := takeByteOrderMark source
  match run Grammar.rules (readingDepth source.length) Grammar.file {} {} text with
  | some (trees, _) => some (mark ++ trees)
  | none => none

end GoGraft.Go
