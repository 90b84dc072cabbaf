import GoGraft.Text.Basic

/-! The tree of a Go source keeps every character: the texts of its leaves, read from left to
right, are the source. White space, comments and line ends are leaves like any other, so a place
in the source is the length of what stands to the left of it. A node begins and ends with a token;
the blanks and comments around it belong to the node that holds it. -/

namespace GoGraft.Go

inductive LeafKind where
  | blank
  | comment
  | terminator
  | token
  deriving DecidableEq, Repr

inductive NodeKind where
  | package
  | importDeclaration
  | importList
  | importSpec
  | importPath
  | typeDeclaration
  | typeSpec
  | specName
  | specType
  | struct
  | fieldList
  | field
  | fieldName
  | fieldType
  | fieldTag
  /-- Statements in braces. -/
  | block
  /-- The statement behind a label. -/
  | labeled
  deriving DecidableEq, Repr

inductive Tree where
  | leaf (kind : LeafKind) (text : Text)
  | node (kind : NodeKind) (children : List Tree)

namespace Tree

mutual
def text : Tree → Text
  | .leaf _ text => text
  | .node _ children => textOfAll children

def textOfAll : List Tree → Text
  | [] => []
  | tree :: rest => tree.text ++ textOfAll rest
end

def isTrivia : Tree → Bool
  | .leaf .blank _ => true
  | .leaf .comment _ => true
  | _ => false

/-- A node over the given children, with the trivia in front of the first token left outside. -/
def wrap (kind : NodeKind) (children : List Tree) : List Tree :=
  children.takeWhile isTrivia ++ [.node kind (children.dropWhile isTrivia)]

end Tree

end GoGraft.Go
