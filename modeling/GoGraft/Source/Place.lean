import GoGraft.Go.Tree

/-! Places in a source. A place is given by the number of characters in front of it; rows are
counted by the newlines in front of it. -/

namespace GoGraft

structure Place where
  offset : Nat := 0
  row : Nat := 0
  deriving DecidableEq, Repr

/-- The place after a text that starts at a given place. -/
def Place.after (place : Place) (text : Text) : Place where
  offset := place.offset + text.length
  row := place.row + text.countP (· == '\n')

/-- The characters from one place up to another. -/
structure Span where
  start : Nat
  stop : Nat
  deriving DecidableEq, Repr

namespace Text

def slice (source : Text) (span : Span) : Text :=
  (source.drop span.start).take (span.stop - span.start)

/-- The place where the line around an offset starts. -/
def lineStart (source : Text) (offset : Nat) : Nat :=
  offset - ((source.take offset).reverse.takeWhile (· != '\n')).length

/-- The place where the line around an offset ends, its newline left out. -/
def lineEnd (source : Text) (offset : Nat) : Nat :=
  offset + ((source.drop offset).takeWhile (· != '\n')).length

/-- The spaces and tabs at the start of the line around an offset. -/
def lineIndent (source : Text) (offset : Nat) : Text :=
  (source.drop (lineStart source offset)).takeWhile fun c => c == ' ' || c == '\t'

end Text

/-- A tree with the places where it starts and stops. -/
structure Located where
  tree : Go.Tree
  start : Place
  stop : Place

namespace Located

/-- Trees side by side, the first of them at a given place. -/
def sideBySide (place : Place) : List Go.Tree → List Located
  | [] => []
  | tree :: rest =>
    let stop := place.after tree.text
    ⟨tree, place, stop⟩ :: sideBySide stop rest

def children (located : Located) : List Located :=
  match located.tree with
  | .node _ children => sideBySide located.start children
  | .leaf _ _ => []

def text (located : Located) : Text :=
  located.tree.text

def isNode (kind : Go.NodeKind) (located : Located) : Bool :=
  match located.tree with
  | .node other _ => other == kind
  | .leaf _ _ => false

def isComment (located : Located) : Bool :=
  match located.tree with
  | .leaf kind _ => kind == .comment
  | .node _ _ => false

def span (located : Located) : Span :=
  ⟨located.start.offset, located.stop.offset⟩

/-- The children of one kind. -/
def nodes (kind : Go.NodeKind) (located : Located) : List Located :=
  located.children.filter (isNode kind)

def node? (kind : Go.NodeKind) (located : Located) : Option Located :=
  located.children.find? (isNode kind)

end Located

/-- Items that stand on one row, or that join rows: each starts on the row where the one before it
stops. -/
structure ItemLine where
  first : Located
  rest : List Located

namespace ItemLine

def items (line : ItemLine) : List Located :=
  line.first :: line.rest

def last (line : ItemLine) : Located :=
  line.rest.getLastD line.first

def startRow (line : ItemLine) : Nat :=
  line.first.start.row

def stopRow (line : ItemLine) : Nat :=
  line.last.stop.row

def span (line : ItemLine) : Span :=
  ⟨line.first.start.offset, line.last.stop.offset⟩

/-- Items divided into lines. -/
def divide (items : List Located) : List ItemLine :=
  (items.splitBy fun one next => one.stop.row == next.start.row).filterMap fun
    | first :: rest => some ⟨first, rest⟩
    | [] => none

end ItemLine

end GoGraft
