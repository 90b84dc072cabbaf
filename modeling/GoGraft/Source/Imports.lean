import GoGraft.Source.Place

/-! The imports of a file, and the place where new ones are put: the first import declaration, or
else the end of the line of the package clause. -/

namespace GoGraft

/-- One line of a group of imports. The path is known if the line is one import on one row, with
nothing but comments behind it. -/
structure ImportLine where
  startRow : Nat
  stopRow : Nat
  span : Span
  path : Option Text
  deriving DecidableEq, Repr

/-- The first import declaration of a file, or the place for one. -/
inductive ImportAnchor where
  /-- Imports between brackets; the places are those behind the opening bracket and of the closing
  one. -/
  | group (opening closing : Nat) (indent : Text) (lines : List ImportLine)
  | single (span : Span) (spec path : Text)
  | absent (place : Nat)
  deriving DecidableEq, Repr

structure ImportSection where
  existing : List Text
  added : List Text := []
  anchor : ImportAnchor
  deriving DecidableEq, Repr

namespace ImportSection

def contains (imports : ImportSection) (path : Text) : Bool :=
  imports.existing.contains path || imports.added.contains path

def add (imports : ImportSection) (path : Text) : ImportSection :=
  { imports with added := imports.added ++ [path] }

end ImportSection

/-- The text between the quotes of a string literal. -/
def unquoteLiteral (literal : Text) : Text :=
  literal.tail.dropLast

/-- The path of an import. -/
def importPath? (spec : Located) : Option Text :=
  (spec.node? .importPath).map fun path => unquoteLiteral path.text

def ImportLine.ofItems (line : ItemLine) : ImportLine where
  startRow := line.startRow
  stopRow := line.stopRow
  span := line.span
  path :=
    if line.startRow = line.stopRow ∧ line.first.isNode .importSpec ∧
        line.rest.all Located.isComment then importPath? line.first
    else none

/-- The imports and comments of a group. -/
def importItems (list : Located) : List Located :=
  list.children.filter fun item => item.isNode .importSpec || item.isComment

def ImportAnchor.ofGroup (source : Text) (list : Located) : ImportAnchor :=
  let items := importItems list
  let indent := match items.head? with
    | some item => Text.lineIndent source item.start.offset
    | none => ['\t']
  .group (list.start.offset + 1) (list.stop.offset - 1) indent
    ((ItemLine.divide items).map ImportLine.ofItems)

/-- What an import declaration offers as a place for new imports. -/
def ImportAnchor.ofDeclaration? (source : Text) (declaration : Located) : Option ImportAnchor :=
  declaration.children.findSome? fun child =>
    if child.isNode .importSpec then
      some (.single declaration.span child.text ((importPath? child).getD []))
    else if child.isNode .importList then some (ofGroup source child)
    else none

/-- The imports that a child of an import declaration holds. -/
def importSpecs (child : Located) : List Located :=
  if child.isNode .importSpec then [child] else child.nodes .importSpec

/-- The place for the first import: the end of the line of the package clause, or else the start. -/
def importPlace (source : Text) (roots : List Located) : Nat :=
  match roots.find? (Located.isNode .package) with
  | some clause => Text.lineEnd source clause.stop.offset
  | none => 0

def ImportSection.ofRoots (source : Text) (roots : List Located) : ImportSection :=
  let declarations := roots.filter (Located.isNode .importDeclaration)
  { existing := (declarations.flatMap fun declaration =>
      declaration.children.flatMap importSpecs).filterMap importPath?
    anchor := (declarations.findSome? (ImportAnchor.ofDeclaration? source)).getD
      (.absent (importPlace source roots)) }

end GoGraft
