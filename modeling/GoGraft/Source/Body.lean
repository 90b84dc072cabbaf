import GoGraft.Source.Struct

/-! Reading the structs of a file. The items of a body, which are its fields and comments, are
divided into lines. A line that is one field on one row can be written again from the field; every
other line is kept as it is. -/

namespace GoGraft

namespace ItemLine

/-- Whether a line is one field on one row, with at most a comment behind it. -/
def isFieldLine (line : ItemLine) : Bool :=
  line.startRow == line.stopRow && line.first.isNode .field &&
    match line.rest with
    | [] => true
    | [item] => item.isComment
    | _ => false

def fields (line : ItemLine) : List Field :=
  (line.items.filter (Located.isNode .field)).map Field.ofNode

/-- The body line of an item line whose first field has the given number. -/
def toBodyLine (source : Text) (number : Nat) (line : ItemLine) : BodyLine :=
  if line.isFieldLine then .field number (line.rest.head?.map Located.text)
  else
    .verbatim ⟨Text.lineStart source line.span.start, line.span.stop⟩
      (List.range' number line.fields.length)

end ItemLine

/-- The lines of a body, with an empty line wherever the source leaves at least one row free. -/
def bodyLines (source : Text) :
    (number : Nat) → (above : Option Nat) → List ItemLine → List BodyLine
  | _, _, [] => []
  | number, above, line :: rest =>
    let gap := if above.any fun row => row + 1 < line.startRow then [.blank] else []
    gap ++ line.toBodyLine source number ::
      bodyLines source (number + line.fields.length) (some line.stopRow) rest

/-- The fields and comments of a struct. -/
def fieldItems (list : Located) : List Located :=
  list.children.filter fun item => item.isNode .field || item.isComment

/-- The node of a struct, if a type specification declares one. -/
def structNode? (spec : Located) : Option Located :=
  match (spec.node? .specType).map Located.children with
  | some [type] => if type.isNode .struct then some type else none
  | _ => none

/-- The struct that a type specification declares. -/
def StructDeclaration.ofSpec? (source : Text) (spec : Located) : Option StructDeclaration := do
  let name ← spec.node? .specName
  let type ← structNode? spec
  let list ← type.node? .fieldList
  let headerIndent := Text.lineIndent source spec.start.offset
  let lines := ItemLine.divide (fieldItems list)
  let indent := match lines.find? ItemLine.isFieldLine with
    | some line => Text.lineIndent source line.first.start.offset
    | none => headerIndent ++ ['\t']
  return {
    name := name.text
    fields := lines.flatMap ItemLine.fields
    body :=
      { keywordEnd := type.start.offset + "struct".length
        opening := list.start.offset + 1
        closing := list.stop.offset - 1
        indent := indent
        closingIndent := headerIndent
        lines := bodyLines source 0 none lines } }

def structsOfRoots (source : Text) (roots : List Located) : List StructDeclaration :=
  ((roots.filter (Located.isNode .typeDeclaration)).flatMap fun declaration =>
    declaration.nodes .typeSpec).filterMap (StructDeclaration.ofSpec? source)

end GoGraft
