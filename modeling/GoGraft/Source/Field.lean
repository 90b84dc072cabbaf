import GoGraft.Source.Place

/-! A field of a struct. An embedded field has no names; its type stands for them. -/

namespace GoGraft

/-- Where the tag of a field stands in the source, or is to be put. -/
structure FieldOrigin where
  tag : Option Span
  typeEnd : Nat
  literal : Option Text
  deriving DecidableEq, Repr

structure Field where
  names : List Text
  type : Text
  tag : Option Text := none
  /-- None for a field that is not in the source. -/
  origin : Option FieldOrigin := none
  deriving DecidableEq, Repr

namespace Field

def isEmbedded (field : Field) : Bool :=
  field.names.isEmpty

/-- What no two fields of a struct should share. -/
def identities (field : Field) : List Text :=
  if field.isEmbedded then [field.type] else field.names

/-- The name that an embedded type gives to its field: without package and type arguments. -/
def implicitName (type : Text) : Text :=
  let bare := (type.dropWhile (· == '*')).takeWhile (· != '[')
  (bare.reverse.takeWhile (· != '.')).reverse

/-- The names under which a tag directive may address the field. -/
def addressableNames (field : Field) : List Text :=
  if field.isEmbedded then [implicitName field.type] else field.names

end Field

/-- The field that a field node declares. The type of an embedded field is written without blanks.
-/
def Field.ofNode (node : Located) : Field :=
  let names := (node.nodes .fieldName).map Located.text
  let tag := node.node? .fieldTag
  let beforeType := node.children.takeWhile fun child => !child.isNode .fieldType
  let type := node.node? .fieldType
  let typeText := (type.map Located.text).getD []
  let literal := tag.map Located.text
  { names := names
    type :=
      if names.isEmpty then
        (beforeType.flatMap Located.text ++ typeText).filter fun c => !Text.isBlank c
      else typeText
    tag := literal
    origin := some
      { tag := tag.map Located.span
        typeEnd := ((type.map fun type => type.stop).getD node.stop).offset
        literal := literal } }

end GoGraft
