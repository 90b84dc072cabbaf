import GoGraft.Source.Field

/-! A struct declaration: its fields, and the lines of its body by which they are written again. -/

namespace GoGraft

inductive BodyLine where
  | blank
  /-- A field on a line of its own, by its number, with the comment behind it. -/
  | field (index : Nat) (comment : Option Text)
  /-- Any other lines, kept as they are; the numbers are those of the fields in them. -/
  | verbatim (span : Span) (fields : List Nat)
  deriving DecidableEq, Repr

structure StructBody where
  /-- The place behind the word `struct`. -/
  keywordEnd : Nat
  /-- The place behind the opening brace. -/
  opening : Nat
  /-- The place of the closing brace. -/
  closing : Nat
  indent : Text
  closingIndent : Text
  lines : List BodyLine
  deriving DecidableEq, Repr

structure StructDeclaration where
  name : Text
  fields : List Field
  body : StructBody
  /-- Whether the body is to be written again. -/
  changed : Bool := false
  deriving DecidableEq, Repr

namespace StructDeclaration

/-- Adds a field, on a line at the end of the body. -/
def addField (struct : StructDeclaration) (field : Field) : StructDeclaration :=
  { struct with
    fields := struct.fields ++ [field]
    body := { struct.body with lines := struct.body.lines ++ [.field struct.fields.length none] }
    changed := true }

/-- The struct with another tag on a field, unless the field has that tag or there is no such
field. -/
def setTag? (struct : StructDeclaration) (index : Nat) (tag : Text) : Option StructDeclaration :=
  match struct.fields[index]? with
  | none => none
  | some field =>
    if field.tag = some tag then none
    else some { struct with
      fields := struct.fields.set index { field with tag := some tag }
      changed := true }

def hasIdentity (struct : StructDeclaration) (identity : Text) : Bool :=
  struct.fields.any fun field => field.identities.contains identity

end StructDeclaration

end GoGraft
