import GoGraft.Ordered
import GoGraft.Text.Lower

/-! The directives of a file, gathered by struct. Imports and fields keep the line where they were
first asked for; a later tag directive for the same field replaces an earlier one. -/

namespace GoGraft

structure TagUpdate where
  text : Text
  line : Nat
  deriving DecidableEq, Repr

/-- What is asked of one struct. Tag updates go by the normalized name of their field. -/
structure Declaration where
  fields : Ordered Nat := .empty
  tags : Ordered TagUpdate := .empty

structure Registry where
  imports : Ordered Nat := .empty
  declarations : Ordered Declaration := .empty

namespace Registry

def addImport (registry : Registry) (path : Text) (line : Nat) : Registry :=
  { registry with imports := registry.imports.keep path line }

def changeDeclaration (registry : Registry) (name : Text) (change : Declaration → Declaration) :
    Registry :=
  { registry with
    declarations := registry.declarations.update name fun held => change (held.getD {}) }

def addField (registry : Registry) (declaration spec : Text) (line : Nat) : Registry :=
  registry.changeDeclaration declaration fun entry =>
    { entry with fields := entry.fields.keep spec line }

def setTags (registry : Registry) (declaration field tags : Text) (line : Nat) : Registry :=
  registry.changeDeclaration declaration fun entry =>
    { entry with tags := entry.tags.put field ⟨tags, line⟩ }

def declaration? (registry : Registry) (name : Text) : Option Declaration :=
  registry.declarations.get? name

def isEmpty (registry : Registry) : Bool :=
  registry.imports.isEmpty && registry.declarations.isEmpty

end Registry

/-- Field names are compared without underscores and in lower case. -/
def normalizeName (name : Text) : Text :=
  Text.lower (name.filter (· != '_'))

end GoGraft
