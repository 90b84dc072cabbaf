import GoGraft.FieldSpec
import GoGraft.Inject.Structs

/-! Adding the fields that directives ask for. A field is left out if its struct has one of the same
identity. -/

namespace GoGraft

def malformedField (text : Text) (line : Nat) : Skip where
  kind := .malformedDirective
  line := line
  detail :=
    "@gofield ".toList ++ text.inBackticks ++ " is not \x60Type\x60 or \x60name Type\x60".toList

def duplicateField (label : Text) (line : Nat) : Skip where
  kind := .duplicateField
  line := line
  detail := label ++ " already exists".toList

def fieldWithoutStruct (name text : Text) (line : Nat) : Skip where
  kind := .droppedDirective
  line := line
  detail :=
    "@gofield ".toList ++ text.inBackticks ++ ": no struct ".toList ++ name.inBackticks ++
      " in file".toList

/-- Adds one field, given by the text and line of its directive. -/
def addField (state : StructDeclaration × Report) (directive : Text × Nat) :
    StructDeclaration × Report :=
  let (struct, report) := state
  let (text, line) := directive
  match FieldSpec.parse? text with
  | none => (struct, report.skip (malformedField text line))
  | some spec =>
    let label := struct.name ++ ".".toList ++ spec.identity
    if struct.hasIdentity spec.identity then (struct, report.skip (duplicateField label line))
    else
      (struct.addField spec.toField, { report with fieldsAdded := report.fieldsAdded ++ [label] })

def addFields (entry : Declaration) (struct : StructDeclaration) (report : Report) :
    StructDeclaration × Report :=
  entry.fields.entries.foldl addField (struct, report)

def fieldsWithoutStruct (name : Text) (entry : Declaration) : List Skip :=
  entry.fields.entries.map fun (text, line) => fieldWithoutStruct name text line

def injectFields (registry : Registry) (file : SourceFile) (report : Report) :
    SourceFile × Report :=
  let (structs, report) := workOnStructs registry addFields file.structs report
  let file := { file with structs := structs }
  (file, report.skipAll (skipsForMissing registry file fieldsWithoutStruct))

end GoGraft
