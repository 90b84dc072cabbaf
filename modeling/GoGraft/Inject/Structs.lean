import GoGraft.Directive.Registry
import GoGraft.Report
import GoGraft.Source.File

/-! Work on those structs of a file that directives are for. -/

namespace GoGraft

/-- Does some work on each struct that has an entry in the registry. -/
def workOnStructs (registry : Registry)
    (work : Declaration → StructDeclaration → Report → StructDeclaration × Report) :
    List StructDeclaration → Report → List StructDeclaration × Report
  | [], report => ([], report)
  | struct :: rest, report =>
    let (struct, report) := match registry.declaration? struct.name with
      | some entry => work entry struct report
      | none => (struct, report)
    let (rest, report) := workOnStructs registry work rest report
    (struct :: rest, report)

/-- What is skipped for every struct that is not in the file. -/
def skipsForMissing (registry : Registry) (file : SourceFile)
    (skips : Text → Declaration → List Skip) : List Skip :=
  registry.declarations.entries.flatMap fun (name, entry) =>
    if (file.findStruct? name).isSome then [] else skips name entry

end GoGraft
