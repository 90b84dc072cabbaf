import GoGraft.Directive.Scan
import GoGraft.Inject.Fields
import GoGraft.Inject.Imports
import GoGraft.Inject.Tags
import GoGraft.Source.Render

/-! Grafting a file: its directives are read, its model is changed as they ask, and the model is
written. -/

namespace GoGraft

structure Transformed where
  source : Text
  output : Text
  report : Report
  deriving DecidableEq, Repr

def Transformed.changed (result : Transformed) : Bool :=
  result.output != result.source

/-- Adds all that a registry asks for: imports, then fields, then tags. -/
def inject (registry : Registry) (file : SourceFile) (report : Report) : SourceFile × Report :=
  let (file, report) := injectImports registry file report
  let (file, report) := injectFields registry file report
  mergeTags registry file report

def transform (source : Text) : Except GraftError Transformed :=
  let found := scan source
  match SourceFile.parse? source with
  | none => .error .invalidSource
  | some file =>
    let report : Report := { skipped := found.skipped }
    let (file, report) :=
      if found.registry.isEmpty then (file, report) else inject found.registry file report
    file.render.map fun output => ⟨source, output, report⟩

/-- Grafting a file that is given as bytes. -/
def transformBytes (bytes : Bytes) : Except GraftError Transformed :=
  match Utf8.decode bytes with
  | .error fault => .error (.notText fault)
  | .ok source => transform source

end GoGraft
