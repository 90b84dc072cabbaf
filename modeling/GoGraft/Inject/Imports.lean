import GoGraft.Directive.Registry
import GoGraft.Report
import GoGraft.Source.File

/-! Adding the imports that directives ask for, unless the file has them. -/

namespace GoGraft

def addImport (state : ImportSection × Report) (path : Text) : ImportSection × Report :=
  let (imports, report) := state
  if imports.contains path then state
  else (imports.add path, { report with importsAdded := report.importsAdded ++ [path] })

def injectImports (registry : Registry) (file : SourceFile) (report : Report) :
    SourceFile × Report :=
  let (imports, report) := registry.imports.keys.foldl addImport (file.imports, report)
  ({ file with imports := imports }, report)

end GoGraft
