import GoGraft.Command.Arguments
import GoGraft.Command.Help
import GoGraft.Command.Inputs
import GoGraft.Command.Summary
import GoGraft.Text.Quoted

/-! One run of the command: the arguments are read, the files collected, each file grafted and,
unless the run only checks, written again. The run is the same for every kind of file system. -/

namespace GoGraft.Command

/-- What a run needs of the files around it. -/
structure FileSystem (m : Type → Type) where
  find : Path → m Found
  read : Path → m Bytes
  write : Path → Bytes → m Unit

/-- Why a run does not succeed. -/
inductive Failure where
  | notFound (path : Path)
  | failedFiles (count total : Nat)
  | pendingFiles (count total : Nat)
  deriving DecidableEq, Repr

namespace Failure

def message : Failure → Text
  | notFound path => "Path not found: ".toList ++ Text.quoted true path
  | failedFiles count total =>
    Text.ofNat count ++ " of ".toList ++ Text.ofNat total ++ " files failed".toList
  | pendingFiles count total =>
    Text.ofNat count ++ " of ".toList ++ Text.ofNat total ++ " files would change".toList

def line (failure : Failure) : Text :=
  "Error: General(".toList ++ Text.quoted false failure.message ++ ")".toList

end Failure

/-- The exit code of a run and what it prints. -/
structure Outcome where
  exit : Nat
  output : Text := []
  errors : Text := []
  deriving DecidableEq, Repr

def unlines (lines : List Text) : Text :=
  lines.flatMap (· ++ ['\n'])

/-- The outcome of a file and, if it is to be written, its new content. -/
def graft (check : Bool) (content : Bytes) : FileOutcome × Option Bytes :=
  match transformBytes content with
  | .error error => (.failed error, none)
  | .ok result =>
    if !result.changed then (.unchanged result.report, none)
    else if check then (.wouldChange result.report, none)
    else (.rewritten result.report, some (Utf8.encode result.output))

/-- What keeps a run over the given files from success. -/
def failure? (summaries : List FileSummary) : Option Failure :=
  let failed := summaries.countP (·.outcome.isFailed)
  let pending := summaries.countP (·.outcome.isPending)
  if 0 < failed then some (.failedFiles failed summaries.length)
  else if 0 < pending then some (.pendingFiles pending summaries.length)
  else none

def fail (failure : Failure) (outcome : Outcome) : Outcome :=
  { outcome with exit := 1, errors := outcome.errors ++ unlines [failure.line] }

/-- The outcome of a run over the given files. -/
def conclude (json : Bool) (summaries : List FileSummary) : Outcome :=
  let outcome : Outcome :=
    if json then { exit := 0, output := unlines [renderSummaries summaries] }
    else
      { exit := 0
        output := unlines (summaries.flatMap FileSummary.lines)
        errors := unlines (summaries.flatMap FileSummary.errorLines) }
  match failure? summaries with
  | some failure => fail failure outcome
  | none => outcome

section

variable {m : Type → Type} [Monad m] (system : FileSystem m)

/-- Grafts one file. -/
def processFile (check : Bool) (path : Path) : m FileSummary := do
  let (outcome, content) := graft check (← system.read path)
  if let some content := content then
    system.write path content
  return ⟨path, outcome⟩

/-- Runs with options that have been read. -/
def runOptions (suffix : Text) (options : Options) : m Outcome := do
  let found ← options.paths.mapM fun path => do return (path, ← system.find path)
  match collectInputs suffix found with
  | .error path => return fail (.notFound path) { exit := 1 }
  | .ok inputs =>
    let summaries ← inputs.mapM (processFile system options.check)
    return conclude options.json summaries

/-- Runs the command. The ending of file names may also be given by the environment. -/
def run (environmentSuffix : Option Text) (arguments : List Text) : m Outcome :=
  match Request.ofArguments arguments with
  | .help => return { exit := 0, output := helpText environmentSuffix }
  | .version => return { exit := 0, output := versionText }
  | .invalid => return { exit := 2 }
  | .run options =>
    let suffix := (options.suffix.orElse fun _ => environmentSuffix).getD defaultSuffix
    runOptions system suffix options

end

end GoGraft.Command
