import GoGraft.Command.Path
import GoGraft.Json
import GoGraft.Transform

/-! What became of each file, as lines or as JSON. -/

namespace GoGraft.Command

inductive FileOutcome where
  | unchanged (report : Report)
  | rewritten (report : Report)
  | wouldChange (report : Report)
  | failed (error : GraftError)
  deriving DecidableEq, Repr

structure FileSummary where
  path : Path
  outcome : FileOutcome
  deriving DecidableEq, Repr

namespace FileOutcome

def isFailed : FileOutcome → Bool
  | failed _ => true
  | _ => false

def isPending : FileOutcome → Bool
  | wouldChange _ => true
  | _ => false

end FileOutcome

/-- How much a report holds of each kind. -/
def showCounts (report : Report) : Text :=
  "+".toList ++ Text.ofNat report.importsAdded.length ++ " imports, +".toList ++
    Text.ofNat report.fieldsAdded.length ++ " fields, ".toList ++
    Text.ofNat report.tagsMerged.length ++ " tags, ".toList ++
    Text.ofNat report.skipped.length ++ " skipped".toList

/-- The lines for a file that did not fail. -/
def reportLines (verb : String) (path : Path) (report : Report) : List Text :=
  (verb.toList ++ " ".toList ++ path ++ " (".toList ++ showCounts report ++ ")".toList) ::
    report.skipped.map fun skip => "  skipped ".toList ++ skip.describe

namespace FileSummary

/-- The lines about a file on the output. -/
def lines (summary : FileSummary) : List Text :=
  match summary.outcome with
  | .unchanged report => reportLines "unchanged" summary.path report
  | .rewritten report => reportLines "rewrote" summary.path report
  | .wouldChange report => reportLines "would rewrite" summary.path report
  | .failed _ => []

/-- The lines about a file among the errors. -/
def errorLines (summary : FileSummary) : List Text :=
  match summary.outcome with
  | .failed error => ["error: ".toList ++ summary.path ++ ": ".toList ++ error.message]
  | _ => []

end FileSummary

def skipKindName : SkipKind → String
  | .malformedDirective => "malformed_directive"
  | .unresolvedTagTarget => "unresolved_tag_target"
  | .droppedDirective => "dropped_directive"
  | .duplicateField => "duplicate_field"

def jsonText (text : String) : Json :=
  .text text.toList

def jsonObject (members : List (String × Json)) : Json :=
  .object (members.map fun (name, value) => (name.toList, value))

def skipToJson (skip : Skip) : Json :=
  jsonObject [("kind", jsonText (skipKindName skip.kind)), ("line", .number skip.line),
    ("detail", .text skip.detail)]

def reportToJson (report : Report) : Json :=
  jsonObject [("imports_added", .list (report.importsAdded.map Json.text)),
    ("fields_added", .list (report.fieldsAdded.map Json.text)),
    ("tags_merged", .list (report.tagsMerged.map Json.text)),
    ("skipped", .list (report.skipped.map skipToJson))]

def FileSummary.toJson (summary : FileSummary) : Json :=
  let members (status : String) (ending : String × Json) :=
    jsonObject [("path", .text summary.path), ("status", jsonText status), ending]
  match summary.outcome with
  | .unchanged report => members "unchanged" ("report", reportToJson report)
  | .rewritten report => members "rewritten" ("report", reportToJson report)
  | .wouldChange report => members "would_change" ("report", reportToJson report)
  | .failed error => members "failed" ("error", .text error.message)

def renderSummaries (summaries : List FileSummary) : Text :=
  Json.render 0 (.list (summaries.map FileSummary.toJson))

end GoGraft.Command
