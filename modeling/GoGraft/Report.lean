import GoGraft.Text.Basic

/-! What a run did to a file: the imports, fields and tags that it added, and every directive that
it left out, with the line of the directive and the reason. -/

namespace GoGraft

inductive SkipKind where
  | malformedDirective
  | unresolvedTagTarget
  | droppedDirective
  | duplicateField
  deriving DecidableEq, Repr

def SkipKind.label : SkipKind → Text
  | malformedDirective => "malformed directive".toList
  | unresolvedTagTarget => "unresolved tag target".toList
  | droppedDirective => "dropped directive".toList
  | duplicateField => "duplicate field".toList

structure Skip where
  kind : SkipKind
  line : Nat
  detail : Text
  deriving DecidableEq, Repr

def Skip.describe (skip : Skip) : Text :=
  "line ".toList ++ Text.ofNat skip.line ++ ": ".toList ++ skip.kind.label ++ " (".toList ++
    skip.detail ++ ")".toList

structure Report where
  importsAdded : List Text := []
  fieldsAdded : List Text := []
  tagsMerged : List Text := []
  skipped : List Skip := []
  deriving DecidableEq, Repr

namespace Report

def skip (report : Report) (skip : Skip) : Report :=
  { report with skipped := report.skipped ++ [skip] }

def skipAll (report : Report) (skips : List Skip) : Report :=
  { report with skipped := report.skipped ++ skips }

def skippedCount (report : Report) (kind : SkipKind) : Nat :=
  report.skipped.countP (·.kind = kind)

def hasChanges (report : Report) : Bool :=
  !report.importsAdded.isEmpty || !report.fieldsAdded.isEmpty || !report.tagsMerged.isEmpty

end Report

end GoGraft
