import GoGraft.Directive.Braces
import GoGraft.Directive.Header
import GoGraft.Directive.Marker
import GoGraft.Directive.Registry
import GoGraft.Report

/-! Reading the directives of a source line by line, whether or not the source is valid Go. A
directive belongs to the struct whose header was met last. -/

namespace GoGraft

/-- The struct in force, and how deep in braces the lines of an open group of types are. -/
structure ScanContext where
  declaration : Option Text := none
  groupDepth : Option Nat := none
  deriving DecidableEq, Repr

namespace ScanContext

def inTypeGroup (context : ScanContext) : Bool :=
  context.groupDepth.isSome

/-- The struct that a line puts in force. -/
def header? (context : ScanContext) (line : Text) : Option Text :=
  match Directive.declarationHeader? line with
  | some name => some name
  | none => if context.groupDepth = some 0 then Directive.memberHeader? line else none

/-- The depth after a line inside a group, or none if the line closes the group. -/
def depthAfter? (depth : Nat) (line : Text) : Option Nat :=
  let depth := (depth + Directive.braceBalance line).toNat
  if depth = 0 ∧ (Text.trimStart line).head? = some ')' then none else some depth

def advance (context : ScanContext) (line : Text) : ScanContext where
  declaration := (context.header? line).orElse fun _ => context.declaration
  groupDepth :=
    if Directive.opensTypeGroup line then some 0
    else context.groupDepth.bind fun depth => depthAfter? depth line

end ScanContext

/-- The directives found so far, and those that could not be kept. -/
structure Scan where
  registry : Registry := {}
  skipped : List Skip := []

namespace Scan

def skip (scan : Scan) (kind : SkipKind) (line : Nat) (detail : Text) : Scan :=
  { scan with skipped := scan.skipped ++ [⟨kind, line, detail⟩] }

def drop (scan : Scan) (line : Nat) (marker content : Text) : Scan :=
  scan.skip .droppedDirective line
    (marker ++ " ".toList ++ Text.inBackticks content ++ " before any struct declaration".toList)

/-- Files one directive of a line under the struct in force. -/
def addDirective (declaration : Option Text) (line : Text) (number : Nat) (scan : Scan) :
    Directive → Scan
  | .addImport path => { scan with registry := scan.registry.addImport path number }
  | .addField spec =>
    match declaration with
    | some name => { scan with registry := scan.registry.addField name spec number }
    | none => scan.drop number "@gofield".toList spec
  | .setTags tags =>
    match declaration with
    | some name =>
      match Directive.tagTarget? line with
      | some field =>
        { scan with registry := scan.registry.setTags name (normalizeName field) tags number }
      | none =>
        scan.skip .unresolvedTagTarget number
          ("no name= marker for ".toList ++ Text.inBackticks tags)
    | none => scan.drop number "@gotags".toList tags

def addLine (declaration : Option Text) (line : Text) (number : Nat) (scan : Scan) : Scan :=
  (Directive.ofLine line).foldl (addDirective declaration line number) scan

/-- Reads lines from a given number on, in a given context. -/
def addLines : (context : ScanContext) → (number : Nat) → Scan → List Text → Scan
  | _, _, scan, [] => scan
  | context, number, scan, line :: rest =>
    let context := context.advance line
    addLines context (number + 1) (scan.addLine context.declaration line number) rest

end Scan

/-- The directives of a source. -/
def scan (source : Text) : Scan :=
  Scan.addLines {} 1 {} (Text.lines source)

end GoGraft
