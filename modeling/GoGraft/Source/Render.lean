import GoGraft.Error
import GoGraft.Layout
import GoGraft.Source.Edit
import GoGraft.Source.File

/-! Writing a file with its changes. Only the import declaration that takes new imports and the
bodies of changed structs are written again; everything else is kept. -/

namespace GoGraft

/-- An import with the path by which it is sorted. -/
structure ImportEntry where
  path : Text
  text : Text
  deriving DecidableEq, Repr

namespace ImportEntry

def ofPath (path : Text) : ImportEntry where
  path := path
  text := "\"".toList ++ path ++ "\"".toList

def before (one other : ImportEntry) : Bool :=
  !decide (other.path < one.path)

/-- Entries sorted by their paths, one on each line. -/
def renderSorted (indent : Text) (entries : List ImportEntry) : Text :=
  Text.join "\n".toList ((sortBy before entries).map fun entry => indent ++ entry.text)

/-- A group of imports. -/
def renderGroup (entries : List ImportEntry) : Text :=
  "import (\n".toList ++ renderSorted "\t".toList entries ++ "\n)".toList

end ImportEntry

namespace ImportLine

/-- The lines after the last free row between two lines. -/
def lastRun : List ImportLine → List ImportLine
  | one :: other :: rest =>
    let run := lastRun (other :: rest)
    if run.length = rest.length + 1 ∧ ¬ one.stopRow + 1 < other.startRow then one :: run else run
  | lines => lines

/-- The import on a line, as the source has it. -/
def toEntry? (source : Text) (line : ImportLine) : Option ImportEntry :=
  line.path.map fun path => ⟨path, Text.slice source line.span⟩

end ImportLine

/-- The edit that adds imports to a group. They join the last run of its lines, which is sorted if
all of its lines are imports; else they are put behind it. -/
def groupEdit (source : Text) (opening closing : Nat) (indent : Text) (lines : List ImportLine)
    (added : List ImportEntry) : Edit :=
  match ImportLine.lastRun lines with
  | [] => ⟨⟨opening, closing⟩, "\n".toList ++ ImportEntry.renderSorted indent added ++ "\n".toList⟩
  | first :: rest =>
    let last := rest.getLastD first
    match (first :: rest).mapM (ImportLine.toEntry? source) with
    | some entries =>
      ⟨⟨first.span.start, last.span.stop⟩,
        (ImportEntry.renderSorted indent (entries ++ added)).drop indent.length⟩
    | none =>
      ⟨⟨last.span.stop, last.span.stop⟩,
        added.flatMap fun entry => "\n".toList ++ indent ++ entry.text⟩

def ImportSection.edit? (source : Text) (imports : ImportSection) : Option Edit :=
  let added := imports.added.map ImportEntry.ofPath
  if added.isEmpty then none
  else match imports.anchor with
    | .group opening closing indent lines =>
      some (groupEdit source opening closing indent lines added)
    | .single span spec path => some ⟨span, ImportEntry.renderGroup (⟨path, spec⟩ :: added)⟩
    | .absent place =>
      let group := ImportEntry.renderGroup added
      some ⟨⟨place, place⟩,
        if place = 0 then group ++ "\n\n".toList else "\n\n".toList ++ group⟩

/-- The cells of a line with a field: names, type, tag and comment. A comment without a tag stands
in the column where it would stand behind one. -/
def Field.cells (field : Field) (comment : Option Text) : List Text :=
  let names := if field.isEmbedded then [] else [Text.join ", ".toList field.names]
  let ending := match field.tag, comment with
    | some tag, some comment => [tag, comment]
    | some tag, none => [tag]
    | none, some comment => List.replicate (if field.isEmbedded then 2 else 1) [] ++ [comment]
    | none, none => []
  names ++ field.type :: ending

/-- The edit that brings the tag of a field up to date where the field stands. -/
def Field.tagEdit? (field : Field) : Option Edit :=
  match field.origin, field.tag with
  | some origin, some tag =>
    if origin.literal = some tag then none
    else match origin.tag with
      | some span => some ⟨span, tag⟩
      | none => some ⟨⟨origin.typeEnd, origin.typeEnd⟩, " ".toList ++ tag⟩
  | _, _ => none

namespace StructDeclaration

/-- Lines that are kept as they are, save for the tags of the fields in them. -/
def renderVerbatim (source : Text) (struct : StructDeclaration) (span : Span) (held : List Nat) :
    Text :=
  Edit.replaceAll span.start (Text.slice source span)
    (held.filterMap fun index => struct.fields[index]?.bind Field.tagEdit?)

/-- Lines with fields, in columns. A struct with one field has no columns. -/
def renderSection (struct : StructDeclaration) (rows : List (List Text)) : List Text :=
  let lines :=
    if struct.fields.length = 1 then
      rows.map fun cells => Text.join " ".toList (cells.filter fun cell => !cell.isEmpty)
    else Layout.align rows
  lines.map (struct.body.indent ++ ·)

/-- The lines of a body; `rows` are the fields on the lines just above. -/
def renderLines (source : Text) (struct : StructDeclaration) (rows : List (List Text)) :
    List BodyLine → List Text
  | [] => struct.renderSection rows
  | .field index comment :: rest =>
    let row := struct.fields[index]?.map fun field => field.cells comment
    struct.renderLines source (rows ++ row.toList) rest
  | .verbatim span held :: rest =>
    struct.renderSection rows ++ struct.renderVerbatim source span held ::
      struct.renderLines source [] rest
  | .blank :: rest => struct.renderSection rows ++ [] :: struct.renderLines source [] rest

/-- Lines without the empty ones at the two ends. -/
def trimLines (lines : List Text) : List Text :=
  ((lines.dropWhile List.isEmpty).reverse.dropWhile List.isEmpty).reverse

/-- The edit that writes the body of a struct again. What stands between the word `struct` and the
brace is made one space, unless a comment stands there. -/
def bodyEdit (source : Text) (struct : StructDeclaration) : Edit :=
  let body := struct.body
  let lines := trimLines (struct.renderLines source [] body.lines)
  let text := "\n".toList ++ Text.join "\n".toList lines ++ "\n".toList ++ body.closingIndent
  let gap := Text.slice source ⟨body.keywordEnd, body.opening - 1⟩
  if gap ≠ [' '] ∧ gap.all Text.isBlank then
    ⟨⟨body.keywordEnd, body.closing⟩, " \x7b".toList ++ text⟩
  else ⟨⟨body.opening, body.closing⟩, text⟩

end StructDeclaration

namespace SourceFile

def edits (file : SourceFile) : List Edit :=
  (file.imports.edit? file.source).toList ++
    (file.structs.filter (·.changed)).map (StructDeclaration.bodyEdit file.source)

/-- A span of a source in bytes. -/
def byteSpan (source : Text) (span : Span) : Span :=
  ⟨Text.byteSize (source.take span.start), Text.byteSize (source.take span.stop)⟩

/-- The text of a file with its changes. A changed text must again be a Go file. -/
def render (file : SourceFile) : Except GraftError Text :=
  let edits := file.edits
  if edits.isEmpty then .ok file.source
  else match Edit.applyAll file.source edits with
    | .error (one, other) =>
      .error (.overlap (byteSpan file.source one.span) (byteSpan file.source other.span))
    | .ok output => if (Go.parse? output).isSome then .ok output else .error .invalidOutput

end SourceFile

end GoGraft
