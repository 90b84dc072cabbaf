import GoGraft.Proofs.BodyComments
import GoGraft.Proofs.ByteOffsets
import GoGraft.Proofs.VerbatimSpans

/-! Writing a file by places in bytes, where each cut of a text and each difference of places is
checked. Main statement: for a file that was read and then changed in any way, all checks succeed, and
what is written is what the model writes by places in characters. -/

namespace GoGraft

/-! ### Models with places in bytes -/

section InBytes

variable (source : Text)

def ImportLine.inBytes (line : ImportLine) : ImportLine :=
  { line with span := line.span.inBytes source }

def ImportAnchor.inBytes : ImportAnchor → ImportAnchor
  | .group opening closing indent lines =>
    .group (Text.byteAt source opening) (Text.byteAt source closing) indent
      (lines.map (ImportLine.inBytes source))
  | .single span spec path => .single (span.inBytes source) spec path
  | .absent place => .absent (Text.byteAt source place)

def FieldOrigin.inBytes (origin : FieldOrigin) : FieldOrigin :=
  { origin with
    tag := origin.tag.map (Span.inBytes source)
    typeEnd := Text.byteAt source origin.typeEnd }

def Field.inBytes (field : Field) : Field :=
  { field with origin := field.origin.map (FieldOrigin.inBytes source) }

def BodyLine.inBytes : BodyLine → BodyLine
  | .blank => .blank
  | .field index comment => .field index comment
  | .verbatim span fields => .verbatim (span.inBytes source) fields

def StructBody.inBytes (body : StructBody) : StructBody :=
  { body with
    keywordEnd := Text.byteAt source body.keywordEnd
    opening := Text.byteAt source body.opening
    closing := Text.byteAt source body.closing
    lines := body.lines.map (BodyLine.inBytes source) }

def StructDeclaration.inBytes (struct : StructDeclaration) : StructDeclaration :=
  { struct with
    fields := struct.fields.map (Field.inBytes source)
    body := struct.body.inBytes source }

end InBytes

/-- A file with all its places in bytes. -/
def SourceFile.inBytes (file : SourceFile) : SourceFile :=
  { file with
    imports := { file.imports with anchor := file.imports.anchor.inBytes file.source }
    structs := file.structs.map (StructDeclaration.inBytes file.source) }

/-! ### Writing with checks -/

def ImportLine.toEntryBytes? (source : Text) (line : ImportLine) : Option ImportEntry := do
  let text ← Text.sliceBytes? source line.span
  return ⟨line.path.getD [], text⟩

def groupEditBytes? (source : Text) (opening closing : Nat) (indent : Text) (lines : List ImportLine)
    (added : List ImportEntry) : Option Edit :=
  match ImportLine.lastRun lines with
  | [] =>
    some ⟨⟨opening, closing⟩, "\n".toList ++ ImportEntry.renderSorted indent added ++ "\n".toList⟩
  | first :: rest =>
    let last := rest.getLastD first
    if (first :: rest).all (·.path.isSome) then do
      let entries ← (first :: rest).mapM (ImportLine.toEntryBytes? source)
      return ⟨⟨first.span.start, last.span.stop⟩,
        (ImportEntry.renderSorted indent (entries ++ added)).drop indent.length⟩
    else
      some ⟨⟨last.span.stop, last.span.stop⟩,
        added.flatMap fun entry => "\n".toList ++ indent ++ entry.text⟩

/-- The edit for new imports, if there are any. -/
def ImportSection.editBytes? (source : Text) (imports : ImportSection) : Option (Option Edit) :=
  let added := imports.added.map ImportEntry.ofPath
  if added.isEmpty then some none
  else match imports.anchor with
    | .group opening closing indent lines =>
      (groupEditBytes? source opening closing indent lines added).map some
    | .single span spec path => some (some ⟨span, ImportEntry.renderGroup (⟨path, spec⟩ :: added)⟩)
    | .absent place =>
      let group := ImportEntry.renderGroup added
      some (some ⟨⟨place, place⟩,
        if place = 0 then group ++ "\n\n".toList else "\n\n".toList ++ group⟩)

def Edit.startsBefore (one other : Edit) : Bool :=
  one.span.start ≤ other.span.start

namespace StructDeclaration

/-- Lines that are kept: each tag is put at its place in the lines, the last tag first. -/
def renderVerbatimBytes? (source : Text) (struct : StructDeclaration) (span : Span)
    (held : List Nat) : Option Text := do
  let text ← Text.sliceBytes? source span
  let edits := held.filterMap fun index => struct.fields[index]?.bind Field.tagEdit?
  Edit.replaceAllBytes? span.start text (sortBy Edit.startsBefore edits)

def renderLinesBytes? (source : Text) (struct : StructDeclaration) (rows : List (List Text)) :
    List BodyLine → Option (List Text)
  | [] => some (struct.renderSection rows)
  | .field index comment :: rest =>
    let row := struct.fields[index]?.map fun field => field.cells comment
    struct.renderLinesBytes? source (rows ++ row.toList) rest
  | .verbatim span held :: rest => do
    let text ← struct.renderVerbatimBytes? source span held
    let lines ← struct.renderLinesBytes? source [] rest
    return struct.renderSection rows ++ text :: lines
  | .blank :: rest => do
    let lines ← struct.renderLinesBytes? source [] rest
    return struct.renderSection rows ++ [] :: lines

def bodyEditBytes? (source : Text) (struct : StructDeclaration) : Option Edit := do
  let body := struct.body
  let lines ← struct.renderLinesBytes? source [] body.lines
  let text := "\n".toList ++ Text.join "\n".toList (trimLines lines) ++ "\n".toList ++
    body.closingIndent
  let brace ← less? body.opening 1
  let gap ← Text.sliceBytes? source ⟨body.keywordEnd, brace⟩
  return if gap ≠ [' '] ∧ gap.all Text.isBlank then
    ⟨⟨body.keywordEnd, body.closing⟩, " \x7b".toList ++ text⟩
  else ⟨⟨body.opening, body.closing⟩, text⟩

end StructDeclaration

/-- The text of a file whose places are in bytes. There is none if a check fails. -/
def SourceFile.renderBytes? (file : SourceFile) : Option (Except GraftError Text) := do
  let imports ← file.imports.editBytes? file.source
  let bodies ← (file.structs.filter (·.changed)).mapM
    (StructDeclaration.bodyEditBytes? file.source)
  let edits := imports.toList ++ bodies
  if edits.isEmpty then return .ok file.source
  let sorted := sortBy Edit.before edits
  match Edit.overlap? sorted with
  | some (one, other) => return .error (.overlap one.span other.span)
  | none =>
    let output ← Edit.replaceAllBytes? 0 file.source sorted
    return if (Go.parse? output).isSome then .ok output else .error .invalidOutput

/-! ### Imports -/

theorem lastRun_inBytes (source : Text) (lines : List ImportLine) :
    ImportLine.lastRun (lines.map (ImportLine.inBytes source)) =
      (ImportLine.lastRun lines).map (ImportLine.inBytes source) := by
  fun_induction ImportLine.lastRun lines with
  | case1 one other rest run whole ih =>
    rw [List.map_cons, List.map_cons, ImportLine.lastRun, ← List.map_cons, ih]
    rw [if_pos]
    · rfl
    · simpa [ImportLine.inBytes] using whole
  | case2 one other rest run whole ih =>
    rw [List.map_cons, List.map_cons, ImportLine.lastRun, ← List.map_cons, ih]
    rw [if_neg]
    simpa [ImportLine.inBytes] using whole
  | case3 lines short =>
    match lines with
    | [] => rfl
    | [line] => rfl
    | one :: other :: rest => exact (short one other rest rfl).elim

section Lines

variable {source : Text} {lines : List ImportLine}

theorem mapM_toEntry?_of_path
    (known : lines.all (·.path.isSome)) (inside : ∀ line ∈ lines, line.span.Inside ⟨0, source.length⟩) :
    ∃ entries, lines.mapM (ImportLine.toEntry? source) = some entries ∧
      (lines.map (ImportLine.inBytes source)).mapM (ImportLine.toEntryBytes? source) =
        some entries := by
  induction lines with
  | nil => exact ⟨[], rfl, rfl⟩
  | cons line rest ih =>
    rw [List.all_cons, Bool.and_eq_true] at known
    obtain ⟨path, named⟩ := Option.isSome_iff_exists.1 known.1
    obtain ⟨entries, plain, checked⟩ :=
      ih known.2 fun other held => inside other (List.mem_cons_of_mem line held)
    have bounds := inside line List.mem_cons_self
    have entry : (line.inBytes source).toEntryBytes? source =
        some ⟨path, Text.slice source line.span⟩ := by
      have cut := Text.sliceBytes?_inBytes bounds.2.1 bounds.2.2
      simp only [ImportLine.toEntryBytes?, ImportLine.inBytes, cut, named, Option.bind_eq_bind,
        Option.bind_some]
      rfl
    refine ⟨⟨path, Text.slice source line.span⟩ :: entries, ?_, ?_⟩
    · simp [List.mapM_cons, ImportLine.toEntry?, named, plain]
    · simp [List.mapM_cons, entry, checked]

theorem mapM_toEntry?_eq_none (unknown : ¬ lines.all (·.path.isSome)) :
    lines.mapM (ImportLine.toEntry? source) = none := by
  induction lines with
  | nil => exact absurd rfl unknown
  | cons line rest ih =>
    rw [List.mapM_cons]
    cases named : line.path with
    | none => simp [ImportLine.toEntry?, named]
    | some path =>
      have later := ih fun all => unknown (by simp [named, all])
      simp [ImportLine.toEntry?, named, later]

theorem groupEditBytes?_inBytes (opening closing : Nat) (indent : Text) (added : List ImportEntry)
    (inside : ∀ line ∈ lines, line.span.Inside ⟨0, source.length⟩) :
    groupEditBytes? source (Text.byteAt source opening) (Text.byteAt source closing) indent
        (lines.map (ImportLine.inBytes source)) added =
      some ((groupEdit source opening closing indent lines added).inBytes source) := by
  rw [groupEditBytes?, groupEdit, lastRun_inBytes]
  have within : ∀ line ∈ ImportLine.lastRun lines, line.span.Inside ⟨0, source.length⟩ :=
    fun line held => inside line ((lastRun_suffix lines).subset held)
  cases run : ImportLine.lastRun lines with
  | nil => rfl
  | cons first rest =>
    rw [run] at within
    have last : (rest.map (ImportLine.inBytes source)).getLastD (first.inBytes source) =
        (rest.getLastD first).inBytes source := by
      rw [List.getLastD_eq_getLast?, List.getLastD_eq_getLast?, List.getLast?_map, Option.getD_map]
    have paths : ((first :: rest).map (ImportLine.inBytes source)).all (·.path.isSome) =
        (first :: rest).all (·.path.isSome) := by
      rw [List.all_map]
      rfl
    rw [List.map_cons]
    simp only [last]
    rw [← List.map_cons, paths]
    by_cases known : (first :: rest).all (·.path.isSome)
    · obtain ⟨entries, plain, checked⟩ := mapM_toEntry?_of_path known within
      simp only [plain, checked, known]
      rfl
    · simp only [mapM_toEntry?_eq_none known, known]
      rfl

end Lines

theorem editBytes?_inBytes {source : Text} {imports : ImportSection}
    (inside : ∀ opening closing indent lines,
      imports.anchor = .group opening closing indent lines →
      ∀ line ∈ lines, line.span.Inside ⟨0, source.length⟩) :
    ({ imports with anchor := imports.anchor.inBytes source } : ImportSection).editBytes? source =
      some ((imports.edit? source).map (Edit.inBytes source)) := by
  rw [ImportSection.editBytes?, ImportSection.edit?]
  dsimp only
  split
  · rfl
  · cases anchored : imports.anchor with
    | group opening closing indent lines =>
      exact congrArg (Option.map some)
        (groupEditBytes?_inBytes opening closing indent _ (inside _ _ _ _ anchored))
    | single span spec path => rfl
    | absent place =>
      have first : Text.byteAt source place = 0 ↔ place = 0 := by
        conv => lhs; rhs; rw [← Text.byteAt_zero source]
        exact Text.byteAt_inj source
      simp only [ImportAnchor.inBytes, first]
      rfl

/-! ### Bodies -/

theorem tagEdit?_inBytes (source : Text) (field : Field) :
    (field.inBytes source).tagEdit? = field.tagEdit?.map (Edit.inBytes source) := by
  obtain ⟨names, type, tag, origin⟩ := field
  cases origin with
  | none => rfl
  | some origin =>
    cases tag with
    | none => rfl
    | some tag =>
      simp only [Field.tagEdit?, Field.inBytes, FieldOrigin.inBytes, Option.map_some]
      split
      · rfl
      · cases origin.tag <;> rfl

theorem renderSection_inBytes (source : Text) (struct : StructDeclaration) (rows : List (List Text)) :
    (struct.inBytes source).renderSection rows = struct.renderSection rows := by
  simp only [StructDeclaration.renderSection, StructDeclaration.inBytes, StructBody.inBytes,
    List.length_map]

section Verbatim

variable {source : Text} {struct : StructDeclaration}

/-- A line that is kept is written with all checks, if its span is one of the source and the edits of
its tags stand in it in order. -/
theorem renderVerbatimBytes?_inBytes {span : Span} {held : List Nat}
    (inside : span.Inside ⟨0, source.length⟩)
    (fit : Edit.Fit span.start (span.start + (Text.slice source span).length)
      (held.filterMap fun index => struct.fields[index]?.bind Field.tagEdit?)) :
    (struct.inBytes source).renderVerbatimBytes? source (span.inBytes source) held =
      some (struct.renderVerbatim source span held) := by
  have edits : (held.filterMap fun index =>
        (struct.inBytes source).fields[index]?.bind Field.tagEdit?) =
      (held.filterMap fun index => struct.fields[index]?.bind Field.tagEdit?).map
        (Edit.inBytes source) := by
    rw [List.map_filterMap]
    apply List.filterMap_congr
    intro index _
    rw [StructDeclaration.inBytes, List.getElem?_map]
    cases struct.fields[index]? with
    | none => rfl
    | some field => exact tagEdit?_inBytes source field
  rw [StructDeclaration.renderVerbatimBytes?, Text.sliceBytes?_inBytes inside.2.1 inside.2.2, edits,
    StructDeclaration.renderVerbatim]
  generalize (held.filterMap fun index => struct.fields[index]?.bind Field.tagEdit?) = edits at fit
  have sorted : sortBy Edit.startsBefore (edits.map (Edit.inBytes source)) =
      edits.map (Edit.inBytes source) := by
    apply sortBy_eq_self
    rw [List.pairwise_map]
    apply fit.starts_ordered.imp
    intro one other order
    exact decide_eq_true ((Text.byteAt_le_iff source).2 order)
  obtain ⟨front, inner, back, whole, start, _, same⟩ := Text.exists_parts inside.2.1 inside.2.2
  have made := @Edit.Spliced.replaceAllBytes? source front [] _ back _ _ _
    (Edit.replaceAll_spliced_at fit) (by rw [same, whole]; simp) start
  rw [← start] at made
  simp only [Option.bind_eq_bind, Option.bind_some, sorted]
  exact made

theorem renderLinesBytes?_inBytes {lines : List BodyLine}
    (kept : ∀ span held, BodyLine.verbatim span held ∈ lines →
      (struct.inBytes source).renderVerbatimBytes? source (span.inBytes source) held =
        some (struct.renderVerbatim source span held)) (rows : List (List Text)) :
    (struct.inBytes source).renderLinesBytes? source rows (lines.map (BodyLine.inBytes source)) =
      some (struct.renderLines source rows lines) := by
  induction lines generalizing rows with
  | nil => exact congrArg some (renderSection_inBytes source struct rows)
  | cons line rest ih =>
    have later := ih fun span held inside => kept span held (List.mem_cons_of_mem line inside)
    cases line with
    | blank =>
      simp only [List.map_cons, BodyLine.inBytes, StructDeclaration.renderLinesBytes?, later,
        renderSection_inBytes, Option.bind_eq_bind, Option.bind_some, StructDeclaration.renderLines]
      rfl
    | field index comment =>
      have row : ((struct.inBytes source).fields[index]?.map fun field => field.cells comment) =
          struct.fields[index]?.map fun field => field.cells comment := by
        rw [StructDeclaration.inBytes, List.getElem?_map, Option.map_map]
        rfl
      simp only [List.map_cons, BodyLine.inBytes, StructDeclaration.renderLinesBytes?, row, later,
        StructDeclaration.renderLines]
    | verbatim span held =>
      have own := kept span held List.mem_cons_self
      simp only [List.map_cons, BodyLine.inBytes, StructDeclaration.renderLinesBytes?, own, later,
        renderSection_inBytes, Option.bind_eq_bind, Option.bind_some, StructDeclaration.renderLines]
      rfl

theorem bodyEditBytes?_inBytes (stand : struct.body.places.StandIn source)
    (kept : ∀ span held, BodyLine.verbatim span held ∈ struct.body.lines →
      (struct.inBytes source).renderVerbatimBytes? source (span.inBytes source) held =
        some (struct.renderVerbatim source span held)) :
    (struct.inBytes source).bodyEditBytes? source =
      some ((struct.bodyEdit source).inBytes source) := by
  have opened := stand.opened
  have bound := stand.closing_lt
  have ordered := stand.ordered
  have brace := stand.openingBrace
  simp only [StructBody.places] at opened bound ordered brace
  have before : Text.byteAt source struct.body.opening =
      Text.byteAt source (struct.body.opening - 1) + 1 := by
    have next := Text.byteAt_succ brace rfl
    rwa [Nat.sub_add_cancel (by omega)] at next
  have less : less? (Text.byteAt source struct.body.opening) 1 =
      some (Text.byteAt source (struct.body.opening - 1)) := by
    rw [less?, if_pos (by omega), before, Nat.add_sub_cancel]
  have gap := @Text.sliceBytes?_inBytes source
    ⟨struct.body.keywordEnd, struct.body.opening - 1⟩ (by simp only; omega) (by simp only; omega)
  have lines := renderLinesBytes?_inBytes kept []
  rw [Span.inBytes] at gap
  simp only [StructDeclaration.bodyEditBytes?, StructDeclaration.bodyEdit]
  simp only [StructDeclaration.inBytes, StructBody.inBytes] at lines ⊢
  simp only [lines, less, gap, Option.bind_eq_bind, Option.bind_some]
  split
  · rfl
  · rfl

end Verbatim

/-! ### Changes -/

/-- A struct that got further fields at its end, and other tags. Its lines that are kept are those that
it had. -/
structure StructDeclaration.Extended (before after : StructDeclaration) : Prop where
  grown : before.Grown after
  verbatim : ∀ span held, BodyLine.verbatim span held ∈ after.body.lines →
    BodyLine.verbatim span held ∈ before.body.lines

namespace StructDeclaration.Extended

theorem refl (struct : StructDeclaration) : struct.Extended struct :=
  ⟨.refl struct, fun _ _ inside => inside⟩

theorem trans {first second third : StructDeclaration} (left : first.Extended second)
    (right : second.Extended third) : first.Extended third :=
  ⟨left.grown.trans right.grown,
    fun span held inside => left.verbatim span held (right.verbatim span held inside)⟩

theorem addField (struct : StructDeclaration) (field : Field) :
    struct.Extended (struct.addField field) := by
  refine ⟨.addField struct field, fun span held inside => ?_⟩
  rcases List.mem_append.1 inside with old | new
  · exact old
  · cases List.mem_singleton.1 new

theorem setTag (struct : StructDeclaration) (index : Nat) (tag : Text) :
    struct.Extended ((struct.setTag? index tag).getD struct) := by
  refine ⟨⟨⟨[], ?_⟩, ⟨[], ?_⟩, fun numbered => numbered.setTag index tag⟩, fun span held inside => ?_⟩
  · rw [SourceFile.places_setTag?, List.append_nil]
  · rw [StructDeclaration.setTag?, List.append_nil]
    split
    · rfl
    next field found =>
      split
      · rfl
      · obtain ⟨bound, rfl⟩ := List.getElem?_eq_some_iff.1 found
        have length : index < (struct.fields.map Field.untagged).length := by simpa using bound
        have same := List.set_getElem_self length
        rw [List.getElem_map] at same
        rw [Option.getD_some, List.map_set]
        exact same
  · rwa [SourceFile.places_setTag?] at inside

end StructDeclaration.Extended

namespace SourceFile

theorem modify_extended {step : StructDeclaration → StructDeclaration}
    (each : ∀ struct : StructDeclaration, struct.Extended (step struct)) (number : Nat)
    (structs : List StructDeclaration) :
    List.Forall₂ StructDeclaration.Extended structs (structs.modify number step) := by
  induction structs generalizing number with
  | nil => cases number <;> exact .nil
  | cons struct rest ih =>
    cases number with
    | zero => exact .cons (each struct) (List.forall₂_same.2 fun other _ => .refl other)
    | succ number => exact .cons (.refl struct) (ih number)

theorem change_extended (file : SourceFile) (change : FileChange) :
    List.Forall₂ StructDeclaration.Extended file.structs (file.change change).structs := by
  cases change with
  | addImport path => exact List.forall₂_same.2 fun struct _ => .refl struct
  | addField number field => exact modify_extended (fun struct => .addField struct field) number _
  | setTag number index tag =>
    exact modify_extended (fun struct => .setTag struct index tag) number _

theorem extended_trans {first second third : List StructDeclaration}
    (left : List.Forall₂ StructDeclaration.Extended first second)
    (right : List.Forall₂ StructDeclaration.Extended second third) :
    List.Forall₂ StructDeclaration.Extended first third := by
  induction left generalizing third with
  | nil =>
    cases right
    exact .nil
  | cons one _ others =>
    cases right with
    | cons other behind => exact .cons (one.trans other) (others behind)

theorem changeAll_extended (file : SourceFile) (changes : List FileChange) :
    List.Forall₂ StructDeclaration.Extended file.structs (file.changeAll changes).structs := by
  induction changes generalizing file with
  | nil => exact List.forall₂_same.2 fun struct _ => .refl struct
  | cons change rest ih =>
    exact extended_trans (file.change_extended change) (ih (file.change change))

end SourceFile

/-- A change that adds no field with a place in the source. -/
def FileChange.Fresh : FileChange → Prop
  | .addField _ field => field.origin = none
  | _ => True

namespace SourceFile

theorem map_modify_inBytes {source : Text} (step : StructDeclaration → StructDeclaration)
    (same : ∀ struct, step (StructDeclaration.inBytes source struct) =
      StructDeclaration.inBytes source (step struct)) (number : Nat)
    (structs : List StructDeclaration) :
    (structs.map (StructDeclaration.inBytes source)).modify number step =
      (structs.modify number step).map (StructDeclaration.inBytes source) := by
  induction structs generalizing number with
  | nil => cases number <;> rfl
  | cons struct rest ih =>
    cases number with
    | zero => exact congrArg (· :: _) (same struct)
    | succ number => exact congrArg (_ :: ·) (ih number)

theorem change_inBytes (file : SourceFile) {change : FileChange} (fresh : change.Fresh) :
    file.inBytes.change change = (file.change change).inBytes := by
  cases change with
  | addImport path => rfl
  | addField number field =>
    have added (struct : StructDeclaration) :
        (StructDeclaration.inBytes file.source struct).addField field =
          StructDeclaration.inBytes file.source (struct.addField field) := by
      have own : field.inBytes file.source = field := by
        rw [FileChange.Fresh] at fresh
        rw [Field.inBytes, fresh, Option.map_none, ← fresh]
      simp [StructDeclaration.addField, StructDeclaration.inBytes, StructBody.inBytes,
        BodyLine.inBytes, own]
    exact congrArg (fun structs : List StructDeclaration => { file.inBytes with structs := structs })
      (map_modify_inBytes (·.addField field) added number file.structs)
  | setTag number index tag =>
    have tagged (struct : StructDeclaration) :
        ((StructDeclaration.inBytes file.source struct).setTag? index tag).getD
            (StructDeclaration.inBytes file.source struct) =
          StructDeclaration.inBytes file.source ((struct.setTag? index tag).getD struct) := by
      simp only [StructDeclaration.setTag?, StructDeclaration.inBytes, List.getElem?_map]
      cases struct.fields[index]? with
      | none => rfl
      | some field =>
        simp only [Option.map_some, Field.inBytes]
        split
        · rfl
        · simp [List.map_set, Field.inBytes]
    exact congrArg (fun structs : List StructDeclaration => { file.inBytes with structs := structs })
      (map_modify_inBytes (fun struct => (struct.setTag? index tag).getD struct) tagged number
        file.structs)

theorem changeAll_inBytes (file : SourceFile) {changes : List FileChange}
    (fresh : ∀ change ∈ changes, change.Fresh) :
    file.inBytes.changeAll changes = (file.changeAll changes).inBytes := by
  induction changes generalizing file with
  | nil => rfl
  | cons change rest ih =>
    obtain ⟨first, later⟩ := List.forall_mem_cons.1 fresh
    calc file.inBytes.changeAll (change :: rest)
        = (file.inBytes.change change).changeAll rest := rfl
      _ = ((file.change change).inBytes).changeAll rest := by rw [file.change_inBytes first]
      _ = ((file.change change).changeAll rest).inBytes := ih (file.change change) later

end SourceFile

/-! ### Files that were read -/

/-- The span between the brackets of a list, counted in bytes from the ends of the list. -/
def Located.innerBytes? (source : Text) (list : Located) : Option Span := do
  let closing ← less? (Text.byteAt source list.stop.offset) 1
  return ⟨Text.byteAt source list.start.offset + 1, closing⟩

theorem innerBytes?_eq {source : Text} {list : Located} (stands : list.StandsIn source)
    {opening closing : Char} {middle : Text} (text : list.text = opening :: (middle ++ [closing]))
    (first : opening.utf8Size = 1) (last : closing.utf8Size = 1) :
    list.innerBytes? source =
      some (Span.inBytes source ⟨list.start.offset + 1, list.stop.offset - 1⟩) := by
  have length : list.text.length = middle.length + 2 := by simp [text]
  have stop := stands.stop_eq
  have place : list.stop.offset - 1 = list.start.offset + (middle.length + 1) := by omega
  have bracket : source[list.start.offset]? = some opening := by
    have found := @Located.StandsIn.getElem?_eq source list stands 0 (by omega)
    simpa [text] using found
  have ending : source[list.stop.offset - 1]? = some closing := by
    rw [place, stands.getElem?_eq (by omega)]
    simp [text]
  have behind := Text.byteAt_succ ending last
  rw [Nat.sub_add_cancel (by omega)] at behind
  rw [Located.innerBytes?, less?, if_pos (by omega), behind, Nat.add_sub_cancel, Span.inBytes,
    Text.byteAt_succ bracket first]
  rfl

/-- The places of a file in bytes, counted from the ends of its trees. -/
structure CountedInBytes (source : Text) (trees : List Go.Tree) (file : SourceFile) : Prop where
  bodies : ∀ struct ∈ file.inBytes.structs, ∃ spec ∈ typeSpecs (Located.sideBySide {} trees),
    ∃ type list, structNode? spec = some type ∧ type.node? .fieldList = some list ∧
      struct.body.keywordEnd =
        Text.byteAt source type.start.offset + Text.byteSize "struct".toList ∧
      list.innerBytes? source = some ⟨struct.body.opening, struct.body.closing⟩
  imports : ∀ opening closing indent lines,
    file.inBytes.imports.anchor = .group opening closing indent lines →
    ∃ declaration ∈ Located.sideBySide {} trees, declaration.isNode .importDeclaration ∧
      ∃ list ∈ declaration.children, list.isNode .importList ∧
        list.innerBytes? source = some ⟨opening, closing⟩

section Parsed

variable {source : Text} {trees : List Go.Tree} (parsed : Go.parse? source = some trees)
include parsed

theorem keywordEnd_inBytes {type list : Located} (part : type.PartOf source trees)
    (struct : type.isNode .struct) (found : type.node? .fieldList = some list) :
    Text.byteAt source (type.start.offset + "struct".length) =
      Text.byteAt source type.start.offset + Text.byteSize "struct".toList := by
  obtain ⟨⟨rest, text⟩, _⟩ := text_of_struct parsed part struct found
  obtain ⟨front, back, whole, start, _⟩ := part.stands
  have offset : type.start.offset = front.length := by simp [start, Place.after]
  rw [text] at whole
  rw [@Text.byteAt_eq source front ("struct".toList ++ rest ++ back) _ (by simp [whole]) offset,
    ← Text.byteSize_append]
  exact @Text.byteAt_eq source (front ++ "struct".toList) (rest ++ back) _ (by simp [whole])
    (by rw [List.length_append, offset]; rfl)

/-- The import group that takes new imports. -/
theorem exists_importList {opening closing : Nat} {indent : Text} {lines : List ImportLine}
    (anchored : (ImportSection.ofRoots source (Located.sideBySide {} trees)).anchor =
      .group opening closing indent lines) :
    ∃ declaration ∈ Located.sideBySide {} trees, declaration.isNode .importDeclaration ∧
      ∃ list ∈ declaration.children, list.isNode .importList ∧
        ImportAnchor.group opening closing indent lines = .ofGroup source list := by
  have offered := anchor_ofRoots parsed
  rw [anchored] at offered
  split at offered
  · cases offered
  next declaration found =>
    refine ⟨declaration, List.mem_of_find?_eq_some found, List.find?_some found, ?_⟩
    rcases ofDeclaration?_eq_some offered with ⟨_, _, _, single⟩ | ⟨list, inside, kind, group⟩
    · cases single
    · exact ⟨list, inside, kind, group⟩

theorem countedInBytes {file : SourceFile} (read : SourceFile.parse? source = some file) :
    CountedInBytes source trees file := by
  have same := read
  rw [SourceFile.parse?, parsed] at same
  cases Option.some.inj same
  refine ⟨?_, ?_⟩
  · intro struct inside
    obtain ⟨original, among, rfl⟩ := List.mem_map.1 inside
    obtain ⟨spec, held, made⟩ := List.mem_filterMap.1 among
    simp only [StructDeclaration.ofSpec?, Option.bind_eq_bind, Option.bind_eq_some_iff] at made
    obtain ⟨name, _, type, found, list, listed, built⟩ := made
    cases built
    obtain ⟨holder, outer, inner, isStruct⟩ := structNode?_eq_some found
    obtain ⟨child, kind⟩ := Located.mem_of_node? listed
    have part := (((spec_partOf parsed held).1.child outer).child inner)
    obtain ⟨middle, text⟩ := text_of_list (part.child child) kind
      fun _ occurs => Go.fieldList_children parsed occurs
    exact ⟨spec, held, type, list, found, listed, keywordEnd_inBytes parsed part isStruct listed,
      innerBytes?_eq (part.child child).stands text rfl rfl⟩
  · intro opening closing indent lines anchored
    cases original : (ImportSection.ofRoots source (Located.sideBySide {} trees)).anchor with
    | single | absent => simp [SourceFile.inBytes, original, ImportAnchor.inBytes] at anchored
    | group start stop margin rows =>
      obtain ⟨declaration, root, kind, list, child, isList, group⟩ :=
        exists_importList parsed original
      refine ⟨declaration, root, kind, list, child, isList, ?_⟩
      have part := (Located.partOf_roots parsed declaration root).child child
      obtain ⟨middle, text⟩ := text_of_list part isList
        fun _ occurs => Go.importList_children parsed occurs
      rw [innerBytes?_eq part.stands text rfl rfl]
      cases group
      simp only [SourceFile.inBytes, original, ImportAnchor.inBytes] at anchored
      cases anchored
      rfl

/-- A line of a body that is kept is one of the source. -/
theorem verbatim_inside {spec : Located} (among : spec ∈ typeSpecs (Located.sideBySide {} trees))
    {struct : StructDeclaration} (made : StructDeclaration.ofSpec? source spec = some struct)
    {span : Span} {held : List Nat} (line : BodyLine.verbatim span held ∈ struct.body.lines) :
    span.Inside ⟨0, source.length⟩ := by
  simp only [StructDeclaration.ofSpec?, Option.bind_eq_bind, Option.bind_eq_some_iff] at made
  obtain ⟨name, _, type, found, list, listed, built⟩ := made
  cases built
  obtain ⟨holder, outer, inner, _⟩ := structNode?_eq_some found
  have part := ((spec_partOf parsed among).1.child outer).child inner
  have stands := (part.child (Located.mem_of_node? listed).1).stands
  have stand {item : Located} (inside : item ∈ fieldItems list) : item.StandsIn source :=
    stands.child (List.mem_filter.1 inside).1
  have listedSpan : span ∈ (bodyLines source 0 none (ItemLine.divide (fieldItems list))).filterMap
      BodyLine.verbatimSpan? := List.mem_filterMap.2 ⟨_, line, rfl⟩
  rw [verbatimSpans_bodyLines] at listedSpan
  obtain ⟨items, inside, same⟩ := List.mem_filterMap.1 listedSpan
  rw [(ItemLine.verbatimSpan?_eq_some.1 same).2]
  refine ⟨Nat.zero_le _, (Text.lineStart_le _ _).trans ?_,
    (stand (ItemLine.items_subset inside items.last_mem_items)).stop_le⟩
  refine ItemLine.span_divide (fieldItems_ordered list) (fun item among => ?_) inside
  have stop := (stand among).stop_eq
  omega

/-- The body of a struct that was read and then changed is written with all checks. -/
theorem bodyEditBytes?_of_extended {spec : Located}
    (among : spec ∈ typeSpecs (Located.sideBySide {} trees)) {before after : StructDeclaration}
    (made : StructDeclaration.ofSpec? source spec = some before) (extended : before.Extended after)
    (stand : after.body.places.StandIn source) :
    (after.inBytes source).bodyEditBytes? source = some ((after.bodyEdit source).inBytes source) := by
  obtain ⟨type, list, _, read⟩ := ofSpec?_readFrom among made
  apply bodyEditBytes?_inBytes stand
  intro span held inside
  have old := extended.verbatim span held inside
  have kept : BodyLine.verbatim span held ∈ before.body.lines.filter (· ≠ .blank) :=
    List.mem_filter.2 ⟨old, rfl⟩
  obtain ⟨line, divided, keeps⟩ := exists_left_of_forall₂ read.lines _ kept
  have placed := ItemLine.placed_of_mem_divide read.list_within divided
  exact renderVerbatimBytes?_inBytes (verbatim_inside parsed among made old)
    (verbatimEdits_fit parsed placed extended.grown keeps).1

theorem editBytes?_of_anchor {imports : ImportSection}
    (anchored : imports.anchor =
      (ImportSection.ofRoots source (Located.sideBySide {} trees)).anchor) :
    ({ imports with anchor := imports.anchor.inBytes source } : ImportSection).editBytes? source =
      some ((imports.edit? source).map (Edit.inBytes source)) := by
  apply editBytes?_inBytes
  intro opening closing indent lines group line inside
  obtain ⟨declaration, root, _, list, child, _, same⟩ := exists_importList parsed (anchored ▸ group)
  have part := (Located.partOf_roots parsed declaration root).child child
  cases same
  have bounds := groupLines_inside part line inside
  have stop := part.stands.stop_le
  simp only [Span.Inside, Located.span] at bounds ⊢
  omega

omit parsed in
theorem mapM_map_eq_some {α β γ : Type} {items : List α} {f : β → Option γ} {g : α → β} {h : α → γ}
    (each : ∀ item ∈ items, f (g item) = some (h item)) :
    (items.map g).mapM f = some (items.map h) := by
  induction items with
  | nil => rfl
  | cons item rest ih =>
    obtain ⟨first, later⟩ := List.forall_mem_cons.1 each
    rw [List.map_cons, List.mapM_cons, first, ih later]
    rfl

omit parsed in
theorem byteSpan_eq {span : Span} (order : span.start ≤ span.stop) (bound : span.stop ≤ source.length) :
    SourceFile.byteSpan source span = span.inBytes source := by
  simp only [SourceFile.byteSpan, Span.inBytes, Text.byteAt, Nat.sub_eq_zero_of_le bound,
    Nat.sub_eq_zero_of_le (order.trans bound), Nat.add_zero]

/-- A file whose bodies are written with all checks is written with all checks. -/
theorem renderBytes?_inBytes {file : SourceFile} (placed : file.Placed source trees)
    (bodies : ∀ struct ∈ file.structs, (struct.inBytes source).bodyEditBytes? source =
      some ((struct.bodyEdit source).inBytes source)) :
    file.inBytes.renderBytes? = some file.render := by
  have imports := editBytes?_of_anchor parsed placed.anchor_eq
  have structs : (file.inBytes.structs.filter (·.changed)).mapM
      (StructDeclaration.bodyEditBytes? source) =
        some (((file.structs.filter (·.changed)).map (StructDeclaration.bodyEdit source)).map
          (Edit.inBytes source)) := by
    rw [SourceFile.inBytes, placed.source_eq, List.filter_map, List.map_map]
    apply mapM_map_eq_some
    intro struct held
    exact bodies struct (List.mem_filter.1 held).1
  have edits : ((file.imports.edit? source).map (Edit.inBytes source)).toList ++
      ((file.structs.filter (·.changed)).map (StructDeclaration.bodyEdit source)).map
        (Edit.inBytes source) = file.edits.map (Edit.inBytes source) := by
    rw [SourceFile.edits, placed.source_eq, List.map_append, ← Option.toList_map]
  have inside := placed.edits_inside parsed
  have sorted := sortBy_map (Edit.before_inBytes source) file.edits
  have source_eq : file.inBytes.source = source := placed.source_eq
  have imports_eq : file.inBytes.imports =
      { file.imports with anchor := file.imports.anchor.inBytes source } := by
    rw [SourceFile.inBytes, placed.source_eq]
  simp only [SourceFile.renderBytes?, source_eq, imports_eq, imports, structs, Option.bind_eq_bind,
    Option.bind_some, edits, sorted, Edit.overlap?_inBytes, List.isEmpty_map]
  rw [SourceFile.render, placed.source_eq, Edit.applyAll]
  split
  · rfl
  · cases overlaps : Edit.overlap? (sortBy Edit.before file.edits) with
    | some pair =>
      obtain ⟨one, other⟩ := pair
      obtain ⟨first, second⟩ := Edit.mem_of_overlap? overlaps
      have held {edit : Edit} (among : edit ∈ sortBy Edit.before file.edits) :=
        inside edit ((sortBy_perm Edit.before file.edits).mem_iff.1 among)
      simp only [byteSpan_eq (held first).1 (held first).2, byteSpan_eq (held second).1 (held second).2]
      rfl
    | none =>
      have made : Edit.applyAll source file.edits =
          .ok (Edit.replaceAll 0 source (sortBy Edit.before file.edits)) := by
        rw [Edit.applyAll, overlaps]
      have spliced := Edit.applyAll_spliced inside made
      have checked := @Edit.Spliced.replaceAllBytes? source [] [] _ [] _ _ _ spliced (by simp) rfl
      simp only [List.length_nil, Text.byteAt_zero, List.nil_append] at checked
      simp only [Option.map_none, checked, Option.bind_some]
      rfl

end Parsed

/-- A file that was read is written with all checks, whatever imports, fields and tags it got: no place
is out of bounds or inside a character, no span ends before it starts, and no difference of places is
below zero. -/
theorem emission_checks_succeed {source : Text} {file : SourceFile}
    (read : SourceFile.parse? source = some file) {changes : List FileChange}
    (fresh : ∀ change ∈ changes, change.Fresh) :
    (∃ trees, Go.parse? source = some trees ∧ CountedInBytes source trees file) ∧
      (file.inBytes.changeAll changes).renderBytes? = some (file.changeAll changes).render := by
  obtain ⟨trees, parsed, original⟩ := SourceFile.exists_trees read
  refine ⟨⟨trees, parsed, countedInBytes parsed read⟩, ?_⟩
  have placed := original.of_samePlaces (file.changeAll_samePlaces changes)
  rw [file.changeAll_inBytes fresh]
  apply renderBytes?_inBytes parsed placed
  intro after inside
  obtain ⟨before, among, extended⟩ :=
    exists_left_of_forall₂ (file.changeAll_extended changes) after inside
  have same := read
  rw [SourceFile.parse?, parsed] at same
  cases Option.some.inj same
  obtain ⟨spec, held, made⟩ := List.mem_filterMap.1 among
  exact bodyEditBytes?_of_extended parsed held made extended (placed.stand after inside).1

/-- Two fields on one line get tags, behind letters of two bytes. -/
theorem emission_checks_succeed_of_wide_letters :
    let source := ("package a\nimport (\n\t\"é\" // ö\n)\ntype A struct/*ä*/\x7b\n" ++
      "\t/*ü*/ Xß d; Y é \x60ö\x60 // ä\n\x7d\n").toList
    let changes := [FileChange.addImport "c".toList, .setTag 0 0 "\x60ä\x60".toList,
      .setTag 0 1 "\x60\x60".toList, .addField 0 ⟨["D".toList], "é".toList, none, none⟩]
    let out := ("package a\nimport (\n\t\"c\"\n\t\"é\" // ö\n)\ntype A struct/*ä*/\x7b\n" ++
      "\t/*ü*/ Xß d \x60ä\x60; Y é \x60\x60 // ä\n\tD é\n\x7d\n").toList
    ∃ file, SourceFile.parse? source = some file ∧
      (file.inBytes.changeAll changes).renderBytes? = some (.ok out) := by
  intro source changes out
  have output : (SourceFile.parse? source).map (fun file => (file.changeAll changes).render) =
      some (.ok out) := by decide +kernel
  obtain ⟨file, read, written⟩ := Option.map_eq_some_iff.1 output
  refine ⟨file, read, ?_⟩
  rw [(emission_checks_succeed read (by simp [changes, FileChange.Fresh])).2, written]

end GoGraft
