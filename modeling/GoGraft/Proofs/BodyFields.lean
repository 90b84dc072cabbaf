import GoGraft.Proofs.Columns
import GoGraft.Proofs.EmissionFrame

/-! The lines of a body and the fields of its struct. Read in order, the lines name every field
once, and every field or comment of the source is on one of them. Adding fields and setting tags
keeps the numbers, so that a body that is written again has each field once, in order. -/

namespace GoGraft

/-- The numbers of the fields on a line. -/
def BodyLine.indices : BodyLine → List Nat
  | .blank => []
  | .field index _ => [index]
  | .verbatim _ fields => fields

/-- Read in order, the lines of the body name every field once. -/
def StructDeclaration.Numbered (struct : StructDeclaration) : Prop :=
  struct.body.lines.flatMap BodyLine.indices = List.range struct.fields.length

/-! ### Reading -/

namespace ItemLine

theorem of_isFieldLine {line : ItemLine} (single : line.isFieldLine) :
    line.first.isNode .field ∧ ∃ comment : Option Located,
      line.rest = comment.toList ∧ ∀ item ∈ comment, item.isComment := by
  simp only [isFieldLine, Bool.and_eq_true] at single
  obtain ⟨⟨_, kind⟩, behind⟩ := single
  refine ⟨kind, ?_⟩
  split at behind
  next none_behind => exact ⟨none, none_behind, by simp⟩
  next item one => exact ⟨some item, one, by simpa using behind⟩
  next => cases behind

theorem not_field_of_isComment {item : Located} (comment : item.isComment) :
    item.isNode .field = false := by
  rw [Located.isComment] at comment
  rw [Located.isNode]
  split at comment
  next tree => simp [tree]
  next => cases comment

theorem fields_of_isFieldLine {line : ItemLine} (single : line.isFieldLine) :
    line.fields = [Field.ofNode line.first] := by
  obtain ⟨kind, comment, rest, comments⟩ := of_isFieldLine single
  have others : line.rest.filter (Located.isNode .field) = [] := by
    rw [rest, List.filter_eq_nil_iff]
    intro item inside
    simp [not_field_of_isComment (comments item (Option.mem_toList.1 inside))]
  rw [ItemLine.fields, items, List.filter_cons_of_pos kind, others]
  rfl

theorem indices_toBodyLine (source : Text) (number : Nat) (line : ItemLine) :
    (line.toBodyLine source number).indices = List.range' number line.fields.length := by
  rw [toBodyLine]
  split
  next single =>
    rw [fields_of_isFieldLine single]
    rfl
  next => rfl

/-- How a body line keeps a line of items, where the struct has the given fields. -/
def KeptBy (fields : List Field) (line : ItemLine) : BodyLine → Prop
  | .blank => False
  | .field index comment =>
    line.isFieldLine ∧ fields[index]? = some (Field.ofNode line.first) ∧
      line.rest.map Located.text = comment.toList
  | .verbatim span indices =>
    indices.map (fields[·]?) = line.fields.map some ∧ ∀ item ∈ line.items, item.span.Inside span

/-- The items of a line stand between its ends. -/
def Proper (line : ItemLine) : Prop :=
  ∀ item ∈ line.items, item.span.Inside line.span

theorem proper_of_ordered {line : ItemLine}
    (ordered : line.items.Pairwise fun one other => one.stop.offset ≤ other.start.offset)
    (spans : ∀ item ∈ line.items, item.start.offset ≤ item.stop.offset) : line.Proper := by
  intro item inside
  have first := spans line.first List.mem_cons_self
  have last := spans line.last line.last_mem_items
  refine ⟨?_, spans item inside, ?_⟩
  · rcases List.mem_cons.1 inside with rfl | later
    · exact Nat.le_refl _
    · exact first.trans ((List.pairwise_cons.1 ordered).1 item later)
  · have parts : line.items = line.items.dropLast ++ [line.last] := by
      rw [ItemLine.last, ← List.getLast_eq_getLastD (List.cons_ne_nil _ _)]
      exact (List.dropLast_append_getLast _).symm
    rw [parts] at ordered inside
    rcases List.mem_append.1 inside with earlier | same
    · exact ((List.pairwise_append.1 ordered).2.2 item earlier line.last (by simp)).trans last
    · rw [List.mem_singleton.1 same]
      exact Nat.le_refl _

theorem keptBy_toBodyLine {line : ItemLine} (proper : line.Proper) (source : Text)
    (before after : List Field) :
    line.KeptBy (before ++ line.fields ++ after) (line.toBodyLine source before.length) := by
  rw [toBodyLine]
  split
  next single =>
    obtain ⟨_, comment, rest, _⟩ := of_isFieldLine single
    rw [fields_of_isFieldLine single]
    refine ⟨single, by simp, ?_⟩
    cases comment <;> simp [rest]
  next =>
    constructor
    · apply List.ext_getElem (by simp)
      intro index _ inside
      have bound : index < line.fields.length := by simpa using inside
      simp [List.getElem?_append_right, List.getElem?_append_left, bound]
    · intro item inside
      refine (proper item inside).trans ⟨Nat.sub_le _ _, ?_, Nat.le_refl _⟩
      have first := proper line.first List.mem_cons_self
      exact first.2.1.trans first.2.2

end ItemLine

theorem indices_bodyLines (source : Text) (number : Nat) (above : Option Nat) (lines : List ItemLine) :
    (bodyLines source number above lines).flatMap BodyLine.indices =
      List.range' number (lines.flatMap ItemLine.fields).length := by
  induction lines generalizing number above with
  | nil => rfl
  | cons line rest ih =>
    have gap (above : Option Nat) : (if above.any fun row => row + 1 < line.startRow then
        [BodyLine.blank] else []).flatMap BodyLine.indices = [] := by
      split <;> rfl
    rw [bodyLines, List.flatMap_append, gap, List.nil_append, List.flatMap_cons, ih,
      ItemLine.indices_toBodyLine, List.flatMap_cons, List.length_append, List.range'_append_1]

theorem toBodyLine_ne_blank (source : Text) (number : Nat) (line : ItemLine) :
    line.toBodyLine source number ≠ .blank := by
  rw [ItemLine.toBodyLine]
  split <;> simp

/-- The lines of items and the lines that are not blank go together, one by one. -/
theorem bodyLines_keep {lines : List ItemLine} (proper : ∀ line ∈ lines, line.Proper) (source : Text)
    (before : List Field) (above : Option Nat) :
    List.Forall₂ (ItemLine.KeptBy (before ++ lines.flatMap ItemLine.fields)) lines
      ((bodyLines source before.length above lines).filter (· ≠ .blank)) := by
  induction lines generalizing before above with
  | nil => exact .nil
  | cons line rest ih =>
    have gap (above : Option Nat) : (if above.any fun row => row + 1 < line.startRow then
        [BodyLine.blank] else []).filter (· ≠ .blank) = [] := by
      split <;> rfl
    have others := ih (fun other inside => proper other (List.mem_cons_of_mem line inside))
      (before ++ line.fields) (some line.stopRow)
    rw [bodyLines, List.filter_append, gap, List.nil_append,
      List.filter_cons_of_pos (by simp [toBodyLine_ne_blank]), List.flatMap_cons]
    rw [List.length_append, List.append_assoc] at others
    refine .cons ?_ others
    rw [← List.append_assoc]
    exact line.keptBy_toBodyLine (proper line List.mem_cons_self) source before _

/-! ### Changes -/

namespace StructDeclaration

theorem Numbered.addField {struct : StructDeclaration} (numbered : struct.Numbered) (field : Field) :
    (struct.addField field).Numbered := by
  rw [Numbered] at numbered ⊢
  simp [StructDeclaration.addField, numbered, BodyLine.indices, List.range_succ]

theorem Numbered.setTag {struct : StructDeclaration} (numbered : struct.Numbered) (index : Nat)
    (tag : Text) : ((struct.setTag? index tag).getD struct).Numbered := by
  rw [StructDeclaration.setTag?]
  split
  · exact numbered
  · split
    · exact numbered
    · simpa [Numbered] using numbered

end StructDeclaration

namespace SourceFile

private theorem numbered_modify {structs : List StructDeclaration}
    (numbered : ∀ struct ∈ structs, struct.Numbered) {step : StructDeclaration → StructDeclaration}
    (kept : ∀ struct : StructDeclaration, struct.Numbered → (step struct).Numbered) (number : Nat) :
    ∀ struct ∈ structs.modify number step, struct.Numbered := by
  intro struct inside
  obtain ⟨index, found⟩ := List.mem_iff_getElem?.1 inside
  rw [List.getElem?_modify] at found
  obtain ⟨old, held, same⟩ := Option.map_eq_some_iff.1 found
  have before := numbered old (List.mem_of_getElem? held)
  by_cases here : number = index
  · rw [← same, if_pos here]
    exact kept old before
  · rw [← same, if_neg here]
    exact before

theorem change_numbered {file : SourceFile} (numbered : ∀ struct ∈ file.structs, struct.Numbered)
    (change : FileChange) : ∀ struct ∈ (file.change change).structs, struct.Numbered := by
  cases change with
  | addImport path => exact numbered
  | addField number field => exact numbered_modify numbered (fun _ held => held.addField field) number
  | setTag number index tag =>
    exact numbered_modify numbered (fun _ held => held.setTag index tag) number

theorem changeAll_numbered {file : SourceFile} (numbered : ∀ struct ∈ file.structs, struct.Numbered)
    (changes : List FileChange) : ∀ struct ∈ (file.changeAll changes).structs, struct.Numbered := by
  induction changes generalizing file with
  | nil => exact numbered
  | cons change rest ih => exact ih (change_numbered numbered change)

end SourceFile

/-! ### Writing -/

namespace StructDeclaration

/-- What a line of the body is written as. A line with a field has the cells of the field in their
order, with spaces between. -/
def Writes (source : Text) (struct : StructDeclaration) : BodyLine → Text → Prop
  | .blank, line => line = []
  | .field index comment, line => ∃ field text, struct.fields[index]? = some field ∧
    Layout.Spaced (field.cells comment) text ∧
      (line = struct.body.indent ++ text ∨ line = struct.body.indent ++ Text.trimEnd text)
  | .verbatim span held, line => line = struct.renderVerbatim source span held

theorem renderSection_spaced (struct : StructDeclaration) (rows : List (List Text)) :
    List.Forall₂ (fun row line => ∃ text, Layout.Spaced row text ∧
      (line = struct.body.indent ++ text ∨ line = struct.body.indent ++ Text.trimEnd text))
      rows (struct.renderSection rows) := by
  rw [renderSection, List.forall₂_map_right_iff]
  split
  · rw [List.forall₂_map_right_iff, List.forall₂_same]
    exact fun row _ => ⟨_, .join_filter row, .inl rfl⟩
  · refine (Layout.align_spaced rows).imp ?_
    rintro row line ⟨text, spaced, rfl⟩
    exact ⟨text, spaced, .inr rfl⟩

/-- The cells of a line that is one field of the struct. -/
def row (struct : StructDeclaration) : BodyLine → List Text
  | .field index comment => (struct.fields[index]?.map fun field => field.cells comment).getD []
  | _ => []

/-- A line that is one field of the struct. -/
def IsRow (struct : StructDeclaration) (line : BodyLine) : Prop :=
  ∃ index comment field, line = .field index comment ∧ struct.fields[index]? = some field

theorem renderSection_writes (source : Text) {struct : StructDeclaration} {above : List BodyLine}
    (rows : ∀ line ∈ above, struct.IsRow line) :
    List.Forall₂ (struct.Writes source) above (struct.renderSection (above.map struct.row)) := by
  have spaced := struct.renderSection_spaced (above.map struct.row)
  rw [List.forall₂_map_left_iff] at spaced
  refine ((List.forall₂_and_left _ _).2 ⟨rows, spaced⟩).imp ?_
  rintro _ line ⟨⟨index, comment, field, rfl, found⟩, text, cells, written⟩
  rw [row, found] at cells
  exact ⟨field, text, found, cells, written⟩

/-- Each line of a body is written as one text; `above` are the lines that wait for their
columns. -/
theorem renderLines_writes (source : Text) {struct : StructDeclaration} {above lines : List BodyLine}
    (rows : ∀ line ∈ above, struct.IsRow line)
    (known : ∀ line ∈ lines, ∀ index ∈ line.indices, index < struct.fields.length) :
    List.Forall₂ (struct.Writes source) (above ++ lines)
      (struct.renderLines source (above.map struct.row) lines) := by
  induction lines generalizing above with
  | nil => simpa [renderLines] using renderSection_writes source rows
  | cons line rest ih =>
    have later := fun other inside => known other (List.mem_cons_of_mem line inside)
    have below := @ih [] (fun _ none => nomatch none) later
    cases line with
    | blank => exact List.rel_append (renderSection_writes source rows) (.cons rfl below)
    | verbatim span held =>
      exact List.rel_append (renderSection_writes source rows) (.cons rfl below)
    | field index comment =>
      have inside := known _ List.mem_cons_self index (by simp [BodyLine.indices])
      have found := List.getElem?_eq_getElem inside
      have more : ∀ line ∈ above ++ [.field index comment], struct.IsRow line := by
        intro line held
        rcases List.mem_append.1 held with earlier | same
        · exact rows line earlier
        · exact ⟨index, comment, _, List.mem_singleton.1 same, found⟩
      have written := ih more later
      rw [List.append_assoc, List.singleton_append, List.map_append] at written
      simpa [renderLines, row, found] using written

theorem Numbered.lt {struct : StructDeclaration} (numbered : struct.Numbered) :
    ∀ line ∈ struct.body.lines, ∀ index ∈ line.indices, index < struct.fields.length := by
  intro line inside index named
  rw [← List.mem_range, ← numbered]
  exact List.mem_flatMap.2 ⟨line, inside, named⟩

private theorem dropWhile_isEmpty (lines : List Text) :
    ∃ count, lines = List.replicate count [] ++ lines.dropWhile List.isEmpty := by
  induction lines with
  | nil => exact ⟨0, rfl⟩
  | cons line rest ih =>
    cases line with
    | nil =>
      obtain ⟨count, same⟩ := ih
      refine ⟨count + 1, ?_⟩
      rw [List.dropWhile_cons_of_pos rfl, List.replicate_succ, List.cons_append, ← same]
    | cons c text => exact ⟨0, by simp⟩

/-- Only empty lines are taken from the ends. -/
theorem exists_trimLines (lines : List Text) :
    ∃ top bottom, lines = List.replicate top [] ++ trimLines lines ++ List.replicate bottom [] := by
  obtain ⟨top, front⟩ := dropWhile_isEmpty lines
  obtain ⟨bottom, back⟩ := dropWhile_isEmpty (lines.dropWhile List.isEmpty).reverse
  refine ⟨top, bottom, ?_⟩
  have turned := congrArg List.reverse back
  rw [List.reverse_reverse, List.reverse_append, List.reverse_replicate] at turned
  rw [List.append_assoc, trimLines, ← turned, ← front]

/-- The body is written with each of its fields once, in order. Empty lines at the two ends are left
out. -/
structure WritesFields (source : Text) (struct : StructDeclaration) : Prop where
  numbered : struct.Numbered
  lines : ∃ written shown top bottom,
    List.Forall₂ (struct.Writes source) struct.body.lines written ∧
    written = List.replicate top [] ++ shown ++ List.replicate bottom [] ∧
    ("\n".toList ++ Text.join "\n".toList shown ++ "\n".toList ++ struct.body.closingIndent) <:+
      (struct.bodyEdit source).text

theorem Numbered.writesFields {struct : StructDeclaration} (numbered : struct.Numbered)
    (source : Text) : struct.WritesFields source := by
  refine ⟨numbered, ?_⟩
  have written := @renderLines_writes source struct [] _ (fun _ none => nomatch none) numbered.lt
  obtain ⟨top, bottom, ends⟩ := exists_trimLines (struct.renderLines source [] struct.body.lines)
  refine ⟨_, _, top, bottom, written, ends, ?_⟩
  rw [bodyEdit]
  split
  · exact List.suffix_append _ _
  · exact List.suffix_refl _

end StructDeclaration

/-! ### Whole files -/

/-- The struct of a list of fields keeps the items of the list on its lines. -/
structure StructDeclaration.KeepsItems (struct : StructDeclaration) (list : Located) : Prop where
  ordered : (fieldItems list).Pairwise fun one other => one.stop.offset ≤ other.start.offset
  lines : ∃ lines : List ItemLine, lines.flatMap ItemLine.items = fieldItems list ∧
    List.Forall₂ (ItemLine.KeptBy struct.fields) lines (struct.body.lines.filter (· ≠ .blank))

theorem fieldItems_ordered (list : Located) :
    (fieldItems list).Pairwise fun one other => one.stop.offset ≤ other.start.offset :=
  list.children_ordered.filter _

theorem fieldLines_keep (source : Text) (list : Located) :
    let lines := ItemLine.divide (fieldItems list)
    List.Forall₂ (ItemLine.KeptBy (lines.flatMap ItemLine.fields)) lines
      ((bodyLines source 0 none lines).filter (· ≠ .blank)) := by
  refine bodyLines_keep ?_ source [] none
  intro line inside
  refine ItemLine.proper_of_ordered (ItemLine.items_ordered (fieldItems_ordered list) inside) ?_
  intro item held
  have child := (List.mem_filter.1 (ItemLine.items_subset inside held)).1
  obtain ⟨_, _, _, among⟩ := Located.exists_node_of_mem_children child
  exact (Located.bounds_of_mem_sideBySide among).2.1

theorem ofSpec?_keepsItems {source : Text} {spec : Located} {struct : StructDeclaration}
    (read : StructDeclaration.ofSpec? source spec = some struct) :
    struct.Numbered ∧ ∃ type list, structNode? spec = some type ∧
      type.node? .fieldList = some list ∧ struct.KeepsItems list := by
  simp only [StructDeclaration.ofSpec?, Option.bind_eq_bind, Option.bind_eq_some_iff] at read
  obtain ⟨name, _, type, found, list, listed, made⟩ := read
  cases made
  constructor
  · rw [StructDeclaration.Numbered, indices_bodyLines, List.range_eq_range']
  · exact ⟨type, list, found, listed, fieldItems_ordered list, _,
      ItemLine.items_divide (fieldItems list), fieldLines_keep source list⟩

/-- Read in order, the lines of every body name each field once, and hold every field and comment of
the source once. Changes keep the numbers, and each field is written once, in order. -/
theorem bodies_hold_fields_in_order {source : Text} {file : SourceFile}
    (read : SourceFile.parse? source = some file) :
    (∃ trees, Go.parse? source = some trees ∧
      ∀ struct ∈ file.structs, ∃ spec ∈ typeSpecs (Located.sideBySide {} trees),
        StructDeclaration.ofSpec? source spec = some struct ∧ ∃ type list,
          structNode? spec = some type ∧ type.node? .fieldList = some list ∧
            struct.KeepsItems list) ∧
      ∀ changes, ∀ struct ∈ (file.changeAll changes).structs, struct.WritesFields source := by
  obtain ⟨trees, parsed, same⟩ := Option.map_eq_some_iff.1 read
  have from_spec : ∀ struct ∈ file.structs, ∃ spec ∈ typeSpecs (Located.sideBySide {} trees),
      StructDeclaration.ofSpec? source spec = some struct := by
    intro struct inside
    rw [← same] at inside
    exact List.mem_filterMap.1 inside
  refine ⟨⟨trees, parsed, fun struct inside => ?_⟩, fun changes struct inside => ?_⟩
  · obtain ⟨spec, held, made⟩ := from_spec struct inside
    exact ⟨spec, held, made, (ofSpec?_keepsItems made).2⟩
  · refine (SourceFile.changeAll_numbered ?_ changes struct inside).writesFields source
    intro struct inside
    obtain ⟨spec, _, made⟩ := from_spec struct inside
    exact (ofSpec?_keepsItems made).1

/-- A body with a field on a row of its own, a comment that joins rows, and two fields on one row. -/
theorem bodies_hold_fields_in_order_of_shared_rows :
    let source := "package a\ntype A struct \x7b\n\tB int // b\n\n\t/* c\n*/ C, D d; E e\n\x7d".toList
    ∃ file, SourceFile.parse? source = some file ∧
      file.structs.map (fun struct => struct.body.lines.map BodyLine.indices) = [[[0], [], [1, 2]]] ∧
      ∀ changes, ∀ struct ∈ (file.changeAll changes).structs, struct.WritesFields source := by
  intro source
  have lines : (SourceFile.parse? source).map (fun file =>
      file.structs.map fun struct => struct.body.lines.map BodyLine.indices) =
        some [[[0], [], [1, 2]]] := by decide +kernel
  obtain ⟨file, read, indices⟩ := Option.map_eq_some_iff.1 lines
  exact ⟨file, read, indices, (bodies_hold_fields_in_order read).2⟩

end GoGraft
