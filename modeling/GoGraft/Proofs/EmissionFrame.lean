import GoGraft.Proofs.FileLayout
import GoGraft.Proofs.Splicing
import Mathlib.Data.List.Pairwise

/-! What writing a file changes. Whatever was added to the model of a source, the text written is
the source with spans replaced that do not overlap: at most one for the imports, and one for each
changed struct, between the word `struct` and the closing brace. All else is kept. -/

namespace GoGraft

/-! ### Changes of a model -/

/-- A change of a file: an import more, a field more at the end of a struct, or another tag. -/
inductive FileChange where
  | addImport (path : Text)
  | addField (number : Nat) (field : Field)
  | setTag (number index : Nat) (tag : Text)

namespace SourceFile

def change (file : SourceFile) : FileChange → SourceFile
  | .addImport path => { file with imports := file.imports.add path }
  | .addField number field =>
    { file with structs := file.structs.modify number fun struct => struct.addField field }
  | .setTag number index tag =>
    { file with structs := file.structs.modify number fun struct =>
        (struct.setTag? index tag).getD struct }

def changeAll (file : SourceFile) (changes : List FileChange) : SourceFile :=
  changes.foldl change file

/-- Models of one source with their imports and bodies at the same places. -/
structure SamePlaces (file other : SourceFile) : Prop where
  source : other.source = file.source
  anchor : other.imports.anchor = file.imports.anchor
  bodies : other.structs.map (fun struct => struct.body.places) =
    file.structs.map fun struct => struct.body.places

theorem places_setTag? (struct : StructDeclaration) (index : Nat) (tag : Text) :
    ((struct.setTag? index tag).getD struct).body = struct.body := by
  rw [StructDeclaration.setTag?]
  split
  · rfl
  · split
    · rfl
    · rfl

theorem map_places_modify {structs : List StructDeclaration}
    {step : StructDeclaration → StructDeclaration}
    (kept : ∀ struct, (step struct).body.places = struct.body.places) (number : Nat) :
    (structs.modify number step).map (fun struct => struct.body.places) =
      structs.map fun struct => struct.body.places := by
  apply List.ext_getElem?
  intro index
  simp only [List.getElem?_map, List.getElem?_modify]
  cases structs[index]? with
  | none => rfl
  | some struct =>
    by_cases same : number = index
    · simp [same, kept]
    · simp [same]

theorem change_samePlaces (file : SourceFile) (change : FileChange) :
    file.SamePlaces (file.change change) := by
  cases change with
  | addImport path => exact ⟨rfl, rfl, rfl⟩
  | addField number field =>
    exact ⟨rfl, rfl, @map_places_modify _ (·.addField field) (fun _ => rfl) number⟩
  | setTag number index tag =>
    exact ⟨rfl, rfl, map_places_modify
      (fun struct => congrArg StructBody.places (places_setTag? struct index tag)) number⟩

theorem changeAll_samePlaces (file : SourceFile) (changes : List FileChange) :
    file.SamePlaces (file.changeAll changes) := by
  induction changes generalizing file with
  | nil => exact ⟨rfl, rfl, rfl⟩
  | cons change rest ih =>
    have first := file.change_samePlaces change
    have later := ih (file.change change)
    exact ⟨later.source.trans first.source, later.anchor.trans first.anchor,
      later.bodies.trans first.bodies⟩

end SourceFile

/-! ### Spans of the edits -/

theorem bodyEdit_span {source : Text} {struct : StructDeclaration}
    (stand : struct.body.places.StandIn source) :
    struct.body.keywordEnd ≤ (struct.bodyEdit source).span.start ∧
      (struct.bodyEdit source).span.start ≤ (struct.bodyEdit source).span.stop ∧
      (struct.bodyEdit source).span.stop = struct.body.closing := by
  have opened := stand.opened
  have ordered := stand.ordered
  simp only [StructBody.places] at opened ordered
  rw [StructDeclaration.bodyEdit]
  split
  · exact ⟨Nat.le_refl _, (Nat.le_of_lt opened).trans ordered, rfl⟩
  · exact ⟨Nat.le_of_lt opened, ordered, rfl⟩

theorem BodyPlaces.StandIn.closing_lt {source : Text} {places : BodyPlaces}
    (stand : places.StandIn source) : places.closing < source.length := by
  obtain ⟨bound, _⟩ := List.getElem?_eq_some_iff.1 stand.closingBrace
  exact bound

theorem lineEnd_le {source : Text} {offset : Nat} (inside : offset ≤ source.length) :
    Text.lineEnd source offset ≤ source.length := by
  have taken := (List.takeWhile_sublist (· != '\n') (l := source.drop offset)).length_le
  rw [List.length_drop] at taken
  rw [Text.lineEnd]
  omega

private theorem getElem?_length_takeWhile (p : Char → Bool) (text : Text) :
    text[(text.takeWhile p).length]? = (text.dropWhile p).head? := by
  induction text with
  | nil => rfl
  | cons c rest ih =>
    cases holds : p c with
    | true => simpa [holds] using ih
    | false => simp [holds]

theorem lineEnd_ne_brace (source : Text) (offset : Nat) :
    source[Text.lineEnd source offset]? ≠ some '\x7d' := by
  intro found
  rw [Text.lineEnd, ← List.getElem?_drop, getElem?_length_takeWhile] at found
  have stopped := List.head?_dropWhile_not (· != '\n') (source.drop offset)
  rw [found] at stopped
  cases stopped

theorem roots_apart {trees : List Go.Tree} {one other : Located}
    (first : one ∈ Located.sideBySide {} trees) (second : other ∈ Located.sideBySide {} trees)
    (different : one ≠ other) :
    one.stop.offset ≤ other.start.offset ∨ other.stop.offset ≤ one.start.offset := by
  let Apart (one other : Located) : Prop :=
    one.stop.offset ≤ other.start.offset ∨ other.stop.offset ≤ one.start.offset
  have symmetric : Std.Symm Apart := ⟨fun _ _ => Or.symm⟩
  have apart : (Located.sideBySide {} trees).Pairwise Apart :=
    (Located.sideBySide_ordered {} trees).imp Or.inl
  exact apart.forall first second different

/-- The first import declaration and the declaration of a type are apart. -/
theorem importDeclaration_apart {trees : List Go.Tree} {imports declaration : Located}
    (found : (Located.sideBySide {} trees).find? (Located.isNode .importDeclaration) = some imports)
    (root : declaration ∈ Located.sideBySide {} trees) (kind : declaration.isNode .typeDeclaration) :
    imports.stop.offset ≤ declaration.start.offset ∨
      declaration.stop.offset ≤ imports.start.offset := by
  refine roots_apart (List.mem_of_find?_eq_some found) root ?_
  rintro rfl
  obtain ⟨_, one⟩ := Located.isNode_iff.1 (List.find?_some found)
  obtain ⟨_, two⟩ := Located.isNode_iff.1 kind
  cases one.symm.trans two

/-- An edit for imports and one for a body are never for the same span. -/
theorem importEdit_ne_bodyEdit {source : Text} {trees : List Go.Tree} {edit : Edit}
    {places : BodyPlaces} {declaration : Located}
    (inside : edit.span.Inside (importRange source (Located.sideBySide {} trees)))
    (stand : places.StandIn source) (root : declaration ∈ Located.sideBySide {} trees)
    (kind : declaration.isNode .typeDeclaration)
    (start : declaration.start.offset < places.keywordEnd)
    (stop : places.closing < declaration.stop.offset) :
    ¬ (places.keywordEnd ≤ edit.span.start ∧ edit.span.stop = places.closing) := by
  rintro ⟨first, last⟩
  have opened := stand.opened
  have ordered := stand.ordered
  rw [importRange] at inside
  split at inside
  next other found =>
    have apart := importDeclaration_apart found root kind
    simp only [Span.Inside, Located.span] at inside
    omega
  next =>
    have place : importPlace source (Located.sideBySide {} trees) = places.closing := by
      simp only [Span.Inside] at inside
      omega
    have brace := stand.closingBrace
    rw [importPlace] at place
    split at place
    · rw [← place] at brace
      exact lineEnd_ne_brace _ _ brace
    · omega

section Parsed

variable {source : Text} {trees : List Go.Tree} (parsed : Go.parse? source = some trees)
include parsed

theorem importPlace_le : importPlace source (Located.sideBySide {} trees) ≤ source.length := by
  rw [importPlace]
  split
  next clause found =>
    have part := Located.partOf_roots parsed clause (List.mem_of_find?_eq_some found)
    exact lineEnd_le part.stands.stop_le
  next => exact Nat.zero_le _

theorem importRange_le :
    (importRange source (Located.sideBySide {} trees)).stop ≤ source.length := by
  rw [importRange]
  split
  next declaration found =>
    exact (Located.partOf_roots parsed declaration (List.mem_of_find?_eq_some found)).stands.stop_le
  next => exact importPlace_le parsed

end Parsed

/-! ### The edits of a changed file -/

theorem pairwise_toList {α : Type} (related : α → α → Prop) (found : Option α) :
    found.toList.Pairwise related := by
  cases found with
  | none => exact List.Pairwise.nil
  | some value => exact List.pairwise_singleton related value

/-- A model of a source with its imports and bodies where the trees of the source have them. -/
structure SourceFile.Placed (source : Text) (trees : List Go.Tree) (file : SourceFile) : Prop where
  source_eq : file.source = source
  anchor_eq : file.imports.anchor =
    (ImportSection.ofRoots source (Located.sideBySide {} trees)).anchor
  stand : ∀ struct ∈ file.structs, struct.body.places.StandIn source ∧
    ∃ declaration ∈ Located.sideBySide {} trees, declaration.isNode .typeDeclaration ∧
      declaration.start.offset < struct.body.places.keywordEnd ∧
      struct.body.places.closing < declaration.stop.offset
  ordered : file.structs.Pairwise fun one other =>
    one.body.places.closing < other.body.places.keywordEnd

theorem SourceFile.exists_trees {source : Text} {file : SourceFile}
    (read : SourceFile.parse? source = some file) :
    ∃ trees, Go.parse? source = some trees ∧ file.Placed source trees := by
  obtain ⟨trees, parsed, rfl⟩ := Option.map_eq_some_iff.1 read
  exact ⟨trees, parsed, rfl, rfl, fun _ inside => structs_stand parsed inside,
    structs_ordered parsed⟩

namespace SourceFile.Placed

variable {source : Text} {trees : List Go.Tree} {file : SourceFile}
  (placed : file.Placed source trees)
include placed

theorem of_samePlaces {other : SourceFile} (same : file.SamePlaces other) :
    other.Placed source trees where
  source_eq := same.source.trans placed.source_eq
  anchor_eq := same.anchor.trans placed.anchor_eq
  stand := by
    intro struct inside
    have held := List.mem_map_of_mem (f := fun struct => struct.body.places) inside
    rw [same.bodies] at held
    obtain ⟨original, among, places⟩ := List.mem_map.1 held
    rw [← places]
    exact placed.stand original among
  ordered := by
    have ordered : (file.structs.map fun struct => struct.body.places).Pairwise
        fun one other => one.closing < other.keywordEnd := List.pairwise_map.2 placed.ordered
    rw [← same.bodies] at ordered
    exact List.pairwise_map.1 ordered

theorem bodyEdit_span {struct : StructDeclaration} (inside : struct ∈ file.structs) :
    struct.body.keywordEnd ≤ (struct.bodyEdit source).span.start ∧
      (struct.bodyEdit source).span.start ≤ (struct.bodyEdit source).span.stop ∧
      (struct.bodyEdit source).span.stop = struct.body.closing :=
  GoGraft.bodyEdit_span (placed.stand struct inside).1

theorem edits_inside (parsed : Go.parse? source = some trees) :
    ∀ edit ∈ file.edits, edit.span.start ≤ edit.span.stop ∧ edit.span.stop ≤ source.length := by
  intro edit inside
  rw [edits, placed.source_eq] at inside
  rcases List.mem_append.1 inside with imports | bodies
  · have range := importEdit_inside parsed placed.anchor_eq (Option.mem_toList.1 imports)
    exact ⟨range.2.1, range.2.2.trans (importRange_le parsed)⟩
  · obtain ⟨struct, held, rfl⟩ := List.mem_map.1 bodies
    have among := (List.mem_filter.1 held).1
    obtain ⟨_, order, stop⟩ := placed.bodyEdit_span among
    have bound := (placed.stand struct among).1.closing_lt
    simp only [StructBody.places] at bound
    exact ⟨order, by omega⟩

theorem edits_apart (parsed : Go.parse? source = some trees) :
    file.edits.Pairwise fun one other => one.span ≠ other.span := by
  rw [edits, placed.source_eq]
  refine List.pairwise_append.2 ⟨pairwise_toList _ _, ?_, ?_⟩
  · refine List.pairwise_map.2 ((placed.ordered.filter _).imp_of_mem ?_)
    intro one other first second before same
    have oneSpan := placed.bodyEdit_span (List.mem_filter.1 first).1
    have otherSpan := placed.bodyEdit_span (List.mem_filter.1 second).1
    rw [same] at oneSpan
    simp only [StructBody.places] at before
    omega
  · intro edit imports other bodies same
    obtain ⟨struct, held, rfl⟩ := List.mem_map.1 bodies
    have among := (List.mem_filter.1 held).1
    obtain ⟨stand, declaration, root, kind, start, stop⟩ := placed.stand struct among
    have range := importEdit_inside parsed placed.anchor_eq (Option.mem_toList.1 imports)
    obtain ⟨first, _, last⟩ := placed.bodyEdit_span among
    exact importEdit_ne_bodyEdit range stand root kind start stop
      ⟨same ▸ first, same ▸ last⟩

end SourceFile.Placed

/-- `Frame source file importEdit bodyEdits edits out`: the text `out` of a file is its source with
edits made in it, one at most for the imports and one for the body of each changed struct. -/
structure Frame (source : Text) (file : SourceFile) (importEdit : Option Edit)
    (bodyEdits edits : List Edit) (out : Text) : Prop where
  collected : edits.Perm (importEdit.toList ++ bodyEdits)
  spliced : Edit.Spliced 0 source edits out
  added : importEdit.isSome ↔ file.imports.added ≠ []
  imports : ∀ edit ∈ importEdit, ∃ trees, Go.parse? source = some trees ∧
    edit.span.Inside (importRange source (Located.sideBySide {} trees))
  bodies : List.Forall₂
    (fun struct edit => struct.body.places.StandIn source ∧
      struct.body.keywordEnd ≤ edit.span.start ∧ edit.span.stop = struct.body.closing)
    (file.structs.filter (·.changed)) bodyEdits
  anyOrder : ∀ others, others.Perm edits → Edit.applyAll source others = .ok out

theorem isSome_edit? (source : Text) (imports : ImportSection) :
    (imports.edit? source).isSome ↔ imports.added ≠ [] := by
  rw [ImportSection.edit?]
  cases imports.added with
  | nil => simp
  | cons path rest => cases imports.anchor with
    | group => simp
    | single => simp
    | absent => simp

theorem render_eq_ok {file : SourceFile} {out : Text} (written : file.render = .ok out) :
    Edit.applyAll file.source file.edits = .ok out := by
  rw [SourceFile.render] at written
  split at written
  next empty =>
    cases written
    rw [List.isEmpty_iff.1 empty]
    rfl
  next =>
    split at written
    · cases written
    next output made =>
      split at written
      · cases written
        exact made
      · cases written

theorem render_frame {source out : Text} {file : SourceFile}
    (read : SourceFile.parse? source = some file) (changes : List FileChange)
    (written : (file.changeAll changes).render = .ok out) :
    ∃ importEdit bodyEdits edits,
      Frame source (file.changeAll changes) importEdit bodyEdits edits out := by
  obtain ⟨trees, parsed, original⟩ := SourceFile.exists_trees read
  have placed := original.of_samePlaces (file.changeAll_samePlaces changes)
  generalize file.changeAll changes = changed at *
  have made := render_eq_ok written
  rw [placed.source_eq] at made
  refine ⟨changed.imports.edit? source,
    (changed.structs.filter (·.changed)).map (StructDeclaration.bodyEdit source),
    sortBy Edit.before changed.edits, ?_, ?_, isSome_edit? _ _, ?_, ?_, ?_⟩
  · have same := sortBy_perm Edit.before changed.edits
    rwa [SourceFile.edits, placed.source_eq] at same ⊢
  · exact Edit.applyAll_spliced (placed.edits_inside parsed) made
  · intro edit some_edit
    exact ⟨trees, parsed, importEdit_inside parsed placed.anchor_eq some_edit⟩
  · rw [List.forall₂_map_right_iff, List.forall₂_same]
    intro struct inside
    have among := (List.mem_filter.1 inside).1
    obtain ⟨first, _, last⟩ := placed.bodyEdit_span among
    exact ⟨(placed.stand struct among).1, first, last⟩
  · intro others same
    have perm : changed.edits.Perm others :=
      (same.trans (sortBy_perm Edit.before changed.edits)).symm
    rw [← made, Edit.applyAll_eq_of_perm perm (placed.edits_apart parsed)]

/-- A file with one import and two structs, both of which get something. -/
theorem render_frame_of_two_structs :
    let source := "package a\nimport \"b\"\ntype A struct\x7b\x7d\ntype B struct \x7bC d//e\n\x7d".toList
    let changes := [.addImport "c".toList, .addField 0 ⟨["D".toList], "d".toList, none, none⟩,
      .setTag 1 0 "\x60\x60".toList]
    let out := ("package a\nimport (\n\t\"b\"\n\t\"c\"\n)\ntype A struct \x7b\n\tD d\n\x7d\n" ++
      "type B struct \x7b\nC d \x60\x60 //e\n\x7d").toList
    ∃ file, SourceFile.parse? source = some file ∧ (file.changeAll changes).render = .ok out ∧
      ∃ importEdit bodyEdits edits,
        Frame source (file.changeAll changes) importEdit bodyEdits edits out := by
  intro source changes out
  have output : (SourceFile.parse? source).map (fun file => (file.changeAll changes).render) =
      some (.ok out) := by decide +kernel
  obtain ⟨file, read, written⟩ := Option.map_eq_some_iff.1 output
  exact ⟨file, read, written, render_frame read changes written⟩

end GoGraft
