import Mathlib.Data.List.Forall2
import GoGraft.Proofs.SettledFiles

/-! No directive vanishes. After a graft every import that was asked for is there, and every field
and every tag update that was asked for has left a trace at each struct of its name: the struct has
what was asked for, or the report tells, at the line of the directive, why it has not. A directive
for a struct that the file does not have is reported as well. -/

namespace GoGraft

theorem Ordered.get?_of_mem {α : Type} {map : Ordered α} {key : Text} {value : α}
    (held : (key, value) ∈ map.entries) : map.get? key = some value := by
  obtain ⟨entries, distinct⟩ := map
  dsimp only [Ordered.get?] at held ⊢
  induction entries with
  | nil => cases held
  | cons entry rest ih =>
    obtain ⟨fresh, others⟩ := List.nodup_cons.1 distinct
    rcases List.mem_cons.1 held with rfl | later
    · simp [Ordered.find?]
    · have different : entry.1 ≠ key := by
        rintro rfl
        exact fresh (List.mem_map.2 ⟨_, later, rfl⟩)
      rw [Ordered.find?, if_neg different]
      exact ih others later

/-- A field as it is without its tag. -/
def Field.untagged (field : Field) : Field :=
  { field with tag := none }

/-- What a field directive leaves at a struct of its name. -/
def FieldTrace (told : Report) (text : Text) (line : Nat) (before after : StructDeclaration) : Prop :=
  match FieldSpec.parse? text with
  | none => malformedField text line ∈ told.skipped
  | some spec =>
    duplicateField (before.name ++ ".".toList ++ spec.identity) line ∈ told.skipped ∨
      ∃ appended, after.fields.map Field.untagged = before.fields.map Field.untagged ++ appended ∧
        spec.toField ∈ appended

/-- What a tag update leaves at a struct of its name. A field of the struct that the update is for
has every pair of it. -/
def TagTrace (told : Report) (entry : Declaration) (key : Text) (update : TagUpdate)
    (after : StructDeclaration) : Prop :=
  tagWithoutField after.name key update ∈ told.skipped ∨ malformedTags update ∈ told.skipped ∨
    ∃ field ∈ after.fields, entry.keyFor? field = some key ∧
      ∃ literal, field.tag = some literal ∧
        ∀ pair ∈ (TagSet.parse update.text).pairs, pair ∈ (TagSet.ofLiteral literal).pairs

/-! ### What is skipped stays in the report -/

theorem addField_skipped (state : StructDeclaration × Report) (directive : Text × Nat) :
    state.2.skipped ⊆ (addField state directive).2.skipped := by
  rw [addField]
  split
  · exact List.subset_append_left _ _
  · dsimp only
    split
    · exact List.subset_append_left _ _
    · exact List.Subset.refl _

theorem foldl_addField_skipped (directives : List (Text × Nat)) (state : StructDeclaration × Report) :
    state.2.skipped ⊆ (directives.foldl addField state).2.skipped := by
  induction directives generalizing state with
  | nil => exact List.Subset.refl _
  | cons directive rest ih => exact List.Subset.trans (addField_skipped state directive) (ih _)

theorem addFields_skipped (entry : Declaration) (struct : StructDeclaration) (report : Report) :
    report.skipped ⊆ (addFields entry struct report).2.skipped :=
  foldl_addField_skipped entry.fields.entries (struct, report)

theorem mergeStructTags_skipped (entry : Declaration) (struct : StructDeclaration) (report : Report) :
    report.skipped ⊆ (mergeStructTags entry struct report).2.skipped := by
  rw [mergeStructTags_eq, List.append_assoc]
  exact List.subset_append_left _ _

section
variable {registry : Registry}
  {work : Declaration → StructDeclaration → Report → StructDeclaration × Report}
  (grows : ∀ entry struct report, report.skipped ⊆ (work entry struct report).2.skipped)
include grows

theorem workOnStructs_skipped (structs : List StructDeclaration) (report : Report) :
    report.skipped ⊆ (workOnStructs registry work structs report).2.skipped := by
  induction structs generalizing report with
  | nil => exact List.Subset.refl _
  | cons struct rest ih =>
    simp only [workOnStructs]
    cases registry.declaration? struct.name with
    | none => exact ih report
    | some entry => exact List.Subset.trans (grows entry struct report) (ih _)

/-- What the work on one struct tells, whatever was told before, is told of all structs. -/
theorem workOnStructs_tells {structs : List StructDeclaration} {struct : StructDeclaration}
    (inside : struct ∈ structs) {entry : Declaration}
    (found : registry.declaration? struct.name = some entry) {skip : Skip}
    (told : ∀ report, skip ∈ (work entry struct report).2.skipped) (report : Report) :
    skip ∈ (workOnStructs registry work structs report).2.skipped := by
  induction structs generalizing report with
  | nil => cases inside
  | cons first rest ih =>
    simp only [workOnStructs]
    rcases List.mem_cons.1 inside with rfl | later
    · rw [found]
      exact workOnStructs_skipped grows rest _ (told report)
    · exact ih later _

end

theorem mem_skipsForMissing {registry : Registry} {file : SourceFile}
    {skips : Text → Declaration → List Skip} {name : Text} {entry : Declaration} {skip : Skip}
    (asked : (name, entry) ∈ registry.declarations.entries)
    (missing : ∀ struct ∈ file.structs, struct.name ≠ name) (told : skip ∈ skips name entry) :
    skip ∈ skipsForMissing registry file skips := by
  have absent : file.findStruct? name = none := by
    simpa [SourceFile.findStruct?, List.find?_eq_none] using missing
  refine List.mem_flatMap.2 ⟨(name, entry), asked, ?_⟩
  simpa [absent] using told

/-! ### Fields -/

theorem foldl_grow_fields (texts : List Text) (struct : StructDeclaration) :
    ∃ appended, (texts.foldl StructDeclaration.grow struct).fields = struct.fields ++ appended := by
  induction texts generalizing struct with
  | nil => exact ⟨[], by simp⟩
  | cons text rest ih =>
    obtain ⟨later, fields⟩ := ih (struct.grow text)
    rw [List.foldl_cons, fields, StructDeclaration.grow]
    cases FieldSpec.parse? text with
    | none => exact ⟨later, rfl⟩
    | some spec =>
      by_cases known : struct.hasIdentity spec.identity
      · exact ⟨later, by simp [known]⟩
      · exact ⟨spec.toField :: later, by simp [known, StructDeclaration.addField]⟩

/-- Whether a directive is skipped depends on the struct alone, not on what was told before. -/
theorem foldl_addField_traces {directives : List (Text × Nat)} {text : Text} {line : Nat}
    (asked : (text, line) ∈ directives) (struct : StructDeclaration) :
    match FieldSpec.parse? text with
    | none => ∀ report,
      malformedField text line ∈ (directives.foldl addField (struct, report)).2.skipped
    | some spec =>
      (∀ report, duplicateField (struct.name ++ ".".toList ++ spec.identity) line ∈
        (directives.foldl addField (struct, report)).2.skipped) ∨
      ∃ appended, ((directives.map Prod.fst).foldl StructDeclaration.grow struct).fields =
        struct.fields ++ appended ∧ spec.toField ∈ appended := by
  induction directives generalizing struct with
  | nil => cases asked
  | cons directive rest ih =>
    rcases List.mem_cons.1 asked with rfl | later
    · cases parsed : FieldSpec.parse? text with
      | none =>
        intro report
        apply foldl_addField_skipped rest
        simp [addField, parsed, Report.skip]
      | some spec =>
        by_cases known : struct.hasIdentity spec.identity
        · left
          intro report
          apply foldl_addField_skipped rest
          simp [addField, parsed, known, Report.skip]
        · right
          obtain ⟨appended, fields⟩ :=
            foldl_grow_fields (rest.map Prod.fst) (struct.addField spec.toField)
          refine ⟨spec.toField :: appended, ?_, by simp⟩
          simpa [StructDeclaration.grow, parsed, known, StructDeclaration.addField] using fields
    · have traced := ih later (struct.grow directive.1)
      have step (report : Report) : addField (struct, report) directive =
          (struct.grow directive.1, (addField (struct, report) directive).2) := by
        rw [← addField_fst struct report directive]
      cases parsed : FieldSpec.parse? text with
      | none =>
        rw [parsed] at traced
        intro report
        rw [List.foldl_cons, step]
        exact traced _
      | some spec =>
        rw [parsed] at traced
        rcases traced with told | ⟨appended, fields, inside⟩
        · left
          intro report
          rw [StructDeclaration.name_grow] at told
          rw [List.foldl_cons, step]
          exact told _
        · right
          obtain ⟨first, grown⟩ := foldl_grow_fields [directive.1] struct
          rw [List.foldl_cons, List.foldl_nil] at grown
          refine ⟨first ++ appended, ?_, List.mem_append_right _ inside⟩
          rw [List.map_cons, List.foldl_cons, fields, grown, List.append_assoc]

theorem untagged_tagged (entry : Declaration) (field : Field) :
    (entry.tagged field).untagged = field.untagged := by
  rw [Declaration.tagged]
  split
  · rfl
  · dsimp only
    split <;> rfl

theorem map_untagged_tagAll (entry : Declaration) (struct : StructDeclaration) :
    (struct.tagAll entry).fields.map Field.untagged = struct.fields.map Field.untagged := by
  simp [StructDeclaration.tagAll, untagged_tagged]

@[simp] theorem FieldSpec.untagged_toField (spec : FieldSpec) :
    spec.toField.untagged = spec.toField := by
  cases spec <;> rfl

/-! ### Tags -/

/-- A field that an update is for has all pairs of the update, unless there are none. -/
theorem Declaration.tagged_holds {entry : Declaration} {field : Field} {key : Text} {update : TagUpdate}
    (addressed : entry.keyFor? field = some key) (found : entry.tags.get? key = some update)
    (given : ¬ (TagSet.parse update.text).isEmpty) :
    ∃ literal, (entry.tagged field).tag = some literal ∧
      ∀ pair ∈ (TagSet.parse update.text).pairs, pair ∈ (TagSet.ofLiteral literal).pairs := by
  have asked : entry.updateFor? field = some update := by
    rw [Declaration.updateFor?, addressed, Option.bind_some, found]
  have current : ((field.tag.map TagSet.ofLiteral).getD .empty).Read := by
    cases field.tag with
    | none => exact .empty
    | some literal => exact .ofLiteral literal
  have regular := (TagSet.Read.merge current (.parse update.text)).regular
  refine ⟨field.mergedTag (TagSet.parse update.text), by simp [Declaration.tagged, asked, given], ?_⟩
  intro pair held
  rw [Field.mergedTag, TagSet.ofLiteral_toLiteral regular]
  exact TagSet.mem_merge_of_mem_newer _ held

theorem keyFor?_tagged (entry : Declaration) (field : Field) :
    entry.keyFor? (entry.tagged field) = entry.keyFor? field := by
  simp [Declaration.keyFor?, Field.addressableNames, Field.isEmbedded]

/-- Which of the three becomes of an update depends on the struct alone. -/
theorem mergeStructTags_traces {entry : Declaration} {key : Text} {update : TagUpdate}
    (asked : (key, update) ∈ entry.tags.entries) (struct : StructDeclaration) :
    (∀ report, tagWithoutField struct.name key update ∈
      (mergeStructTags entry struct report).2.skipped) ∨
    (∀ report, malformedTags update ∈ (mergeStructTags entry struct report).2.skipped) ∨
    ∃ field ∈ (struct.tagAll entry).fields, entry.keyFor? field = some key ∧
      ∃ literal, field.tag = some literal ∧
        ∀ pair ∈ (TagSet.parse update.text).pairs, pair ∈ (TagSet.ofLiteral literal).pairs := by
  have found := Ordered.get?_of_mem asked
  by_cases addressed : ∃ field ∈ struct.fields, entry.keyFor? field = some key
  · right
    obtain ⟨field, inside, addressed⟩ := addressed
    by_cases empty : (TagSet.parse update.text).isEmpty
    · left
      intro report
      rw [mergeStructTags_eq]
      refine List.mem_append_left _ (List.mem_append_right _ (List.mem_filterMap.2 ⟨field, inside, ?_⟩))
      simp [Declaration.malformedFor?, Declaration.updateFor?, addressed, found, empty]
    · right
      refine ⟨entry.tagged field, List.mem_map_of_mem inside, ?_, ?_⟩
      · rw [keyFor?_tagged, addressed]
      · exact Declaration.tagged_holds addressed found empty
  · left
    intro report
    rw [mergeStructTags_eq]
    refine List.mem_append_right _ (List.mem_map.2 ⟨(key, update), ?_, rfl⟩)
    rw [List.mem_filter]
    refine ⟨asked, ?_⟩
    simp only [StructDeclaration.tagAll, List.filterMap_map, Function.comp_def, keyFor?_tagged,
      List.contains_eq_mem, List.mem_filterMap, Bool.not_eq_true', decide_eq_false_iff_not]
    exact addressed

/-! ### Whole files -/

section
variable {registry : Registry} {name : Text} {entry : Declaration}
  (asked : (name, entry) ∈ registry.declarations.entries)

theorem Registry.name_onStruct {work : Declaration → StructDeclaration → StructDeclaration}
    (keeps : ∀ entry struct, (work entry struct).name = struct.name) (registry : Registry)
    (struct : StructDeclaration) : (registry.onStruct work struct).name = struct.name := by
  rw [Registry.onStruct]
  split
  · exact keeps _ _
  · rfl

theorem Registry.missing_onStruct {work : Declaration → StructDeclaration → StructDeclaration}
    (keeps : ∀ entry struct, (work entry struct).name = struct.name) {registry : Registry} {name : Text}
    {structs : List StructDeclaration} (missing : ∀ struct ∈ structs, struct.name ≠ name) :
    ∀ struct ∈ structs.map (registry.onStruct work), struct.name ≠ name := by
  intro struct inside
  obtain ⟨old, held, rfl⟩ := List.mem_map.1 inside
  rw [registry.name_onStruct keeps]
  exact missing old held

theorem injectFields_structs (registry : Registry) (file : SourceFile) (report : Report) :
    (injectFields registry file report).1.structs =
      file.structs.map (registry.onStruct fun entry struct => struct.growAll entry) :=
  workOnStructs_structs addFields_fst file.structs report

theorem mergeTags_skipped (registry : Registry) (file : SourceFile) (report : Report) :
    report.skipped ⊆ (mergeTags registry file report).2.skipped :=
  List.Subset.trans (workOnStructs_skipped mergeStructTags_skipped file.structs report)
    (List.subset_append_left _ _)

include asked

theorem injectFields_traces {file : SourceFile} {struct : StructDeclaration}
    (inside : struct ∈ file.structs) (named : struct.name = name) {text : Text} {line : Nat}
    (directive : (text, line) ∈ entry.fields.entries) (report : Report) :
    FieldTrace (injectFields registry file report).2 text line struct (struct.growAll entry) := by
  have found : registry.declaration? struct.name = some entry := named ▸ Ordered.get?_of_mem asked
  have tells {skip : Skip} (told : ∀ report, skip ∈ (addFields entry struct report).2.skipped) :
      skip ∈ (injectFields registry file report).2.skipped :=
    List.mem_append_left _ (workOnStructs_tells addFields_skipped inside found told report)
  have traced := foldl_addField_traces directive struct
  rw [FieldTrace]
  cases parsed : FieldSpec.parse? text with
  | none =>
    rw [parsed] at traced
    exact tells traced
  | some spec =>
    rw [parsed] at traced
    rcases traced with told | ⟨appended, fields, inside⟩
    · exact Or.inl (tells told)
    · refine Or.inr ⟨appended.map Field.untagged, ?_, ?_⟩
      · rw [StructDeclaration.growAll, Ordered.keys, fields, List.map_append]
      · exact List.mem_map.2 ⟨spec.toField, inside, spec.untagged_toField⟩

theorem mergeTags_traces {file : SourceFile} {struct : StructDeclaration}
    (inside : struct ∈ file.structs) (named : struct.name = name) {key : Text} {update : TagUpdate}
    (directive : (key, update) ∈ entry.tags.entries) (report : Report) :
    TagTrace (mergeTags registry file report).2 entry key update (struct.tagAll entry) := by
  have found : registry.declaration? struct.name = some entry := named ▸ Ordered.get?_of_mem asked
  have tells {skip : Skip} (told : ∀ report, skip ∈ (mergeStructTags entry struct report).2.skipped) :
      skip ∈ (mergeTags registry file report).2.skipped :=
    List.mem_append_left _ (workOnStructs_tells mergeStructTags_skipped inside found told report)
  rcases mergeStructTags_traces directive struct with told | told | holds
  · exact Or.inl (tells told)
  · exact Or.inr (Or.inl (tells told))
  · exact Or.inr (Or.inr holds)

theorem injectFields_tells_missing {file : SourceFile}
    (missing : ∀ struct ∈ file.structs, struct.name ≠ name) {text : Text} {line : Nat}
    (directive : (text, line) ∈ entry.fields.entries) (report : Report) :
    fieldWithoutStruct name text line ∈ (injectFields registry file report).2.skipped := by
  refine List.mem_append_right _ (mem_skipsForMissing asked ?_ (List.mem_map_of_mem directive))
  dsimp only
  rw [workOnStructs_structs addFields_fst]
  exact Registry.missing_onStruct (fun _ _ => StructDeclaration.name_growAll _ _) missing

theorem mergeTags_tells_missing {file : SourceFile}
    (missing : ∀ struct ∈ file.structs, struct.name ≠ name) {key : Text} {update : TagUpdate}
    (directive : (key, update) ∈ entry.tags.entries) (report : Report) :
    tagWithoutStruct name key update ∈ (mergeTags registry file report).2.skipped := by
  refine List.mem_append_right _ (mem_skipsForMissing asked ?_ (List.mem_map_of_mem directive))
  dsimp only
  rw [workOnStructs_structs mergeStructTags_fst]
  have keeps (entry : Declaration) (struct : StructDeclaration) :
      (struct.tagAll entry).name = struct.name := rfl
  exact Registry.missing_onStruct keeps missing

end

/-- A trace of a field stays while more is told and tags are merged. -/
theorem FieldTrace.later {earlier told : Report} {text : Text} {line : Nat}
    {before grown after : StructDeclaration} (traced : FieldTrace earlier text line before grown)
    (skipped : earlier.skipped ⊆ told.skipped)
    (fields : after.fields.map Field.untagged = grown.fields.map Field.untagged) :
    FieldTrace told text line before after := by
  rw [FieldTrace] at traced ⊢
  cases parsed : FieldSpec.parse? text with
  | none =>
    rw [parsed] at traced
    exact skipped traced
  | some spec =>
    rw [parsed] at traced
    rcases traced with duplicate | appended
    · exact Or.inl (skipped duplicate)
    · exact Or.inr (fields ▸ appended)

/-- What is asked of the structs of one name has left its traces in the file and in the report. -/
structure Declaration.Traced (entry : Declaration) (name : Text) (before after : SourceFile)
    (told : Report) : Prop where
  fieldsWithout : (∀ struct ∈ before.structs, struct.name ≠ name) →
    ∀ text line, (text, line) ∈ entry.fields.entries → fieldWithoutStruct name text line ∈ told.skipped
  tagsWithout : (∀ struct ∈ before.structs, struct.name ≠ name) →
    ∀ key update, (key, update) ∈ entry.tags.entries → tagWithoutStruct name key update ∈ told.skipped
  structs : List.Forall₂
    (fun old new : StructDeclaration => new.name = old.name ∧ (old.name = name →
      (∀ text line, (text, line) ∈ entry.fields.entries → FieldTrace told text line old new) ∧
      ∀ key update, (key, update) ∈ entry.tags.entries → TagTrace told entry key update new))
    before.structs after.structs

theorem inject_traced {registry : Registry} {name : Text} {entry : Declaration}
    (asked : (name, entry) ∈ registry.declarations.entries) (file : SourceFile) (report : Report) :
    entry.Traced name file (inject registry file report).1 (inject registry file report).2 := by
  have found : registry.declaration? name = some entry := Ordered.get?_of_mem asked
  -- The file and the report between the passes.
  let imported := injectImports registry file report
  let grown := injectFields registry imported.1 imported.2
  have structs : grown.1.structs = file.structs.map _ :=
    injectFields_structs registry imported.1 imported.2
  have later : grown.2.skipped ⊆ (inject registry file report).2.skipped :=
    mergeTags_skipped registry grown.1 grown.2
  refine ⟨fun missing text line directive => ?_, fun missing key update directive => ?_, ?_⟩
  · exact later (injectFields_tells_missing asked missing directive imported.2)
  · have gone : ∀ struct ∈ grown.1.structs, struct.name ≠ name := by
      rw [structs]
      exact Registry.missing_onStruct (fun _ _ => StructDeclaration.name_growAll _ _) missing
    exact mergeTags_tells_missing asked gone directive grown.2
  · rw [inject_fst, List.forall₂_map_right_iff, List.forall₂_same]
    intro struct inside
    refine ⟨registry.name_onStruct (fun _ _ => by simp [StructDeclaration.tagAll]) struct, ?_⟩
    intro named
    have settled : registry.settle struct = (struct.growAll entry).tagAll entry := by
      simp [Registry.settle, Registry.onStruct, named, found]
    have kept : struct.growAll entry ∈ grown.1.structs := by
      rw [structs]
      exact List.mem_map.2 ⟨struct, inside, by simp [Registry.onStruct, named, found]⟩
    rw [settled]
    refine ⟨fun text line directive => ?_, fun key update directive => ?_⟩
    · exact (injectFields_traces asked inside named directive imported.2).later later
        (map_untagged_tagAll entry (struct.growAll entry))
    · exact mergeTags_traces asked kept (by simp [named]) directive grown.2

/-- No directive vanishes, whatever the file, the registry and what was told before. -/
theorem every_directive_leaves_trace (registry : Registry) (file : SourceFile) (report : Report) :
    let (after, told) := inject registry file report
    (∀ path ∈ registry.imports.keys, after.imports.contains path) ∧
      ∀ name entry, (name, entry) ∈ registry.declarations.entries →
        entry.Traced name file after told :=
  ⟨(settled_inject registry file report).imports, fun _ _ asked => inject_traced asked file report⟩

/-- A struct with a field that is there already, one that is new, and tags for the first. -/
theorem every_directive_leaves_trace_of_three :
    let source := ("package a\ntype A struct \x7b\n\tY d //name=y @gotags: json:\"y\"\n//@gofield: Y e\n" ++
      "//@gofield: Z e\n\x7d").toList
    let registry := (scan source).registry
    ∃ file entry, SourceFile.parse? source = some file ∧
      ("A".toList, entry) ∈ registry.declarations.entries ∧
      entry.fields.entries = [("Y e".toList, 4), ("Z e".toList, 5)] ∧
      entry.tags.entries = [("y".toList, ⟨"json:\"y\"".toList, 3⟩)] ∧
      entry.Traced "A".toList file (inject registry file {}).1 (inject registry file {}).2 := by
  intro source registry
  have read : (SourceFile.parse? source).isSome := by decide +kernel
  have entries : registry.declarations.entries.map
      (fun item => (item.1, item.2.fields.entries, item.2.tags.entries)) =
        [("A".toList, [("Y e".toList, 4), ("Z e".toList, 5)],
          [("y".toList, ⟨"json:\"y\"".toList, 3⟩)])] := by decide +kernel
  obtain ⟨file, parsed⟩ := Option.isSome_iff_exists.1 read
  obtain ⟨⟨name, entry⟩, asked, contents⟩ := List.mem_map.1 (entries ▸ List.mem_singleton_self _)
  simp only [Prod.mk.injEq] at contents
  obtain ⟨rfl, fields, tags⟩ := contents
  exact ⟨file, entry, parsed, asked, fields, tags,
    (every_directive_leaves_trace registry file {}).2 _ entry asked⟩

end GoGraft
