import GoGraft.Proofs.InjectionSteps
import GoGraft.Proofs.TagRoundTrip

/-! A file is settled if it has all that a registry asks for. Injecting leaves a settled file as it
is and tells of no change, and what it makes of any other file is settled. So injecting twice is
injecting once. -/

namespace GoGraft

/-- A struct has the fields of an entry, and its fields have the tags of the entry. Field texts and
tag texts that say nothing ask for nothing. -/
structure Declaration.Settles (entry : Declaration) (struct : StructDeclaration) : Prop where
  fields : ∀ text ∈ entry.fields.keys, ∀ spec, FieldSpec.parse? text = some spec →
    struct.hasIdentity spec.identity
  tags : ∀ field ∈ struct.fields, entry.tagged field = field

/-- A file has all that a registry asks for. -/
structure Settled (registry : Registry) (file : SourceFile) : Prop where
  imports : ∀ path ∈ registry.imports.keys, file.imports.contains path
  structs : ∀ struct ∈ file.structs, ∀ entry, registry.declaration? struct.name = some entry →
    entry.Settles struct

/-! ### Imports -/

theorem ImportSection.contains_add (imports : ImportSection) (path : Text) :
    (imports.add path).contains path := by
  simp [ImportSection.contains, ImportSection.add]

theorem ImportSection.contains_add_of_contains {imports : ImportSection} {path : Text}
    (held : imports.contains path) (other : Text) : (imports.add other).contains path := by
  simp only [ImportSection.contains, ImportSection.add, Bool.or_eq_true, List.contains_eq_mem,
    decide_eq_true_eq, List.mem_append] at held ⊢
  exact held.imp_right Or.inl

private theorem contains_addImport_of_contains {state : ImportSection × Report} {path : Text}
    (held : state.1.contains path) (other : Text) : (addImport state other).1.contains path := by
  rw [addImport]
  split
  · exact held
  · exact ImportSection.contains_add_of_contains held other

private theorem contains_foldl_of_contains {state : ImportSection × Report} {path : Text}
    (held : state.1.contains path) (paths : List Text) :
    (paths.foldl addImport state).1.contains path := by
  induction paths generalizing state with
  | nil => exact held
  | cons other rest ih => exact ih (contains_addImport_of_contains held other)

theorem contains_foldl_addImport {state : ImportSection × Report} {path : Text} {paths : List Text}
    (asked : path ∈ paths) : (paths.foldl addImport state).1.contains path := by
  induction paths generalizing state with
  | nil => cases asked
  | cons first rest ih =>
    rw [List.foldl_cons]
    rcases List.mem_cons.1 asked with rfl | later
    · apply contains_foldl_of_contains
      rw [addImport]
      split
      next held => exact held
      next => exact ImportSection.contains_add state.1 path
    · exact ih later

theorem foldl_addImport_of_contains {state : ImportSection × Report} {paths : List Text}
    (held : ∀ path ∈ paths, state.1.contains path) : paths.foldl addImport state = state := by
  induction paths with
  | nil => rfl
  | cons first rest ih =>
    have same : addImport state first = state := by simp [addImport, held first (by simp)]
    rw [List.foldl_cons, same]
    exact ih fun path inside => held path (List.mem_cons_of_mem _ inside)

/-! ### Fields -/

@[simp] theorem FieldSpec.mem_identities_toField (spec : FieldSpec) :
    spec.identity ∈ spec.toField.identities := by
  cases spec <;> simp [FieldSpec.identity, FieldSpec.toField, Field.identities, Field.isEmbedded]

theorem StructDeclaration.hasIdentity_addField (struct : StructDeclaration) (spec : FieldSpec) :
    (struct.addField spec.toField).hasIdentity spec.identity := by
  simp [StructDeclaration.hasIdentity, StructDeclaration.addField]

@[simp] theorem StructDeclaration.name_grow (struct : StructDeclaration) (text : Text) :
    (struct.grow text).name = struct.name := by
  rw [StructDeclaration.grow]
  split
  · rfl
  · split <;> rfl

@[simp] theorem StructDeclaration.name_growAll (entry : Declaration) (struct : StructDeclaration) :
    (struct.growAll entry).name = struct.name := by
  have each (texts : List Text) : (texts.foldl StructDeclaration.grow struct).name = struct.name := by
    induction texts generalizing struct with
    | nil => rfl
    | cons text rest ih => rw [List.foldl_cons, ih, StructDeclaration.name_grow]
  exact each _

private theorem hasIdentity_grow {struct : StructDeclaration} {identity : Text}
    (held : struct.hasIdentity identity) (text : Text) : (struct.grow text).hasIdentity identity := by
  rw [StructDeclaration.grow]
  split
  · exact held
  · split
    · exact held
    · simp only [StructDeclaration.hasIdentity, StructDeclaration.addField, List.any_append,
        Bool.or_eq_true] at held ⊢
      exact Or.inl held

private theorem hasIdentity_foldl_grow {struct : StructDeclaration} {identity : Text}
    (held : struct.hasIdentity identity) (texts : List Text) :
    (texts.foldl StructDeclaration.grow struct).hasIdentity identity := by
  induction texts generalizing struct with
  | nil => exact held
  | cons text rest ih => exact ih (hasIdentity_grow held text)

/-- After its fields are added a struct has the identity of each of them. -/
theorem StructDeclaration.hasIdentity_growAll {entry : Declaration} {text : Text} {spec : FieldSpec}
    (asked : text ∈ entry.fields.keys) (parsed : FieldSpec.parse? text = some spec)
    (struct : StructDeclaration) : (struct.growAll entry).hasIdentity spec.identity := by
  rw [StructDeclaration.growAll]
  generalize entry.fields.keys = texts at asked
  induction texts generalizing struct with
  | nil => cases asked
  | cons first rest ih =>
    rw [List.foldl_cons]
    rcases List.mem_cons.1 asked with rfl | later
    · apply hasIdentity_foldl_grow
      simp only [StructDeclaration.grow, parsed]
      split
      next held => exact held
      next => exact struct.hasIdentity_addField spec
    · exact ih (struct.grow first) later

theorem StructDeclaration.growAll_of_hasIdentity {entry : Declaration} {struct : StructDeclaration}
    (held : ∀ text ∈ entry.fields.keys, ∀ spec, FieldSpec.parse? text = some spec →
      struct.hasIdentity spec.identity) : struct.growAll entry = struct := by
  rw [StructDeclaration.growAll]
  generalize entry.fields.keys = texts at held
  induction texts with
  | nil => rfl
  | cons text rest ih =>
    have same : struct.grow text = struct := by
      rw [StructDeclaration.grow]
      cases parsed : FieldSpec.parse? text with
      | none => rfl
      | some spec => simp [held text (by simp) spec parsed]
    rw [List.foldl_cons, same]
    exact ih fun other inside => held other (List.mem_cons_of_mem _ inside)

/-! ### Tags -/

namespace Declaration

@[simp] theorem names_tagged (entry : Declaration) (field : Field) :
    (entry.tagged field).names = field.names := by
  rw [tagged]
  split
  · rfl
  · dsimp only
    split <;> rfl

@[simp] theorem type_tagged (entry : Declaration) (field : Field) :
    (entry.tagged field).type = field.type := by
  rw [tagged]
  split
  · rfl
  · dsimp only
    split <;> rfl

@[simp] theorem identities_tagged (entry : Declaration) (field : Field) :
    (entry.tagged field).identities = field.identities := by
  simp [Field.identities, Field.isEmbedded]

@[simp] theorem updateFor?_tagged (entry : Declaration) (field : Field) :
    entry.updateFor? (entry.tagged field) = entry.updateFor? field := by
  simp [updateFor?, keyFor?, Field.addressableNames, Field.isEmbedded]

end Declaration

/-- Tags that were merged into a tag are in it, so merging them again changes nothing. -/
theorem Field.mergedTag_again (field : Field) (incoming : TagSet) (read : incoming.Read) :
    { field with tag := some (field.mergedTag incoming) }.mergedTag incoming =
      field.mergedTag incoming := by
  have current : ((field.tag.map TagSet.ofLiteral).getD .empty).Read := by
    cases field.tag with
    | none => exact .empty
    | some literal => exact .ofLiteral literal
  have back := TagSet.ofLiteral_toLiteral (TagSet.Read.merge current read).regular
  simp only [Field.mergedTag, Option.map_some, Option.getD_some, back, TagSet.merge_merge_self]

theorem Declaration.tagged_tagged (entry : Declaration) (field : Field) :
    entry.tagged (entry.tagged field) = entry.tagged field := by
  cases asked : entry.updateFor? field with
  | none =>
    have same : entry.tagged field = field := by rw [Declaration.tagged, asked]
    rw [same, same]
  | some update =>
    by_cases none_given : (TagSet.parse update.text).isEmpty
    · have same : entry.tagged field = field := by simp [Declaration.tagged, asked, none_given]
      rw [same, same]
    · have once : entry.tagged field =
          { field with tag := some (field.mergedTag (TagSet.parse update.text)) } := by
        simp [Declaration.tagged, asked, none_given]
      have twice : entry.updateFor? (entry.tagged field) = some update := by simp [asked]
      rw [Declaration.tagged, twice]
      simp only [none_given, once, Field.mergedTag_again field _ (.parse update.text)]
      rfl

@[simp] theorem StructDeclaration.hasIdentity_tagAll (entry : Declaration) (struct : StructDeclaration)
    (identity : Text) : (struct.tagAll entry).hasIdentity identity = struct.hasIdentity identity := by
  simp [StructDeclaration.hasIdentity, StructDeclaration.tagAll, List.any_map, Function.comp_def]

theorem StructDeclaration.tagAll_of_tagged {entry : Declaration} {struct : StructDeclaration}
    (held : ∀ field ∈ struct.fields, entry.tagged field = field) : struct.tagAll entry = struct := by
  have same : struct.fields.map entry.tagged = struct.fields := by
    rw [List.map_congr_left held, List.map_id']
  have none_changes : (struct.fields.any fun field => decide (entry.tagged field ≠ field)) = false := by
    simp only [List.any_eq_false, decide_eq_true_eq, ne_eq, Classical.not_not]
    exact held
  rw [StructDeclaration.tagAll, same, none_changes, Bool.or_false]

/-! ### Whole files -/

/-- A struct after both passes over the structs. -/
def Registry.settle (registry : Registry) (struct : StructDeclaration) : StructDeclaration :=
  registry.onStruct (fun entry struct => (struct.growAll entry).tagAll entry) struct

private theorem onStruct_onStruct (registry : Registry) (struct : StructDeclaration) :
    registry.onStruct (fun entry struct => struct.tagAll entry)
      (registry.onStruct (fun entry struct => struct.growAll entry) struct) =
        registry.settle struct := by
  cases found : registry.declaration? struct.name with
  | none => simp [Registry.settle, Registry.onStruct, found]
  | some entry => simp [Registry.settle, Registry.onStruct, found]

theorem inject_fst (registry : Registry) (file : SourceFile) (report : Report) :
    (inject registry file report).1 =
      { file with
        imports := (registry.imports.keys.foldl addImport (file.imports, report)).1
        structs := file.structs.map registry.settle } := by
  have grown (structs : List StructDeclaration) (report : Report) :
      (workOnStructs registry addFields structs report).1 =
        structs.map (registry.onStruct fun entry struct => struct.growAll entry) :=
    workOnStructs_structs addFields_fst structs report
  have tagged (structs : List StructDeclaration) (report : Report) :
      (workOnStructs registry mergeStructTags structs report).1 =
        structs.map (registry.onStruct fun entry struct => struct.tagAll entry) :=
    workOnStructs_structs mergeStructTags_fst structs report
  simp only [inject, injectImports, injectFields, mergeTags, grown, tagged, List.map_map]
  congr 1
  exact List.map_congr_left fun struct _ => onStruct_onStruct registry struct

private theorem settles_settle {registry : Registry} {struct : StructDeclaration} {entry : Declaration}
    (found : registry.declaration? (registry.settle struct).name = some entry) :
    entry.Settles (registry.settle struct) := by
  cases own : registry.declaration? struct.name with
  | none => simp [Registry.settle, Registry.onStruct, own] at found
  | some held =>
    have shape : registry.settle struct = (struct.growAll held).tagAll held := by
      simp [Registry.settle, Registry.onStruct, own]
    have same : held = entry := by
      rw [shape] at found
      simpa [StructDeclaration.tagAll, own] using found
    subst same
    rw [shape]
    constructor
    · intro text asked spec parsed
      rw [StructDeclaration.hasIdentity_tagAll]
      exact StructDeclaration.hasIdentity_growAll asked parsed struct
    · intro field inside
      obtain ⟨old, _, rfl⟩ := List.mem_map.1 inside
      exact held.tagged_tagged old

/-- Injecting gives a file all that is asked for. -/
theorem settled_inject (registry : Registry) (file : SourceFile) (report : Report) :
    Settled registry (inject registry file report).1 := by
  rw [inject_fst]
  constructor
  · exact fun path asked => contains_foldl_addImport asked
  · intro struct inside entry found
    obtain ⟨old, _, rfl⟩ := List.mem_map.1 inside
    exact settles_settle found

/-- Fields that a struct has already are skipped, and so are texts that name none. -/
theorem addFields_sameChanges {entry : Declaration} {struct : StructDeclaration}
    (settled : entry.Settles struct) (report : Report) :
    report.SameChanges (addFields entry struct report).2 := by
  have each (directives : List (Text × Nat)) (asked : ∀ directive ∈ directives,
      directive.1 ∈ entry.fields.keys) (report : Report) :
      report.SameChanges (directives.foldl addField (struct, report)).2 := by
    induction directives generalizing report with
    | nil => exact .rfl
    | cons directive rest ih =>
      have others := ih fun other inside => asked other (List.mem_cons_of_mem _ inside)
      rw [List.foldl_cons, addField]
      cases parsed : FieldSpec.parse? directive.1 with
      | none => exact (Report.SameChanges.skip _ _).trans (others _)
      | some spec =>
        have held := settled.fields directive.1 (asked directive (by simp)) spec parsed
        simp only [held, if_true]
        exact (Report.SameChanges.skip _ _).trans (others _)
  exact each _ (fun directive inside => List.mem_map_of_mem inside) report

theorem mergeStructTags_sameChanges {entry : Declaration} {struct : StructDeclaration}
    (settled : entry.Settles struct) (report : Report) :
    report.SameChanges (mergeStructTags entry struct report).2 := by
  have none_merged : entry.mergedLabels struct.name struct.fields = [] := by
    rw [Declaration.mergedLabels, List.map_eq_nil_iff, List.filter_eq_nil_iff]
    intro field inside
    simp [settled.tags field inside]
  rw [mergeStructTags_eq, none_merged, List.append_nil]
  exact ⟨rfl, rfl, rfl⟩

/-- Work that changes no struct leaves the file as it is. -/
theorem workOnStructs_of_unchanged {registry : Registry} {file : SourceFile}
    {work : Declaration → StructDeclaration → Report → StructDeclaration × Report}
    {alone : Declaration → StructDeclaration → StructDeclaration}
    (independent : ∀ entry struct report, (work entry struct report).1 = alone entry struct)
    (unchanged : ∀ struct ∈ file.structs, ∀ entry, registry.declaration? struct.name = some entry →
      alone entry struct = struct) (report : Report) :
    { file with structs := (workOnStructs registry work file.structs report).1 } = file := by
  have structs : file.structs.map (registry.onStruct alone) = file.structs := by
    rw [List.map_congr_left fun struct inside => ?_, List.map_id']
    rw [Registry.onStruct]
    cases found : registry.declaration? struct.name with
    | none => rfl
    | some entry => exact unchanged struct inside entry found
  rw [workOnStructs_structs independent, structs]

theorem injectFields_fst_of_hasIdentity {registry : Registry} {file : SourceFile}
    (held : ∀ struct ∈ file.structs, ∀ entry, registry.declaration? struct.name = some entry →
      ∀ text ∈ entry.fields.keys, ∀ spec, FieldSpec.parse? text = some spec →
        struct.hasIdentity spec.identity) (report : Report) :
    (injectFields registry file report).1 = file := by
  refine workOnStructs_of_unchanged addFields_fst ?_ report
  intro struct inside entry found
  exact StructDeclaration.growAll_of_hasIdentity (held struct inside entry found)

theorem mergeTags_fst_of_tagged {registry : Registry} {file : SourceFile}
    (held : ∀ struct ∈ file.structs, ∀ entry, registry.declaration? struct.name = some entry →
      ∀ field ∈ struct.fields, entry.tagged field = field) (report : Report) :
    (mergeTags registry file report).1 = file := by
  refine workOnStructs_of_unchanged mergeStructTags_fst ?_ report
  intro struct inside entry found
  exact StructDeclaration.tagAll_of_tagged (held struct inside entry found)

namespace Settled

variable {registry : Registry} {file : SourceFile}

theorem injectImports (settled : Settled registry file) (report : Report) :
    injectImports registry file report = (file, report) := by
  have same := @foldl_addImport_of_contains (file.imports, report) _ settled.imports
  rw [GoGraft.injectImports, same]

theorem injectFields (settled : Settled registry file) (report : Report) :
    (injectFields registry file report).1 = file ∧
      report.SameChanges (GoGraft.injectFields registry file report).2 := by
  constructor
  · apply injectFields_fst_of_hasIdentity
    exact fun struct inside entry found => (settled.structs struct inside entry found).fields
  · refine .trans (workOnStructs_sameChanges ?_ report) (.skipAll _ _)
    intro struct inside entry found
    exact addFields_sameChanges (settled.structs struct inside entry found)

theorem mergeTags (settled : Settled registry file) (report : Report) :
    (mergeTags registry file report).1 = file ∧
      report.SameChanges (GoGraft.mergeTags registry file report).2 := by
  constructor
  · apply mergeTags_fst_of_tagged
    exact fun struct inside entry found => (settled.structs struct inside entry found).tags
  · refine .trans (workOnStructs_sameChanges ?_ report) (.skipAll _ _)
    intro struct inside entry found
    exact mergeStructTags_sameChanges (settled.structs struct inside entry found)

/-- A settled file is left as it is, and nothing is told of it but what is skipped. -/
theorem inject (settled : Settled registry file) (report : Report) :
    (inject registry file report).1 = file ∧
      report.SameChanges (GoGraft.inject registry file report).2 := by
  obtain ⟨grown, quiet⟩ := settled.injectFields report
  rw [GoGraft.inject, settled.injectImports report]
  simp only [grown]
  obtain ⟨tagged, quieter⟩ := settled.mergeTags (GoGraft.injectFields registry file report).2
  exact ⟨tagged, quiet.trans quieter⟩

end Settled

/-- Injecting a second time changes neither the imports nor any struct, and tells of no change. -/
theorem inject_inject (registry : Registry) (file : SourceFile) (report : Report) :
    let once := (inject registry file report).1
    let (twice, told) := inject registry once {}
    twice = once ∧ told.hasChanges = false := by
  intro once
  obtain ⟨same, quiet⟩ := (settled_inject registry file report).inject {}
  exact ⟨same, quiet.hasChanges.symm⟩

end GoGraft
