import GoGraft.Proofs.DirectiveTraces
import GoGraft.Proofs.SecondRun

/-! What a report tells is what became of the file. Every import, field and tag that was added is told
of, in the order of the file, and nothing else is; a struct is written again exactly if something is
told of it, and a file of which nothing is told stays as it is. -/

namespace GoGraft

/-! ### What is to be told -/

/-- The fields that a struct has behind those that it had. -/
def newFields (before after : StructDeclaration) : List Field :=
  after.fields.drop before.fields.length

def newFieldLabels (before after : StructDeclaration) : List Text :=
  (newFields before after).flatMap fun field =>
    field.identities.map fun identity => before.name ++ ".".toList ++ identity

/-- The labels of the fields whose tags are not what they were. -/
def newTagLabels (before after : StructDeclaration) : List Text :=
  (before.fields.zip after.fields).filterMap fun (old, new) =>
    if new.tag = old.tag then none else some (old.label before.name)

/-- A struct as it was read, then with its new fields, then with its new tags. -/
structure StructStages where
  read : StructDeclaration
  grown : StructDeclaration
  written : StructDeclaration

/-- Fields are only added behind others, tags are all that changes in a field, and the struct is
written again if it has a new field or a new tag. -/
structure StructStages.Sound (stages : StructStages) : Prop where
  name_grown : stages.grown.name = stages.read.name
  name_written : stages.written.name = stages.read.name
  kept : stages.read.fields <+: stages.grown.fields
  identity : ∀ field ∈ newFields stages.read stages.grown, ∃ identity, field.identities = [identity]
  tagged : stages.written.fields.map Field.untagged = stages.grown.fields.map Field.untagged
  changed : stages.written.changed ↔
    newFieldLabels stages.read stages.grown ≠ [] ∨ newTagLabels stages.grown stages.written ≠ []

/-! ### Imports -/

theorem foldl_addImport_tells (paths : List Text) (imports : ImportSection) (report : Report) :
    ∃ fresh, paths.foldl addImport (imports, report) =
      ({ imports with added := imports.added ++ fresh },
        { report with importsAdded := report.importsAdded ++ fresh }) := by
  induction paths generalizing imports report with
  | nil => exact ⟨[], by simp⟩
  | cons path rest ih =>
    rw [List.foldl_cons, addImport]
    split
    next => exact ih imports report
    next =>
      obtain ⟨fresh, same⟩ := ih (imports.add path)
        { report with importsAdded := report.importsAdded ++ [path] }
      refine ⟨path :: fresh, same.trans ?_⟩
      simp [ImportSection.add]

/-! ### Structs -/

/-- Telling more, in one of the lists of a report. -/
structure Telling where
  tell : Report → List Text → Report
  nothing : ∀ report, tell report [] = report
  more : ∀ report first second, tell (tell report first) second = tell report (first ++ second)
  same : ∀ {one other : Report}, one.SameChanges other → ∀ labels,
    (tell one labels).SameChanges (tell other labels)

namespace Telling

def fields : Telling where
  tell report labels := { report with fieldsAdded := report.fieldsAdded ++ labels }
  nothing report := by simp
  more report first second := by simp
  same changes labels := ⟨changes.imports, by rw [changes.fields], changes.tags⟩

def tags : Telling where
  tell report labels := { report with tagsMerged := report.tagsMerged ++ labels }
  nothing report := by simp
  more report first second := by simp
  same changes labels := ⟨changes.imports, changes.fields, by rw [changes.tags]⟩

end Telling

/-- If work on a struct tells of what it did to the struct, work on all structs tells of what was done
to each, in their order. -/
theorem workOnStructs_tells_all {registry : Registry}
    {work : Declaration → StructDeclaration → Report → StructDeclaration × Report}
    {alone : Declaration → StructDeclaration → StructDeclaration} {telling : Telling}
    {labels : StructDeclaration → StructDeclaration → List Text}
    (each : ∀ entry struct report, (work entry struct report).2.SameChanges
      (telling.tell report (labels struct (alone entry struct))))
    (idle : ∀ struct, labels struct struct = []) (structs : List StructDeclaration) (report : Report) :
    (workOnStructs registry work structs report).2.SameChanges
      (telling.tell report (structs.flatMap fun struct =>
        labels struct (registry.onStruct alone struct))) := by
  induction structs generalizing report with
  | nil =>
    rw [List.flatMap_nil, telling.nothing]
    exact .rfl
  | cons struct rest ih =>
    rw [List.flatMap_cons, ← telling.more]
    simp only [workOnStructs]
    refine (ih _).trans (telling.same ?_ _)
    rw [Registry.onStruct]
    cases registry.declaration? struct.name with
    | none =>
      dsimp only
      rw [idle, telling.nothing]
      exact .rfl
    | some entry => exact each entry struct report

theorem FieldSpec.identities_toField (spec : FieldSpec) :
    spec.toField.identities = [spec.identity] := by
  cases spec <;> rfl

/-- Adding the fields that directives ask for: some of them are new, and these are told of. -/
theorem foldl_addField_tells (directives : List (Text × Nat)) (struct : StructDeclaration)
    (report : Report) :
    ∃ specs : List FieldSpec,
      (directives.foldl addField (struct, report)).1.fields =
        struct.fields ++ specs.map FieldSpec.toField ∧
      (directives.foldl addField (struct, report)).1.changed =
        (struct.changed || !specs.isEmpty) ∧
      (directives.foldl addField (struct, report)).2.SameChanges
        (Telling.fields.tell report (specs.map fun spec => struct.name ++ ".".toList ++ spec.identity)) := by
  induction directives generalizing struct report with
  | nil => exact ⟨[], by simp, by simp, by rw [List.map_nil, Telling.fields.nothing]; exact .rfl⟩
  | cons directive rest ih =>
    obtain ⟨text, line⟩ := directive
    rw [List.foldl_cons, addField]
    dsimp only
    cases FieldSpec.parse? text with
    | none =>
      obtain ⟨specs, fields, changed, told⟩ := ih struct (report.skip (malformedField text line))
      exact ⟨specs, fields, changed, told.trans (Telling.fields.same (.symm (.skip _ _)) _)⟩
    | some spec =>
      dsimp only
      split
      next =>
        obtain ⟨specs, fields, changed, told⟩ := ih struct
          (report.skip (duplicateField (struct.name ++ ".".toList ++ spec.identity) line))
        exact ⟨specs, fields, changed, told.trans (Telling.fields.same (.symm (.skip _ _)) _)⟩
      next =>
        obtain ⟨specs, fields, changed, told⟩ := ih (struct.addField spec.toField)
          (Telling.fields.tell report [struct.name ++ ".".toList ++ spec.identity])
        refine ⟨spec :: specs, ?_, ?_, ?_⟩
        · rw [List.map_cons]
          simpa [StructDeclaration.addField, Telling.fields] using fields
        · simpa [StructDeclaration.addField, Telling.fields] using changed
        · rw [Telling.fields.more] at told
          exact told

theorem newFieldLabels_self (struct : StructDeclaration) : newFieldLabels struct struct = [] := by
  simp [newFieldLabels, newFields]

/-- A struct with the fields of some specs added. -/
theorem newFieldLabels_eq {before after : StructDeclaration} {specs : List FieldSpec}
    (fields : after.fields = before.fields ++ specs.map FieldSpec.toField) :
    newFieldLabels before after = specs.map fun spec => before.name ++ ".".toList ++ spec.identity := by
  rw [newFieldLabels, newFields, fields, List.drop_left, List.flatMap_map]
  simp only [FieldSpec.identities_toField, List.map_singleton]
  exact List.flatMap_pure_eq_map _ _

theorem addFields_tells (entry : Declaration) (struct : StructDeclaration) (report : Report) :
    (addFields entry struct report).2.SameChanges
      (Telling.fields.tell report (newFieldLabels struct (struct.growAll entry))) := by
  obtain ⟨specs, fields, -, told⟩ := foldl_addField_tells entry.fields.entries struct report
  have grown : (struct.growAll entry).fields = struct.fields ++ specs.map FieldSpec.toField := by
    rw [← fields, ← addFields_fst entry struct report]
    rfl
  rw [newFieldLabels_eq grown]
  exact told

theorem tag_tagged_iff (entry : Declaration) (field : Field) :
    (entry.tagged field).tag = field.tag ↔ entry.tagged field = field := by
  have others := untagged_tagged entry field
  generalize entry.tagged field = new at others ⊢
  constructor
  · intro same
    obtain ⟨names, type, tag, origin⟩ := field
    obtain ⟨newNames, newType, newTag, newOrigin⟩ := new
    simp only [Field.untagged, Field.mk.injEq] at others
    simp_all
  · rintro rfl
    rfl

/-- The labels of a struct whose fields are tagged. -/
theorem newTagLabels_tagAll (entry : Declaration) (struct : StructDeclaration) :
    newTagLabels struct (struct.tagAll entry) = entry.mergedLabels struct.name struct.fields := by
  rw [newTagLabels, Declaration.mergedLabels, StructDeclaration.tagAll]
  dsimp only
  induction struct.fields with
  | nil => rfl
  | cons field rest ih =>
    rw [List.map_cons, List.zip_cons_cons, List.filterMap_cons, ih]
    by_cases same : entry.tagged field = field
    · simp [same]
    · have other := mt (tag_tagged_iff entry field).1 same
      simp [same, other]

theorem newTagLabels_self (struct : StructDeclaration) : newTagLabels struct struct = [] := by
  rw [newTagLabels]
  induction struct.fields with
  | nil => rfl
  | cons field rest ih => simpa using ih

theorem mergeStructTags_tells (entry : Declaration) (struct : StructDeclaration) (report : Report) :
    (mergeStructTags entry struct report).2.SameChanges
      (Telling.tags.tell report (newTagLabels struct (struct.tagAll entry))) := by
  rw [mergeStructTags_eq, newTagLabels_tagAll]
  exact ⟨rfl, rfl, rfl⟩

theorem injectFields_tells (registry : Registry) (file : SourceFile) (report : Report) :
    (injectFields registry file report).2.SameChanges
      (Telling.fields.tell report (file.structs.flatMap fun struct =>
        newFieldLabels struct (registry.onStruct (fun entry struct => struct.growAll entry) struct))) :=
  .trans (.symm (.skipAll _ _))
    (workOnStructs_tells_all addFields_tells newFieldLabels_self file.structs report)

theorem mergeTags_tells (registry : Registry) (file : SourceFile) (report : Report) :
    (mergeTags registry file report).2.SameChanges
      (Telling.tags.tell report (file.structs.flatMap fun struct =>
        newTagLabels struct (registry.onStruct (fun entry struct => struct.tagAll entry) struct))) :=
  .trans (.symm (.skipAll _ _))
    (workOnStructs_tells_all mergeStructTags_tells newTagLabels_self file.structs report)

theorem mergeTags_structs (registry : Registry) (file : SourceFile) (report : Report) :
    (mergeTags registry file report).1.structs =
      file.structs.map (registry.onStruct fun entry struct => struct.tagAll entry) :=
  workOnStructs_structs mergeStructTags_fst file.structs report

/-! ### Stages -/

/-- The stages of a struct in a run. -/
def Registry.stages (registry : Registry) (struct : StructDeclaration) : StructStages :=
  let grown := registry.onStruct (fun entry struct => struct.growAll entry) struct
  ⟨struct, grown, registry.onStruct (fun entry struct => struct.tagAll entry) grown⟩

theorem Registry.stages_sound (registry : Registry) {struct : StructDeclaration}
    (unchanged : struct.changed = false) : (registry.stages struct).Sound := by
  cases found : registry.declaration? struct.name with
  | none =>
    have idle : registry.stages struct = ⟨struct, struct, struct⟩ := by
      simp [Registry.stages, Registry.onStruct, found]
    rw [idle]
    refine ⟨rfl, rfl, List.prefix_refl _, ?_, rfl, ?_⟩
    · simp [newFields]
    · simp [newFieldLabels_self, newTagLabels_self, unchanged]
  | some entry =>
    have busy : registry.stages struct =
        ⟨struct, struct.growAll entry, (struct.growAll entry).tagAll entry⟩ := by
      simp [Registry.stages, Registry.onStruct, found]
    obtain ⟨specs, fields, changed, -⟩ := foldl_addField_tells entry.fields.entries struct {}
    change (addFields entry struct {}).1.fields = _ at fields
    change (addFields entry struct {}).1.changed = _ at changed
    rw [addFields_fst] at fields changed
    rw [busy]
    refine ⟨StructDeclaration.name_growAll entry struct, StructDeclaration.name_growAll entry struct,
      ⟨_, fields.symm⟩, ?_, map_untagged_tagAll entry _, ?_⟩
    · rw [newFields, fields, List.drop_left, List.forall_mem_map]
      exact fun spec _ => ⟨spec.identity, spec.identities_toField⟩
    · rw [newFieldLabels_eq fields, newTagLabels_tagAll, StructDeclaration.tagAll,
        Declaration.mergedLabels, changed, unchanged]
      cases specs <;> simp

/-- A report tells of the imports that are to be written, and of all that is new in the structs of a
file between one stage and the next, struct by struct. -/
structure Report.Exact (report : Report) (read grown written : SourceFile)
    (stages : List StructStages) : Prop where
  read_eq : read.structs = stages.map StructStages.read
  grown_eq : grown.structs = stages.map StructStages.grown
  written_eq : written.structs = stages.map StructStages.written
  sound : ∀ stage ∈ stages, stage.Sound
  imports : report.importsAdded = written.imports.added
  fields : report.fieldsAdded = stages.flatMap fun stage => newFieldLabels stage.read stage.grown
  tags : report.tagsMerged = stages.flatMap fun stage => newTagLabels stage.grown stage.written

theorem changed_of_parse? {source : Text} {file : SourceFile}
    (read : SourceFile.parse? source = some file) :
    file.imports.added = [] ∧ ∀ struct ∈ file.structs, struct.changed = false := by
  obtain ⟨trees, parsed, rfl⟩ := Option.map_eq_some_iff.1 read
  refine ⟨rfl, fun struct inside => ?_⟩
  obtain ⟨spec, _, found⟩ := List.mem_filterMap.1 inside
  exact changed_of_ofSpec? found

/-- The three passes over a file that was read tell exactly what they do. -/
theorem passes_exact {file : SourceFile} (registry : Registry) (skipped : List Skip)
    (fresh : file.imports.added = []) (unchanged : ∀ struct ∈ file.structs, struct.changed = false) :
    let imported := injectImports registry file { skipped := skipped }
    let grown := injectFields registry imported.1 imported.2
    let written := mergeTags registry grown.1 grown.2
    written.2.Exact file grown.1 written.1 (file.structs.map registry.stages) := by
  intro imported grown written
  obtain ⟨paths, added⟩ := foldl_addImport_tells registry.imports.keys file.imports
    { skipped := skipped }
  have grownStructs : grown.1.structs = (file.structs.map registry.stages).map StructStages.grown := by
    rw [List.map_map]
    exact injectFields_structs registry imported.1 imported.2
  have told : written.2.SameChanges (Telling.tags.tell (Telling.fields.tell imported.2 _) _) :=
    (mergeTags_tells registry grown.1 grown.2).trans
      (Telling.tags.same (injectFields_tells registry imported.1 imported.2) _)
  have report : imported.2 = { skipped := skipped, importsAdded := paths } := congrArg Prod.snd added
  have imports : imported.1.imports = { file.imports with added := file.imports.added ++ paths } :=
    congrArg Prod.fst added
  rw [report] at told
  refine ⟨?_, grownStructs, ?_, ?_, ?_, ?_, ?_⟩
  · rw [List.map_map]
    exact (List.map_id' _).symm
  · have structs : written.1.structs = _ := mergeTags_structs registry grown.1 grown.2
    rw [structs, grownStructs, List.map_map, List.map_map, List.map_map]
    rfl
  · rw [List.forall_mem_map]
    exact fun struct inside => registry.stages_sound (unchanged struct inside)
  · have same : written.1.imports = imported.1.imports := rfl
    rw [told.imports, same, imports, fresh]
    rfl
  · rw [told.fields, List.flatMap_map]
    rfl
  · rw [told.tags, grownStructs, List.flatMap_map, List.flatMap_map, List.flatMap_map]
    rfl

namespace Report.Exact

variable {report : Report} {read grown written : SourceFile} {stages : List StructStages}
  (exact : report.Exact read grown written stages)
include exact

theorem of_sameChanges {other : Report} (same : report.SameChanges other) :
    other.Exact read grown written stages :=
  { exact with
    imports := same.imports ▸ exact.imports
    fields := same.fields ▸ exact.fields
    tags := same.tags ▸ exact.tags }

/-- Structs of which nothing is told are not written again. -/
theorem filter_changed_eq_nil (noFields : report.fieldsAdded = []) (noTags : report.tagsMerged = []) :
    written.structs.filter (·.changed) = [] := by
  rw [List.filter_eq_nil_iff, exact.written_eq, List.forall_mem_map]
  intro stage inside changed
  have fields : newFieldLabels stage.read stage.grown = [] :=
    List.flatMap_eq_nil_iff.1 (exact.fields.symm.trans noFields) stage inside
  have tags : newTagLabels stage.grown stage.written = [] :=
    List.flatMap_eq_nil_iff.1 (exact.tags.symm.trans noTags) stage inside
  rcases (exact.sound stage inside).changed.1 changed with labels | labels
  · exact labels fields
  · exact labels tags

/-- A file of which nothing is told has no edits. -/
theorem edits_eq_nil (quiet : report.hasChanges = false) : written.edits = [] := by
  obtain ⟨noImports, noFields, noTags⟩ := Report.hasChanges_eq_false.1 quiet
  have unchanged := exact.filter_changed_eq_nil noFields noTags
  rw [SourceFile.edits, unchanged, ImportSection.edit?, ← exact.imports, noImports]
  rfl

end Report.Exact

theorem source_of_transform {source : Text} {result : Transformed}
    (ran : transform source = .ok result) : result.source = source := by
  obtain ⟨file, parsed, rendered, -⟩ := transform_eq_ok ran
  obtain ⟨report, -, run⟩ := transform_of_parse? parsed
  rw [run, rendered] at ran
  exact (congrArg Transformed.source (Except.ok.inj ran)).symm

/-- A report is exact: it tells of all that a run added to the model of the file and of nothing else.
If it tells of nothing, the file stays as it is. -/
theorem report_tells_exactly {source : Text} {result : Transformed}
    (ran : transform source = .ok result) :
    ∃ file stages, SourceFile.parse? source = some file ∧
      let imported := injectImports (scan source).registry file { skipped := (scan source).skipped }
      let grown := injectFields (scan source).registry imported.1 imported.2
      let written := mergeTags (scan source).registry grown.1 grown.2
      written.1.render = .ok result.output ∧
        result.report.Exact file grown.1 written.1 stages ∧
        (result.report.hasChanges = false → result.output = source ∧ result.changed = false) := by
  obtain ⟨file, parsed, rendered, told⟩ := transform_eq_ok ran
  obtain ⟨fresh, unchanged⟩ := changed_of_parse? parsed
  have exact := (passes_exact (scan source).registry (scan source).skipped fresh
    unchanged).of_sameChanges told
  refine ⟨file, file.structs.map (scan source).registry.stages, parsed, rendered, exact, fun quiet => ?_⟩
  have same : result.output = source := by
    obtain ⟨trees, -, placed⟩ := SourceFile.exists_trees parsed
    have whole : (grafted source file).1.render = .ok file.source := by
      rw [SourceFile.render]
      exact if_pos (List.isEmpty_iff.2 (exact.edits_eq_nil quiet))
    rw [rendered] at whole
    exact (Except.ok.inj whole).trans placed.source_eq
  exact ⟨same, by simp [Transformed.changed, same, source_of_transform ran]⟩

/-- Of two structs one gets a field and a tag, and the file gets an import. -/
theorem report_tells_exactly_of_all_kinds :
    let source := ("package a\n//@goimport:\"t\"\ntype A struct \x7b\n\tX d // name=x @gotags: b:\"2\"\n" ++
      "\t// @gofield: Y e\n\x7d\ntype B struct\x7b\x7d\n").toList
    ∃ result file grown written stages, transform source = .ok result ∧
      SourceFile.parse? source = some file ∧ written.render = .ok result.output ∧
      result.report.Exact file grown written stages ∧
      result.report.importsAdded = ["t".toList] ∧ result.report.fieldsAdded = ["A.Y".toList] ∧
      result.report.tagsMerged = ["A.X".toList] := by
  intro source
  let report : Report :=
    { importsAdded := ["t".toList], fieldsAdded := ["A.Y".toList], tagsMerged := ["A.X".toList] }
  let output := ("package a\n\nimport (\n\t\"t\"\n)\n//@goimport:\"t\"\ntype A struct \x7b\n" ++
    "\tX d \x60b:\"2\"\x60 // name=x @gotags: b:\"2\"\n\t// @gofield: Y e\n\tY e\n\x7d\n" ++
    "type B struct\x7b\x7d\n").toList
  have ran : transform source = .ok ⟨source, output, report⟩ := by decide +kernel
  obtain ⟨file, stages, parsed, rendered, exact, -⟩ := report_tells_exactly ran
  exact ⟨_, file, _, _, stages, ran, parsed, rendered, exact, rfl, rfl, rfl⟩

end GoGraft
