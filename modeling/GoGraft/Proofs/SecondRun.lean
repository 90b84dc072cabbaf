import GoGraft.Proofs.EmissionFrame
import GoGraft.Proofs.SettledFiles

/-! A second run over what the first one wrote. It changes nothing exactly if the text written has
all that its own directives ask for. That is so whenever the text is read back as it was meant: with
the same directives, and with the imports, fields and tags of the model. -/

namespace GoGraft

/-! ### Reports only grow -/

/-- A report that tells of all that an earlier one tells of. -/
structure Report.GrowsTo (earlier later : Report) : Prop where
  imports : earlier.importsAdded <+: later.importsAdded
  fields : earlier.fieldsAdded <+: later.fieldsAdded
  tags : earlier.tagsMerged <+: later.tagsMerged

theorem Report.hasChanges_eq_false {report : Report} :
    report.hasChanges = false ↔
      report.importsAdded = [] ∧ report.fieldsAdded = [] ∧ report.tagsMerged = [] := by
  simp [Report.hasChanges, and_assoc]

namespace Report.GrowsTo

theorem refl (report : Report) : report.GrowsTo report :=
  ⟨List.prefix_rfl, List.prefix_rfl, List.prefix_rfl⟩

theorem trans {first second third : Report} (left : first.GrowsTo second)
    (right : second.GrowsTo third) : first.GrowsTo third :=
  ⟨left.imports.trans right.imports, left.fields.trans right.fields, left.tags.trans right.tags⟩

theorem of_sameChanges {one other : Report} (same : one.SameChanges other) : one.GrowsTo other :=
  ⟨same.imports ▸ List.prefix_rfl, same.fields ▸ List.prefix_rfl, same.tags ▸ List.prefix_rfl⟩

theorem quiet {earlier later : Report} (grows : earlier.GrowsTo later)
    (quiet : later.hasChanges = false) : earlier.hasChanges = false := by
  rw [hasChanges_eq_false] at quiet ⊢
  obtain ⟨imports, fields, tags⟩ := quiet
  exact ⟨List.prefix_nil.1 (imports ▸ grows.imports), List.prefix_nil.1 (fields ▸ grows.fields),
    List.prefix_nil.1 (tags ▸ grows.tags)⟩

end Report.GrowsTo

theorem addImport_growsTo (state : ImportSection × Report) (path : Text) :
    state.2.GrowsTo (addImport state path).2 := by
  rw [addImport]
  split
  · exact .refl _
  · exact ⟨List.prefix_append _ _, List.prefix_rfl, List.prefix_rfl⟩

theorem addField_growsTo (state : StructDeclaration × Report) (directive : Text × Nat) :
    state.2.GrowsTo (addField state directive).2 := by
  rw [addField]
  split
  · exact .of_sameChanges (.skip _ _)
  · split
    · exact .of_sameChanges (.skip _ _)
    · exact ⟨List.prefix_rfl, List.prefix_append _ _, List.prefix_rfl⟩

/-- A fold whose steps let a report grow. -/
private theorem foldl_growsTo {State Item : Type} {report : State → Report}
    {step : State → Item → State}
    (grows : ∀ state item, (report state).GrowsTo (report (step state item)))
    (items : List Item) (state : State) :
    (report state).GrowsTo (report (items.foldl step state)) := by
  induction items generalizing state with
  | nil => exact .refl _
  | cons item rest ih => exact (grows state item).trans (ih (step state item))

theorem addFields_growsTo (entry : Declaration) (struct : StructDeclaration) (report : Report) :
    report.GrowsTo (addFields entry struct report).2 :=
  foldl_growsTo addField_growsTo entry.fields.entries (struct, report)

theorem mergeStructTags_growsTo (entry : Declaration) (struct : StructDeclaration)
    (report : Report) : report.GrowsTo (mergeStructTags entry struct report).2 := by
  rw [mergeStructTags_eq]
  exact ⟨List.prefix_rfl, List.prefix_rfl, List.prefix_append _ _⟩

/-! ### A run that tells of no change has found a settled file -/

theorem contains_of_quiet {state : ImportSection × Report} {paths : List Text}
    (quiet : (paths.foldl addImport state).2.hasChanges = false) :
    ∀ path ∈ paths, state.1.contains path := by
  induction paths with
  | nil => intro path inside; cases inside
  | cons first rest ih =>
    rw [List.foldl_cons] at quiet
    by_cases held : state.1.contains first
    · have same : addImport state first = state := by simp [addImport, held]
      rw [same] at quiet
      exact List.forall_mem_cons.2 ⟨held, ih quiet⟩
    · have told := (foldl_growsTo addImport_growsTo rest (addImport state first)).quiet quiet
      simp [addImport, held, Report.hasChanges] at told

theorem hasIdentity_of_quiet {struct : StructDeclaration} {report : Report}
    {directives : List (Text × Nat)}
    (quiet : (directives.foldl addField (struct, report)).2.hasChanges = false) :
    ∀ directive ∈ directives, ∀ spec, FieldSpec.parse? directive.1 = some spec →
      struct.hasIdentity spec.identity := by
  induction directives generalizing report with
  | nil => intro directive inside; cases inside
  | cons first rest ih =>
    rw [List.foldl_cons] at quiet
    have later := (foldl_growsTo addField_growsTo rest (addField (struct, report) first)).quiet quiet
    cases parsed : FieldSpec.parse? first.1 with
    | none =>
      simp only [addField, parsed] at quiet
      refine List.forall_mem_cons.2 ⟨?_, ih quiet⟩
      intro spec found
      cases parsed.symm.trans found
    | some spec =>
      by_cases held : struct.hasIdentity spec.identity
      · simp only [addField, parsed, held, if_true] at quiet
        refine List.forall_mem_cons.2 ⟨?_, ih quiet⟩
        intro other found
        cases parsed.symm.trans found
        exact held
      · simp [addField, parsed, held, Report.hasChanges] at later

theorem workOnStructs_growsTo {registry : Registry}
    {work : Declaration → StructDeclaration → Report → StructDeclaration × Report}
    (grows : ∀ entry struct (report : Report), report.GrowsTo (work entry struct report).2)
    (structs : List StructDeclaration) (report : Report) :
    report.GrowsTo (workOnStructs registry work structs report).2 := by
  induction structs generalizing report with
  | nil => exact .refl _
  | cons struct rest ih =>
    simp only [workOnStructs]
    cases registry.declaration? struct.name with
    | none => exact ih report
    | some entry => exact (grows entry struct report).trans (ih _)

theorem exists_quiet_work {registry : Registry}
    {work : Declaration → StructDeclaration → Report → StructDeclaration × Report}
    (grows : ∀ entry struct (report : Report), report.GrowsTo (work entry struct report).2)
    {structs : List StructDeclaration} {report : Report}
    (quiet : (workOnStructs registry work structs report).2.hasChanges = false) :
    ∀ struct ∈ structs, ∀ entry, registry.declaration? struct.name = some entry →
      ∃ before, (work entry struct before).2.hasChanges = false := by
  induction structs generalizing report with
  | nil => intro struct inside; cases inside
  | cons first rest ih =>
    simp only [workOnStructs] at quiet
    refine List.forall_mem_cons.2 ⟨?_, ih quiet⟩
    intro entry found
    rw [found] at quiet
    exact ⟨report, (workOnStructs_growsTo grows rest _).quiet quiet⟩

theorem tagged_of_quiet {entry : Declaration} {struct : StructDeclaration} {report : Report}
    (quiet : (mergeStructTags entry struct report).2.hasChanges = false) :
    ∀ field ∈ struct.fields, entry.tagged field = field := by
  rw [mergeStructTags_eq, Report.hasChanges_eq_false] at quiet
  have none_merged := (List.append_eq_nil_iff.1 quiet.2.2).2
  rw [Declaration.mergedLabels, List.map_eq_nil_iff, List.filter_eq_nil_iff] at none_merged
  intro field inside
  simpa using none_merged field inside

theorem injectFields_growsTo (registry : Registry) (file : SourceFile) (report : Report) :
    report.GrowsTo (injectFields registry file report).2 :=
  (workOnStructs_growsTo addFields_growsTo file.structs report).trans
    (.of_sameChanges (.skipAll _ _))

theorem mergeTags_growsTo (registry : Registry) (file : SourceFile) (report : Report) :
    report.GrowsTo (mergeTags registry file report).2 :=
  (workOnStructs_growsTo mergeStructTags_growsTo file.structs report).trans
    (.of_sameChanges (.skipAll _ _))

theorem fields_of_quiet {registry : Registry} {file : SourceFile} {report : Report}
    (quiet : (injectFields registry file report).2.hasChanges = false) :
    ∀ struct ∈ file.structs, ∀ entry, registry.declaration? struct.name = some entry →
      ∀ text ∈ entry.fields.keys, ∀ spec, FieldSpec.parse? text = some spec →
        struct.hasIdentity spec.identity := by
  intro struct inside entry found text asked
  have skipped : (workOnStructs registry addFields file.structs report).2.hasChanges = false := quiet
  obtain ⟨before, silent⟩ := exists_quiet_work addFields_growsTo skipped struct inside entry found
  obtain ⟨directive, held, rfl⟩ := List.mem_map.1 asked
  exact hasIdentity_of_quiet silent directive held

theorem tags_of_quiet {registry : Registry} {file : SourceFile} {report : Report}
    (quiet : (mergeTags registry file report).2.hasChanges = false) :
    ∀ struct ∈ file.structs, ∀ entry, registry.declaration? struct.name = some entry →
      ∀ field ∈ struct.fields, entry.tagged field = field := by
  intro struct inside entry found
  have skipped : (workOnStructs registry mergeStructTags file.structs report).2.hasChanges = false :=
    quiet
  obtain ⟨before, silent⟩ :=
    exists_quiet_work mergeStructTags_growsTo skipped struct inside entry found
  exact tagged_of_quiet silent

/-- A run that tells of no change has found nothing to do. -/
theorem settled_of_quiet {registry : Registry} {file : SourceFile} {report : Report}
    (quiet : (inject registry file report).2.hasChanges = false) : Settled registry file := by
  generalize imported : injectImports registry file report = first
  have tagsQuiet : (mergeTags registry (injectFields registry first.1 first.2).1
      (injectFields registry first.1 first.2).2).2.hasChanges = false := by
    rw [inject, imported] at quiet
    exact quiet
  have fieldsQuiet := (mergeTags_growsTo _ _ _).quiet tagsQuiet
  have importsQuiet := (injectFields_growsTo _ _ _).quiet fieldsQuiet
  rw [← imported] at importsQuiet
  have imports : ∀ path ∈ registry.imports.keys, file.imports.contains path :=
    @contains_of_quiet (file.imports, report) _ importsQuiet
  -- Nothing was added before, so the later passes have seen the file itself.
  rw [injectImports, @foldl_addImport_of_contains (file.imports, report) _ imports] at imported
  subst imported
  have fields := fields_of_quiet fieldsQuiet
  rw [injectFields_fst_of_hasIdentity fields] at tagsQuiet
  have tags := tags_of_quiet tagsQuiet
  exact ⟨imports, fun struct inside entry found =>
    ⟨fields struct inside entry found, tags struct inside entry found⟩⟩

/-! ### Reading back what was written -/

/-- What a field says, wherever it stands. -/
def Field.content (field : Field) : List Text × Text × Option Text :=
  (field.names, field.type, field.tag)

/-- A file that has the imports of another, and no struct but with the fields of one there. -/
structure SourceFile.ReadsBack (written read : SourceFile) : Prop where
  imports : ∀ path, written.imports.contains path → read.imports.contains path
  structs : ∀ struct ∈ read.structs, ∃ original ∈ written.structs,
    original.name = struct.name ∧
      original.fields.map Field.content = struct.fields.map Field.content

/-- What a registry asks for is asked for in an earlier one too, perhaps on other lines. -/
structure Registry.Repeats (earlier later : Registry) : Prop where
  imports : later.imports.keys ⊆ earlier.imports.keys
  declarations : ∀ name entry, later.declaration? name = some entry →
    ∃ original, earlier.declaration? name = some original ∧
      entry.fields.keys ⊆ original.fields.keys ∧
      ∀ key, (original.tags.get? key).map TagUpdate.text = (entry.tags.get? key).map TagUpdate.text

theorem Declaration.tagged_eq_self_iff {entry : Declaration} {field : Field} :
    entry.tagged field = field ↔
      ∀ text, (entry.updateFor? field).map TagUpdate.text = some text →
        (TagSet.parse text).isEmpty ∨ field.tag = some (field.mergedTag (TagSet.parse text)) := by
  rw [Declaration.tagged]
  cases entry.updateFor? field with
  | none => simp
  | some update =>
    by_cases nothing : (TagSet.parse update.text).isEmpty
    · simp [nothing]
    · simp only [nothing, Bool.false_eq_true, if_false, Option.map_some, Option.some.injEq,
        forall_eq', false_or]
      constructor
      · exact fun same => (congrArg Field.tag same).symm
      · intro same
        rw [← same]

theorem hasIdentity_of_content {one other : StructDeclaration}
    (same : one.fields.map Field.content = other.fields.map Field.content) (identity : Text) :
    one.hasIdentity identity = other.hasIdentity identity := by
  have content (struct : StructDeclaration) : struct.hasIdentity identity =
      (struct.fields.map Field.content).any fun (names, type, _) =>
        (if names.isEmpty then [type] else names).contains identity := by
    rw [List.any_map]
    rfl
  rw [content, content, same]

theorem updateFor?_of_content {original entry : Declaration} {old field : Field}
    (texts : ∀ key,
      (original.tags.get? key).map TagUpdate.text = (entry.tags.get? key).map TagUpdate.text)
    (same : old.content = field.content) :
    (original.updateFor? old).map TagUpdate.text = (entry.updateFor? field).map TagUpdate.text := by
  have names : old.names = field.names := congrArg Prod.fst same
  have type : old.type = field.type := congrArg (fun content => content.2.1) same
  have present (key : Text) : (original.tags.get? key).isSome = (entry.tags.get? key).isSome := by
    have both := congrArg Option.isSome (texts key)
    rwa [Option.isSome_map, Option.isSome_map] at both
  have addressable : old.addressableNames = field.addressableNames := by
    rw [Field.addressableNames, Field.addressableNames, Field.isEmbedded, Field.isEmbedded, names,
      type]
  have key : original.keyFor? old = entry.keyFor? field := by
    simp only [Declaration.keyFor?, addressable, present]
  rw [Declaration.updateFor?, Declaration.updateFor?, key]
  cases entry.keyFor? field with
  | none => rfl
  | some key => exact texts key

theorem tagged_of_content {original entry : Declaration} {old field : Field}
    (texts : ∀ key,
      (original.tags.get? key).map TagUpdate.text = (entry.tags.get? key).map TagUpdate.text)
    (same : old.content = field.content) (held : original.tagged old = old) :
    entry.tagged field = field := by
  have tag : old.tag = field.tag := congrArg (fun content => content.2.2) same
  rw [Declaration.tagged_eq_self_iff, updateFor?_of_content texts same] at held
  rw [Declaration.tagged_eq_self_iff]
  intro text asked
  have merged := held text asked
  rwa [Field.mergedTag, tag] at merged

theorem Declaration.Settles.of_readBack {original entry : Declaration}
    {written read : StructDeclaration} (settled : original.Settles written)
    (fields : entry.fields.keys ⊆ original.fields.keys)
    (texts : ∀ key,
      (original.tags.get? key).map TagUpdate.text = (entry.tags.get? key).map TagUpdate.text)
    (same : written.fields.map Field.content = read.fields.map Field.content) :
    entry.Settles read := by
  constructor
  · intro text asked spec parsed
    rw [← hasIdentity_of_content same]
    exact settled.fields text (fields asked) spec parsed
  · intro field inside
    have held := List.mem_map_of_mem (f := Field.content) inside
    rw [← same] at held
    obtain ⟨old, among, equal⟩ := List.mem_map.1 held
    exact tagged_of_content texts equal (settled.tags old among)

theorem Settled.of_readBack {earlier later : Registry} {written read : SourceFile}
    (settled : Settled earlier written) (repeats : earlier.Repeats later)
    (back : written.ReadsBack read) : Settled later read := by
  constructor
  · intro path asked
    exact back.imports path (settled.imports path (repeats.imports asked))
  · intro struct inside entry found
    obtain ⟨written, held, name, same⟩ := back.structs struct inside
    obtain ⟨original, asked, fields, tags⟩ := repeats.declarations struct.name entry found
    rw [← name] at asked
    exact (settled.structs written held original asked).of_readBack fields tags same

/-! ### Runs -/

/-- The model of a source as it is written, and what is told of it. -/
def grafted (source : Text) (file : SourceFile) : SourceFile × Report :=
  inject (scan source).registry file { skipped := (scan source).skipped }

theorem settled_of_isEmpty {registry : Registry} (empty : registry.isEmpty) (file : SourceFile) :
    Settled registry file := by
  simp only [Registry.isEmpty, Ordered.isEmpty, Bool.and_eq_true, List.isEmpty_iff] at empty
  constructor
  · intro path asked
    simp [Ordered.keys, empty.1] at asked
  · intro struct _ entry found
    simp [Registry.declaration?, Ordered.get?, empty.2, Ordered.find?] at found

theorem transform_of_parse? {source : Text} {file : SourceFile}
    (read : SourceFile.parse? source = some file) :
    ∃ report, (grafted source file).2.SameChanges report ∧
      transform source =
        (grafted source file).1.render.map fun output => ⟨source, output, report⟩ := by
  unfold transform
  rw [read]
  dsimp only
  split
  next empty =>
    obtain ⟨same, quiet⟩ := (settled_of_isEmpty empty file).inject
      { skipped := (scan source).skipped }
    refine ⟨{ skipped := (scan source).skipped }, quiet.symm, ?_⟩
    rw [grafted, same]
  next => exact ⟨(grafted source file).2, .rfl, rfl⟩

theorem transform_eq_ok {source : Text} {result : Transformed}
    (ran : transform source = .ok result) :
    ∃ file, SourceFile.parse? source = some file ∧
      (grafted source file).1.render = .ok result.output ∧
      (grafted source file).2.SameChanges result.report := by
  cases parsed : SourceFile.parse? source with
  | none =>
    unfold transform at ran
    rw [parsed] at ran
    cases ran
  | some file =>
    obtain ⟨report, told, run⟩ := transform_of_parse? parsed
    rw [run] at ran
    cases rendered : (grafted source file).1.render with
    | error fault =>
      rw [rendered] at ran
      cases ran
    | ok output =>
      rw [rendered] at ran
      cases ran
      exact ⟨file, rfl, rendered, told⟩

theorem changed_of_ofSpec? {source : Text} {spec : Located} {struct : StructDeclaration}
    (read : StructDeclaration.ofSpec? source spec = some struct) : struct.changed = false := by
  simp only [StructDeclaration.ofSpec?, Option.bind_eq_bind, Option.bind_eq_some_iff] at read
  obtain ⟨name, _, type, _, list, _, made⟩ := read
  cases made
  rfl

theorem render_of_parse? {source : Text} {file : SourceFile}
    (read : SourceFile.parse? source = some file) : file.render = .ok source := by
  obtain ⟨trees, parsed, rfl⟩ := Option.map_eq_some_iff.1 read
  have unchanged : (structsOfRoots source (Located.sideBySide {} trees)).filter (·.changed) = [] := by
    rw [List.filter_eq_nil_iff]
    intro struct inside
    obtain ⟨spec, _, read⟩ := List.mem_filterMap.1 inside
    simp [changed_of_ofSpec? read]
  have edits : SourceFile.edits ⟨source, .ofRoots source (Located.sideBySide {} trees),
      structsOfRoots source (Located.sideBySide {} trees)⟩ = [] := by
    rw [SourceFile.edits, unchanged]
    rfl
  simp only [SourceFile.render, edits]
  rfl

/-- A run over a text that leaves it as it is and tells of no change. -/
def RunsQuietly (text : Text) : Prop :=
  ∃ result, transform text = .ok result ∧ result.output = text ∧ result.changed = false ∧
    result.report.hasChanges = false

theorem runsQuietly_iff {text : Text} {file : SourceFile}
    (read : SourceFile.parse? text = some file) :
    RunsQuietly text ↔ Settled (scan text).registry file := by
  constructor
  · rintro ⟨result, ran, _, _, quiet⟩
    obtain ⟨same, parsed, _, told⟩ := transform_eq_ok ran
    cases read.symm.trans parsed
    exact settled_of_quiet (told.hasChanges.trans quiet)
  · intro settled
    obtain ⟨report, told, run⟩ := transform_of_parse? read
    obtain ⟨same, quiet⟩ := settled.inject { skipped := (scan text).skipped }
    have kept : (grafted text file).1 = file := same
    rw [kept, render_of_parse? read] at run
    refine ⟨_, run, rfl, ?_, ?_⟩
    · simp [Transformed.changed]
    · rw [← (quiet.trans told).hasChanges]
      rfl

theorem readable_of_render {file : SourceFile} {output : Text} (written : file.render = .ok output) :
    output = file.source ∨ (Go.parse? output).isSome := by
  rw [SourceFile.render] at written
  split at written
  next =>
    cases written
    exact .inl rfl
  next =>
    split at written
    · cases written
    · split at written
      next readable =>
        cases written
        exact .inr readable
      next => cases written

theorem exists_parse?_output {source output : Text} {file : SourceFile}
    (parsed : SourceFile.parse? source = some file)
    (written : (grafted source file).1.render = .ok output) :
    ∃ read, SourceFile.parse? output = some read := by
  have kept : (grafted source file).1.source = source := by
    obtain ⟨trees, _, placed⟩ := SourceFile.exists_trees parsed
    rw [grafted, inject_fst]
    exact placed.source_eq
  rcases readable_of_render written with same | readable
  · exact ⟨file, by rw [same, kept, parsed]⟩
  · obtain ⟨trees, read⟩ := Option.isSome_iff_exists.1 readable
    exact ⟨_, by rw [SourceFile.parse?, read]; rfl⟩

end GoGraft
