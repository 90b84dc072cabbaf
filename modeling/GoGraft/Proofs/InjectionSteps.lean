import GoGraft.Transform

/-! What each pass of a graft does to a file and to the report. A pass over the structs acts on each
of them alone, and the tags of a struct are merged field by field, whatever the order. -/

namespace GoGraft

/-- Two reports that tell of the same additions, whatever they skip. -/
structure Report.SameChanges (one other : Report) : Prop where
  imports : one.importsAdded = other.importsAdded
  fields : one.fieldsAdded = other.fieldsAdded
  tags : one.tagsMerged = other.tagsMerged

namespace Report.SameChanges

theorem rfl {report : Report} : report.SameChanges report :=
  ⟨Eq.refl _, Eq.refl _, Eq.refl _⟩

theorem symm {one other : Report} (same : one.SameChanges other) : other.SameChanges one :=
  ⟨same.imports.symm, same.fields.symm, same.tags.symm⟩

theorem trans {first second third : Report} (left : first.SameChanges second)
    (right : second.SameChanges third) : first.SameChanges third :=
  ⟨left.imports.trans right.imports, left.fields.trans right.fields, left.tags.trans right.tags⟩

theorem skip (report : Report) (skip : Skip) : report.SameChanges (report.skip skip) :=
  ⟨Eq.refl _, Eq.refl _, Eq.refl _⟩

theorem skipAll (report : Report) (skips : List Skip) : report.SameChanges (report.skipAll skips) :=
  ⟨Eq.refl _, Eq.refl _, Eq.refl _⟩

theorem hasChanges {one other : Report} (same : one.SameChanges other) :
    one.hasChanges = other.hasChanges := by
  rw [Report.hasChanges, Report.hasChanges, same.imports, same.fields, same.tags]

end Report.SameChanges

/-! ### Structs one by one -/

/-- What becomes of a struct when some work is done on those with an entry. -/
def Registry.onStruct (registry : Registry) (work : Declaration → StructDeclaration → StructDeclaration)
    (struct : StructDeclaration) : StructDeclaration :=
  match registry.declaration? struct.name with
  | some entry => work entry struct
  | none => struct

/-- Work that does not look at the report is done on every struct alone. -/
theorem workOnStructs_structs {registry : Registry}
    {work : Declaration → StructDeclaration → Report → StructDeclaration × Report}
    {alone : Declaration → StructDeclaration → StructDeclaration}
    (independent : ∀ entry struct report, (work entry struct report).1 = alone entry struct)
    (structs : List StructDeclaration) (report : Report) :
    (workOnStructs registry work structs report).1 = structs.map (registry.onStruct alone) := by
  induction structs generalizing report with
  | nil => rfl
  | cons struct rest ih =>
    simp only [workOnStructs, List.map_cons, ih, Registry.onStruct]
    cases registry.declaration? struct.name with
    | none => rfl
    | some entry => simp only [independent]

/-- What a pass makes of a struct depends on the struct and on what is asked of it by name, and on
nothing else in the file, the registry or the report. -/
def Structwise (pass : Registry → SourceFile → Report → SourceFile × Report) : Prop :=
  ∀ (registry other : Registry) (file beside : SourceFile) (report told : Report)
    (index place : Nat) (struct : StructDeclaration),
    file.structs[index]? = some struct → beside.structs[place]? = some struct →
    registry.declaration? struct.name = other.declaration? struct.name →
    (pass registry file report).1.structs[index]? = (pass other beside told).1.structs[place]?

theorem structwise_of_onStruct {pass : Registry → SourceFile → Report → SourceFile × Report}
    {alone : Declaration → StructDeclaration → StructDeclaration}
    (each : ∀ registry file report,
      (pass registry file report).1.structs = file.structs.map (registry.onStruct alone)) :
    Structwise pass := by
  intro registry other file beside report told index place struct here there same
  rw [each, each, List.getElem?_map, List.getElem?_map, here, there, Option.map_some, Option.map_some,
    Registry.onStruct, Registry.onStruct, same]

/-- Work that adds nothing to any struct adds nothing to the report of all. -/
theorem workOnStructs_sameChanges {registry : Registry}
    {work : Declaration → StructDeclaration → Report → StructDeclaration × Report}
    {structs : List StructDeclaration}
    (quiet : ∀ struct ∈ structs, ∀ entry, registry.declaration? struct.name = some entry →
      ∀ report : Report, report.SameChanges (work entry struct report).2) (report : Report) :
    report.SameChanges (workOnStructs registry work structs report).2 := by
  induction structs generalizing report with
  | nil => exact .rfl
  | cons struct rest ih =>
    have others := ih fun other inside => quiet other (List.mem_cons_of_mem _ inside)
    simp only [workOnStructs]
    cases found : registry.declaration? struct.name with
    | none => exact others report
    | some entry => exact (quiet struct (by simp) entry found report).trans (others _)

/-! ### Fields -/

/-- A struct with the field that a directive text asks for, unless it has such a field. -/
def StructDeclaration.grow (struct : StructDeclaration) (text : Text) : StructDeclaration :=
  match FieldSpec.parse? text with
  | none => struct
  | some spec => if struct.hasIdentity spec.identity then struct else struct.addField spec.toField

def StructDeclaration.growAll (entry : Declaration) (struct : StructDeclaration) : StructDeclaration :=
  entry.fields.keys.foldl StructDeclaration.grow struct

theorem addField_fst (struct : StructDeclaration) (report : Report) (directive : Text × Nat) :
    (addField (struct, report) directive).1 = struct.grow directive.1 := by
  rw [addField, StructDeclaration.grow]
  cases FieldSpec.parse? directive.1 with
  | none => rfl
  | some spec =>
    by_cases known : struct.hasIdentity spec.identity
    · simp [known]
    · simp [known]

theorem addFields_fst (entry : Declaration) (struct : StructDeclaration) (report : Report) :
    (addFields entry struct report).1 = struct.growAll entry := by
  have each (directives : List (Text × Nat)) (state : StructDeclaration × Report) :
      (directives.foldl addField state).1 =
        (directives.map Prod.fst).foldl StructDeclaration.grow state.1 := by
    induction directives generalizing state with
    | nil => rfl
    | cons directive rest ih => rw [List.foldl_cons, ih, addField_fst]; rfl
  exact each entry.fields.entries (struct, report)

/-! ### Tags -/

def Declaration.updateFor? (entry : Declaration) (field : Field) : Option TagUpdate :=
  (entry.keyFor? field).bind entry.tags.get?

def Declaration.tagged (entry : Declaration) (field : Field) : Field :=
  match entry.updateFor? field with
  | none => field
  | some update =>
    let incoming := TagSet.parse update.text
    if incoming.isEmpty then field else { field with tag := some (field.mergedTag incoming) }

def Field.label (struct : Text) (field : Field) : Text :=
  struct ++ ".".toList ++ field.addressableNames.headD []

/-- What is skipped for a field whose update has no tags. -/
def Declaration.malformedFor? (entry : Declaration) (field : Field) : Option Skip :=
  (entry.updateFor? field).bind fun update =>
    if (TagSet.parse update.text).isEmpty then some (malformedTags update) else none

private theorem set_getElem?_self {fields : List Field} {index : Nat} {field : Field}
    (found : fields[index]? = some field) : fields.set index field = fields := by
  obtain ⟨inside, rfl⟩ := List.getElem?_eq_some_iff.1 found
  exact List.set_getElem_self inside

/-- Merging the update for a field changes that field, and tells of it only if it changes. -/
theorem mergeTag_eq {entry : Declaration} {struct : StructDeclaration} {report : Report} {index : Nat}
    {field : Field} (found : struct.fields[index]? = some field) :
    mergeTag entry (struct, report) index =
      ({ struct with
          fields := struct.fields.set index (entry.tagged field)
          changed := struct.changed || decide (entry.tagged field ≠ field) },
        { report with
          tagsMerged := report.tagsMerged ++
            if entry.tagged field ≠ field then [field.label struct.name] else []
          skipped := report.skipped ++ (entry.malformedFor? field).toList }) := by
  have same := set_getElem?_self found
  cases asked : entry.updateFor? field with
  | none =>
    have unchanged : entry.tagged field = field := by rw [Declaration.tagged, asked]
    have sound : entry.malformedFor? field = none := by rw [Declaration.malformedFor?, asked]; rfl
    rw [Declaration.updateFor?] at asked
    simp [mergeTag, found, asked, unchanged, sound, same]
  | some update =>
    by_cases none_given : (TagSet.parse update.text).isEmpty
    · have unchanged : entry.tagged field = field := by
        simp [Declaration.tagged, asked, none_given]
      have malformed : entry.malformedFor? field = some (malformedTags update) := by
        simp [Declaration.malformedFor?, asked, none_given]
      rw [Declaration.updateFor?] at asked
      simp [mergeTag, found, asked, unchanged, malformed, same, none_given, Report.skip]
    · have tagged : entry.tagged field =
          { field with tag := some (field.mergedTag (TagSet.parse update.text)) } := by
        simp [Declaration.tagged, asked, none_given]
      have sound : entry.malformedFor? field = none := by
        simp [Declaration.malformedFor?, asked, none_given]
      rw [Declaration.updateFor?] at asked
      by_cases already : field.tag = some (field.mergedTag (TagSet.parse update.text))
      · have unchanged : entry.tagged field = field := by rw [tagged, ← already]
        simp [mergeTag, found, asked, none_given, StructDeclaration.setTag?, already, unchanged,
          sound, same]
      · have changes : { field with tag := some (field.mergedTag (TagSet.parse update.text)) } ≠ field :=
          fun equal => already (congrArg Field.tag equal).symm
        simp [mergeTag, found, asked, none_given, StructDeclaration.setTag?, already, changes,
          sound, tagged, Field.label]

def StructDeclaration.tagAll (entry : Declaration) (struct : StructDeclaration) : StructDeclaration :=
  { struct with
    fields := struct.fields.map entry.tagged
    changed := struct.changed || struct.fields.any fun field => decide (entry.tagged field ≠ field) }

def Declaration.mergedLabels (entry : Declaration) (struct : Text) (fields : List Field) : List Text :=
  (fields.filter fun field => decide (entry.tagged field ≠ field)).map (Field.label struct)

/-- The fields are worked on from the left; those in front of the number are finished. -/
private theorem foldl_mergeTag (entry : Declaration) (finished rest : List Field)
    (struct : StructDeclaration) (report : Report) (fields : struct.fields = finished ++ rest) :
    (List.range' finished.length rest.length).foldl (mergeTag entry) (struct, report) =
      ({ struct with
          fields := finished ++ rest.map entry.tagged
          changed := struct.changed || rest.any fun field => decide (entry.tagged field ≠ field) },
        { report with
          tagsMerged := report.tagsMerged ++ entry.mergedLabels struct.name rest
          skipped := report.skipped ++ rest.filterMap entry.malformedFor? }) := by
  induction rest generalizing finished struct report with
  | nil => simp [Declaration.mergedLabels, ← fields]
  | cons field rest ih =>
    have found : struct.fields[finished.length]? = some field := by simp [fields]
    have written : struct.fields.set finished.length (entry.tagged field) =
        (finished ++ [entry.tagged field]) ++ rest := by simp [fields]
    have length : finished.length + 1 = (finished ++ [entry.tagged field]).length := by simp
    rw [List.length_cons, List.range'_succ, List.foldl_cons, mergeTag_eq found, length,
      ih (finished ++ [entry.tagged field]) _ _ written]
    by_cases changes : entry.tagged field = field
    · cases malformed : entry.malformedFor? field <;>
        simp [Declaration.mergedLabels, changes, malformed]
    · cases malformed : entry.malformedFor? field <;>
        simp [Declaration.mergedLabels, changes, malformed]

theorem mergeStructTags_eq (entry : Declaration) (struct : StructDeclaration) (report : Report) :
    mergeStructTags entry struct report =
      (struct.tagAll entry,
        { report with
          tagsMerged := report.tagsMerged ++ entry.mergedLabels struct.name struct.fields
          skipped := report.skipped ++ struct.fields.filterMap entry.malformedFor? ++
            tagsWithoutField entry (struct.tagAll entry) }) := by
  have run := foldl_mergeTag entry [] struct.fields struct report rfl
  rw [List.length_nil, ← List.range_eq_range'] at run
  rw [mergeStructTags, run]
  rfl

theorem mergeStructTags_fst (entry : Declaration) (struct : StructDeclaration) (report : Report) :
    (mergeStructTags entry struct report).1 = struct.tagAll entry := by
  rw [mergeStructTags_eq]

end GoGraft
