import GoGraft.Proofs.MergedTags

/-! The fields that tag updates go to. A field with several names takes the update for the first of them
that has one, and passes by those for its other names. An update that no field takes is told of as one
without a field. So an update goes by its name alone as long as no field bears the names of two. -/

namespace GoGraft

/-- A field has a name that an update goes by. -/
def Field.Bears (field : Field) (key : Text) : Prop :=
  ∃ name ∈ field.addressableNames, normalizeName name = key

/-- An update is the first for the names of a field. -/
def Declaration.Reaches (entry : Declaration) (key : Text) (field : Field) : Prop :=
  ∃ before name after, field.addressableNames = before ++ name :: after ∧ normalizeName name = key ∧
    (entry.tags.get? key).isSome ∧ ∀ earlier ∈ before, entry.tags.get? (normalizeName earlier) = none

namespace Declaration

theorem keyFor?_eq_some_iff {entry : Declaration} {field : Field} {key : Text} :
    entry.keyFor? field = some key ↔ entry.Reaches key field := by
  rw [keyFor?, List.find?_eq_some_iff_append]
  constructor
  · rintro ⟨found, before, after, names, none⟩
    obtain ⟨front, back, same, rfl, behind⟩ := List.map_eq_append_iff.1 names
    obtain ⟨name, rest, rfl, normal, -⟩ := List.map_eq_cons_iff.1 behind
    refine ⟨front, name, rest, same, normal, found, fun earlier inside => ?_⟩
    simpa using none _ (List.mem_map_of_mem inside)
  · rintro ⟨before, name, after, names, rfl, found, none⟩
    refine ⟨found, before.map normalizeName, after.map normalizeName, by simp [names], ?_⟩
    rw [List.forall_mem_map]
    exact fun earlier inside => by simp [none earlier inside]

instance (entry : Declaration) (key : Text) (field : Field) : Decidable (entry.Reaches key field) :=
  decidable_of_iff _ keyFor?_eq_some_iff

instance (field : Field) (key : Text) : Decidable (field.Bears key) :=
  inferInstanceAs (Decidable (∃ name ∈ field.addressableNames, normalizeName name = key))

theorem Reaches.bears {entry : Declaration} {key : Text} {field : Field} (reaches : entry.Reaches key field) :
    field.Bears key := by
  obtain ⟨before, name, after, names, normal, -⟩ := reaches
  exact ⟨name, by simp [names], normal⟩

/-- No field bears the names of two updates. -/
def Distinguishes (entry : Declaration) (fields : List Field) : Prop :=
  ∀ field ∈ fields, ∀ one other, field.Bears one → field.Bears other → (entry.tags.get? one).isSome →
    (entry.tags.get? other).isSome → one = other

/-- Where a field bears the name of one update only, that update reaches it. -/
theorem reaches_of_bears {entry : Declaration} {fields : List Field} (distinct : entry.Distinguishes fields)
    {field : Field} (inside : field ∈ fields) {key : Text} (bears : field.Bears key)
    (found : (entry.tags.get? key).isSome) : entry.Reaches key field := by
  cases first : entry.keyFor? field with
  | none =>
    obtain ⟨name, among, rfl⟩ := bears
    have missing := List.find?_eq_none.1 first _ (List.mem_map_of_mem among)
    exact absurd found missing
  | some other =>
    have reaches := keyFor?_eq_some_iff.1 first
    obtain ⟨_, _, _, _, _, known, _⟩ := id reaches
    rwa [distinct field inside key other bears reaches.bears found known]

/-- The skips for the updates of a struct that go to no field. -/
def skipsWhere (entry : Declaration) (struct : Text) (goes : Text → Bool) : List Skip :=
  (entry.tags.entries.filter fun (key, _) => !goes key).map fun (key, update) =>
    tagWithoutField struct key update

/-- What merging tells of a struct with updates. -/
def tagSkips (entry : Declaration) (struct : StructDeclaration) : List Skip :=
  struct.fields.filterMap entry.malformedFor? ++ tagsWithoutField entry (struct.tagAll entry)

theorem tagsWithoutField_tagAll (entry : Declaration) (struct : StructDeclaration) :
    tagsWithoutField entry (struct.tagAll entry) =
      entry.skipsWhere struct.name fun key => struct.fields.any fun field => entry.Reaches key field := by
  have keys : (struct.tagAll entry).fields.filterMap entry.keyFor? = struct.fields.filterMap entry.keyFor? := by
    simp only [StructDeclaration.tagAll, List.filterMap_map, Function.comp_def, keyFor?_tagged]
  have goes (key : Text) : (struct.fields.filterMap entry.keyFor?).contains key =
      struct.fields.any fun field => decide (entry.Reaches key field) := by
    rw [Bool.eq_iff_iff]
    simp [List.mem_filterMap, keyFor?_eq_some_iff]
  rw [tagsWithoutField, keys, skipsWhere]
  simp only [goes]
  rfl

/-- Of what is told of a struct, the unresolved updates are those that reach no field. -/
theorem filter_tagSkips (entry : Declaration) (struct : StructDeclaration) :
    (entry.tagSkips struct).filter (·.kind = .unresolvedTagTarget) =
      entry.skipsWhere struct.name fun key => struct.fields.any fun field => entry.Reaches key field := by
  have malformed : (struct.fields.filterMap entry.malformedFor?).filter
      (·.kind = .unresolvedTagTarget) = [] := by
    refine List.filter_eq_nil_iff.2 fun skip inside => ?_
    obtain ⟨field, -, told⟩ := List.mem_filterMap.1 inside
    obtain ⟨update, -, found⟩ := Option.bind_eq_some_iff.1 told
    split at found
    · cases found
      exact of_decide_eq_false rfl
    · cases found
  rw [tagSkips, List.filter_append, malformed, List.nil_append, tagsWithoutField_tagAll]
  refine List.filter_eq_self.2 fun skip inside => ?_
  obtain ⟨_, -, rfl⟩ := List.mem_map.1 inside
  rfl

/-- What comes in at a field is what the update that reaches it holds. -/
theorem incoming?_of_reaches {entry : Declaration} {key : Text} {update : TagUpdate} {field : Field}
    (reaches : entry.Reaches key field) (found : entry.tags.get? key = some update)
    (given : (TagSet.parse update.text).isEmpty = false) :
    entry.incoming? field = some (TagSet.parse update.text) := by
  have asked : entry.updateFor? field = some update := by
    rw [updateFor?, keyFor?_eq_some_iff.2 reaches, Option.bind_some, found]
  rw [incoming?, ← updateFor?_eq_findSome?, asked, Option.map_some, Option.filter_some, given]
  rfl

/-- What becomes of the updates for a struct. -/
structure Resolved (entry : Declaration) (before after : StructDeclaration) (told : List Skip) : Prop where
  unresolved : told.filter (·.kind = .unresolvedTagTarget) =
    entry.skipsWhere before.name fun key => before.fields.any fun field => entry.Reaches key field
  merged : ∀ key update, entry.tags.get? key = some update →
    (TagSet.parse update.text).isEmpty = false → List.Forall₂ (fun old new => entry.Reaches key old →
      Field.MergedFrom (some (TagSet.parse update.text)) old new) before.fields after.fields
  unresolved_by_name : entry.Distinguishes before.fields →
    told.filter (·.kind = .unresolvedTagTarget) =
      entry.skipsWhere before.name fun key => before.fields.any fun field => field.Bears key
  merged_by_name : entry.Distinguishes before.fields → ∀ key update, entry.tags.get? key = some update →
    (TagSet.parse update.text).isEmpty = false → List.Forall₂ (fun old new => old.Bears key →
      Field.MergedFrom (some (TagSet.parse update.text)) old new) before.fields after.fields

theorem skipsWhere_congr {entry : Declaration} {struct : Text} {one other : Text → Bool}
    (same : ∀ key, (entry.tags.get? key).isSome → one key = other key) :
    entry.skipsWhere struct one = entry.skipsWhere struct other := by
  refine congrArg (List.map _) (List.filter_congr fun (key, update) held => ?_)
  have known : (entry.tags.get? key).isSome := by
    rw [Ordered.get?_of_mem held]
    rfl
  dsimp only
  rw [same key known]

theorem resolved_tagAll (entry : Declaration) (struct : StructDeclaration) :
    entry.Resolved struct (struct.tagAll entry) (entry.tagSkips struct) := by
  have unresolved := entry.filter_tagSkips struct
  have merged (key : Text) (update : TagUpdate) (found : entry.tags.get? key = some update)
      (given : (TagSet.parse update.text).isEmpty = false) {field : Field}
      (reaches : entry.Reaches key field) :
      Field.MergedFrom (some (TagSet.parse update.text)) field (entry.tagged field) :=
    incoming?_of_reaches reaches found given ▸ Field.mergedFrom_tagged entry field
  refine ⟨unresolved, ?_, fun distinct => unresolved.trans (skipsWhere_congr fun key known => ?_), ?_⟩
  · intro key update found given
    exact List.forall₂_map_right_iff.2 <| List.forall₂_same.2 fun field _ reaches =>
      merged key update found given reaches
  · rw [Bool.eq_iff_iff, List.any_eq_true, List.any_eq_true]
    refine exists_congr fun field => and_congr_right fun inside => ?_
    rw [decide_eq_true_iff, decide_eq_true_iff]
    exact ⟨Reaches.bears, fun bears => reaches_of_bears distinct inside bears known⟩
  · intro distinct key update found given
    refine List.forall₂_map_right_iff.2 <| List.forall₂_same.2 fun field inside bears => ?_
    exact merged key update found given (reaches_of_bears distinct inside bears (by rw [found]; rfl))

end Declaration

/-! ### All structs -/

/-- What merging tells of a struct. -/
def Registry.tagSkips (registry : Registry) (struct : StructDeclaration) : List Skip :=
  match registry.declaration? struct.name with
  | some entry => entry.tagSkips struct
  | none => []

theorem workOnStructs_mergeStructTags_skipped (registry : Registry) (structs : List StructDeclaration)
    (report : Report) : (workOnStructs registry mergeStructTags structs report).2.skipped =
      report.skipped ++ structs.flatMap registry.tagSkips := by
  induction structs generalizing report with
  | nil => exact (List.append_nil _).symm
  | cons struct rest ih =>
    simp only [workOnStructs]
    rw [ih, List.flatMap_cons, ← List.append_assoc, Registry.tagSkips]
    cases registry.declaration? struct.name with
    | none => simp
    | some entry =>
      dsimp only
      rw [mergeStructTags_eq, Declaration.tagSkips]
      simp only [List.append_assoc]

theorem skipsForMissing_congr {registry : Registry} {file other : SourceFile}
    (names : file.structs.map StructDeclaration.name = other.structs.map StructDeclaration.name)
    (skips : Text → Declaration → List Skip) :
    skipsForMissing registry file skips = skipsForMissing registry other skips := by
  have found (file : SourceFile) (name : Text) :
      (file.findStruct? name).isSome = (file.structs.map StructDeclaration.name).contains name := by
    rw [SourceFile.findStruct?, Bool.eq_iff_iff, List.find?_isSome]
    simp
  simp only [skipsForMissing, found, names]

/-- Every update of a struct in the file goes to the fields of which it is the first update, and is told of
as unresolved exactly if there is none. Where no field bears the names of two updates, these are the fields
that bear its name. Of a struct without updates nothing is told. -/
theorem updates_go_to_first_names (registry : Registry) (file : SourceFile) (report : Report) :
    let merged := mergeTags registry file report
    ∃ told : StructDeclaration → List Skip,
      merged.2.skipped = report.skipped ++ file.structs.flatMap told ++
        skipsForMissing registry file tagsWithoutStruct ∧
      (∀ struct ∈ file.structs, registry.declaration? struct.name = none → told struct = []) ∧
      List.Forall₂ (fun before after => ∀ entry, registry.declaration? before.name = some entry →
        entry.Resolved before after (told before)) file.structs merged.1.structs := by
  intro merged
  refine ⟨registry.tagSkips, ?_, fun struct _ missing => by rw [Registry.tagSkips, missing], ?_⟩
  · have skipped : merged.2.skipped = (workOnStructs registry mergeStructTags file.structs report).2.skipped ++
        skipsForMissing registry merged.1 tagsWithoutStruct := rfl
    have names : merged.1.structs.map StructDeclaration.name = file.structs.map StructDeclaration.name := by
      rw [mergeTags_structs, List.map_map]
      refine List.map_congr_left fun struct _ => ?_
      exact registry.name_onStruct (fun entry struct => by simp [StructDeclaration.tagAll]) struct
    rw [skipped, workOnStructs_mergeStructTags_skipped, skipsForMissing_congr names]
  · rw [mergeTags_structs]
    refine List.forall₂_map_right_iff.2 <| List.forall₂_same.2 fun struct _ entry found => ?_
    rw [Registry.onStruct, Registry.tagSkips, found]
    exact entry.resolved_tagAll struct

/-- A field with two names that have an update each takes the first one, and the other is told of as one
without a field. -/
theorem second_name_is_passed_by :
    let registry := (({} : Registry).setTags "A".toList "x".toList "a:\"1\"".toList 1).setTags "A".toList
      "y".toList "b:\"2\"".toList 2
    ∃ file ∈ SourceFile.parse? "package a\ntype A struct \x7b\n\tX, Y int\n\x7d\n".toList,
      ∃ struct ∈ file.structs, (∃ field ∈ struct.fields, field.Bears "y".toList) ∧
        (mergeTags registry file {}).2.skipped =
          [tagWithoutField "A".toList "y".toList ⟨"b:\"2\"".toList, 2⟩] ∧
        (mergeTags registry file {}).1.structs.flatMap (fun struct => struct.fields.map Field.tag) =
          [some "\x60a:\"1\"\x60".toList] := by
  decide +kernel

end GoGraft
