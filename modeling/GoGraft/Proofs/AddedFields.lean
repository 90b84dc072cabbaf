import GoGraft.Proofs.ExactReports

/-! Which fields a struct gets. Of the fields that directives for the struct name, in their order,
those are added whose identity no field of the struct has, and of several with one identity only the
first. What a struct gets does not depend on the other structs, nor on directives for them. -/

namespace GoGraft

/-- The fields that directives for a struct name, as far as they name one. -/
def Registry.specsFor (registry : Registry) (name : Text) : List FieldSpec :=
  ((registry.declaration? name).elim [] fun entry => entry.fields.keys).filterMap FieldSpec.parse?

namespace StructDeclaration

def identities (struct : StructDeclaration) : List Text :=
  struct.fields.flatMap Field.identities

/-- Those of some specs that are new to a struct; of several with one identity the first. -/
def newSpecs (struct : StructDeclaration) (specs : List FieldSpec) : List FieldSpec :=
  (specs.filter fun spec => spec.identity ∉ struct.identities).eraseDupsBy fun one other =>
    one.identity == other.identity

/-- A struct with fields behind its own, each on a line at the end of the body. -/
def withFields (struct : StructDeclaration) (fields : List Field) : StructDeclaration :=
  { struct with
    fields := struct.fields ++ fields
    body :=
      { struct.body with
        lines := struct.body.lines ++
          (List.range' struct.fields.length fields.length).map fun index => .field index none }
    changed := struct.changed || !fields.isEmpty }

@[simp] theorem withFields_nil (struct : StructDeclaration) : struct.withFields [] = struct := by
  simp [withFields]

theorem withFields_cons (struct : StructDeclaration) (field : Field) (fields : List Field) :
    struct.withFields (field :: fields) = (struct.addField field).withFields fields := by
  simp [withFields, addField, List.range'_succ]

theorem hasIdentity_eq (struct : StructDeclaration) (identity : Text) :
    struct.hasIdentity identity = decide (identity ∈ struct.identities) := by
  simp [hasIdentity, identities, List.any_eq]

theorem identities_addField (struct : StructDeclaration) (spec : FieldSpec) :
    (struct.addField spec.toField).identities = struct.identities ++ [spec.identity] := by
  simp [identities, addField, FieldSpec.identities_toField]

/-! ### New specs -/

theorem newSpecs_cons_of_mem {struct : StructDeclaration} {spec : FieldSpec}
    (known : spec.identity ∈ struct.identities) (specs : List FieldSpec) :
    struct.newSpecs (spec :: specs) = struct.newSpecs specs := by
  rw [newSpecs, List.filter_cons_of_neg (by simpa using known), newSpecs]

/-- After a new field is added, specs with its identity are no longer new. -/
theorem newSpecs_cons_of_not_mem {struct : StructDeclaration} {spec : FieldSpec}
    (fresh : spec.identity ∉ struct.identities) (specs : List FieldSpec) :
    struct.newSpecs (spec :: specs) = spec :: (struct.addField spec.toField).newSpecs specs := by
  rw [newSpecs, List.filter_cons_of_pos (by simpa using fresh), List.eraseDupsBy_cons, newSpecs,
    List.filter_filter, identities_addField]
  congr 2
  refine List.filter_congr fun other _ => ?_
  simp [and_comm]

theorem newSpecs_sublist (struct : StructDeclaration) (specs : List FieldSpec) :
    (struct.newSpecs specs).Sublist specs := by
  induction specs generalizing struct with
  | nil => exact .slnil
  | cons spec rest ih =>
    by_cases known : spec.identity ∈ struct.identities
    · rw [newSpecs_cons_of_mem known]
      exact (ih struct).cons spec
    · rw [newSpecs_cons_of_not_mem known]
      exact (ih _).cons_cons spec

theorem identity_newSpecs {struct : StructDeclaration} {specs : List FieldSpec} :
    ((struct.newSpecs specs).map FieldSpec.identity).Nodup ∧
      ∀ spec ∈ struct.newSpecs specs, spec.identity ∉ struct.identities := by
  induction specs generalizing struct with
  | nil => exact ⟨List.nodup_nil, List.forall_mem_nil _⟩
  | cons spec rest ih =>
    by_cases known : spec.identity ∈ struct.identities
    · rw [newSpecs_cons_of_mem known]
      exact ih
    · obtain ⟨distinct, fresh⟩ := @ih (struct.addField spec.toField)
      simp only [identities_addField, List.mem_append, List.mem_singleton, not_or] at fresh
      rw [newSpecs_cons_of_not_mem known]
      refine ⟨List.nodup_cons.2 ⟨fun again => ?_, distinct⟩, List.forall_mem_cons.2 ⟨known, ?_⟩⟩
      · obtain ⟨other, held, same⟩ := List.mem_map.1 again
        exact (fresh other held).2 same
      · exact fun other held => (fresh other held).1

theorem foldl_grow_eq (texts : List Text) (struct : StructDeclaration) :
    texts.foldl grow struct =
      struct.withFields ((struct.newSpecs (texts.filterMap FieldSpec.parse?)).map FieldSpec.toField) := by
  induction texts generalizing struct with
  | nil => exact struct.withFields_nil.symm
  | cons text rest ih =>
    rw [List.foldl_cons, ih, grow]
    cases parsed : FieldSpec.parse? text with
    | none => rw [List.filterMap_cons_none parsed]
    | some spec =>
      rw [List.filterMap_cons_some parsed]
      dsimp only
      rw [hasIdentity_eq]
      by_cases known : spec.identity ∈ struct.identities
      · rw [if_pos (decide_eq_true known), newSpecs_cons_of_mem known]
      · rw [if_neg (by simpa using known), newSpecs_cons_of_not_mem known, List.map_cons,
          withFields_cons]

end StructDeclaration

/-- What injecting fields makes of a struct. -/
def Registry.withNewFields (registry : Registry) (struct : StructDeclaration) : StructDeclaration :=
  struct.withFields
    ((struct.newSpecs (registry.specsFor struct.name)).map FieldSpec.toField)

theorem Registry.onStruct_growAll (registry : Registry) (struct : StructDeclaration) :
    registry.onStruct (fun entry struct => struct.growAll entry) struct =
      registry.withNewFields struct := by
  rw [Registry.onStruct, Registry.withNewFields, Registry.specsFor]
  cases registry.declaration? struct.name with
  | none => exact struct.withFields_nil.symm
  | some entry => exact StructDeclaration.foldl_grow_eq entry.fields.keys struct

/-- Injecting fields leaves all of a file but its structs, and each struct keeps its fields. Behind
them come those new to it that directives name: without tags, in the order of the directives, no two
of them with one identity and none with that of a field it had. A struct without new fields is left
as it is. -/
theorem injectFields_appends (registry : Registry) (file : SourceFile) (report : Report) :
    (injectFields registry file report).1 =
        { file with structs := file.structs.map registry.withNewFields } ∧
      (∀ struct ∈ file.structs,
        let specs := struct.newSpecs (registry.specsFor struct.name)
        (registry.withNewFields struct).fields = struct.fields ++ specs.map FieldSpec.toField ∧
        (∀ spec ∈ specs, spec.toField.tag = none) ∧
        specs.Sublist (registry.specsFor struct.name) ∧
        (specs.map FieldSpec.identity).Nodup ∧
        (∀ spec ∈ specs, spec.identity ∉ struct.identities) ∧
        (specs = [] → registry.withNewFields struct = struct)) ∧
      Structwise injectFields := by
  have each (registry : Registry) (file : SourceFile) (report : Report) :=
    injectFields_structs registry file report
  refine ⟨?_, ?_, structwise_of_onStruct each⟩
  · have structs := each registry file report
    rw [List.map_congr_left fun struct _ => registry.onStruct_growAll struct] at structs
    rw [← structs]
    rfl
  · intro struct _ specs
    obtain ⟨distinct, fresh⟩ := @struct.identity_newSpecs (registry.specsFor struct.name)
    refine ⟨rfl, ?_, struct.newSpecs_sublist _, distinct, fresh, ?_⟩
    · intro spec _
      cases spec <;> rfl
    · intro none
      change struct.withFields (specs.map _) = struct
      rw [none, List.map_nil, struct.withFields_nil]

end GoGraft
