import GoGraft.Proofs.ExactReports

/-! What merging makes of the tags of a file. A field that no update is for keeps its tag. Where one
is, the new literal has every key of the update with its new value and all other keys with their old
ones, in the order of the keys. -/

namespace GoGraft

namespace TagSet

theorem find?_insertPair (key value sought : Text) (pairs : List (Text × Text)) :
    (insertPair key value pairs).find? (·.1 = sought) =
      if key = sought then some (key, value) else pairs.find? (·.1 = sought) := by
  induction pairs with
  | nil => by_cases same : key = sought <;> simp [insertPair, same]
  | cons first rest ih =>
    rw [insertPair]
    split
    · by_cases same : key = sought <;> simp [same]
    · split
      next equal =>
        subst equal
        by_cases same : first.1 = sought <;> simp [same]
      next different =>
        rw [List.find?_cons, List.find?_cons, ih]
        by_cases here : first.1 = sought
        · simp [← here, different]
        · simp [here]

theorem get?_insert (tags : TagSet) (key value sought : Text) :
    (tags.insert key value).get? sought = if key = sought then some value else tags.get? sought := by
  rw [get?, insert, find?_insertPair]
  split <;> rfl

/-- Of pairs with increasing keys, each is found in a set to which they are added. -/
theorem get?_insertAll {pairs : List (Text × Text)}
    (sorted : pairs.Pairwise (fun left right => left.1 < right.1)) (tags : TagSet) (sought : Text) :
    (tags.insertAll pairs).get? sought =
      ((pairs.find? (·.1 = sought)).map Prod.snd).or (tags.get? sought) := by
  induction pairs generalizing tags with
  | nil => rfl
  | cons first rest ih =>
    obtain ⟨least, others⟩ := List.pairwise_cons.1 sorted
    rw [insertAll_cons, ih others, get?_insert, List.find?_cons]
    by_cases here : first.1 = sought
    · have later : rest.find? (·.1 = sought) = none := by
        refine List.find?_eq_none.2 fun pair inside same => ?_
        have same : pair.1 = sought := by simpa using same
        exact List.lt_irrefl first.1 ((here.trans same.symm) ▸ least pair inside)
      simp [here, later]
    · simp [here]

theorem get?_merge (older newer : TagSet) (key : Text) :
    (older.merge newer).get? key = (newer.get? key).or (older.get? key) :=
  get?_insertAll newer.sorted older key

/-- A literal in which the pairs stand one behind the other in increasing order of their keys. -/
def InOrder (literal : Text) (pairs : List (Text × Text)) : Prop :=
  pairs.Pairwise (fun left right => left.1 < right.1) ∧
    let body := Text.join " ".toList (pairs.map renderPair)
    literal = body.inBackticks ∨ literal = "\"".toList ++ escape body ++ "\"".toList

theorem inOrder_toLiteral (tags : TagSet) : InOrder tags.toLiteral tags.pairs := by
  refine ⟨tags.sorted, ?_⟩
  rw [toLiteral]
  split
  · exact .inr rfl
  · exact .inl rfl

end TagSet

/-- The tags that directives ask for at a field: those of the update for the first of its names that
has one, unless it has no tags. -/
def Declaration.incoming? (entry : Declaration) (field : Field) : Option TagSet :=
  ((field.addressableNames.findSome? fun name => entry.tags.get? (normalizeName name)).map
    fun update => TagSet.parse update.text).filter (!·.isEmpty)

def Registry.incoming? (registry : Registry) (struct : Text) (field : Field) : Option TagSet :=
  (registry.declaration? struct).bind (·.incoming? field)

def Field.tags (field : Field) : TagSet :=
  (field.tag.map TagSet.ofLiteral).getD .empty

/-- A field after tags that came in, if any, were merged into its own. -/
structure Field.MergedFrom (incoming : Option TagSet) (before after : Field) : Prop where
  untagged : after.untagged = before.untagged
  kept : incoming = none → after.tag = before.tag
  merged : ∀ newer, incoming = some newer → ∃ literal, after.tag = some literal ∧
    (∀ key, (TagSet.ofLiteral literal).get? key = (newer.get? key).or (before.tags.get? key)) ∧
    TagSet.InOrder literal (TagSet.ofLiteral literal).pairs

/-- A struct after its tags were merged. -/
structure StructDeclaration.MergedFrom (registry : Registry) (before after : StructDeclaration) :
    Prop where
  name : after.name = before.name
  body : after.body = before.body
  fields : List.Forall₂ (fun old new => Field.MergedFrom (registry.incoming? before.name old) old new)
    before.fields after.fields
  changed : after.changed ↔ before.changed ∨ after.fields ≠ before.fields

theorem Declaration.updateFor?_eq_findSome? (entry : Declaration) (field : Field) :
    entry.updateFor? field =
      field.addressableNames.findSome? fun name => entry.tags.get? (normalizeName name) := by
  rw [updateFor?, keyFor?]
  induction field.addressableNames with
  | nil => rfl
  | cons name rest ih =>
    rw [List.map_cons, List.find?_cons, List.findSome?_cons]
    cases found : entry.tags.get? (normalizeName name) with
    | none => exact ih
    | some update => simpa using found

theorem Declaration.tagged_eq (entry : Declaration) (field : Field) :
    entry.tagged field = (entry.incoming? field).elim field fun newer =>
      { field with tag := some (field.mergedTag newer) } := by
  rw [tagged, incoming?, ← updateFor?_eq_findSome?]
  cases entry.updateFor? field with
  | none => rfl
  | some update => cases given : (TagSet.parse update.text).isEmpty <;> simp [Option.filter, given]

theorem Declaration.read_of_incoming? {entry : Declaration} {field : Field} {newer : TagSet}
    (found : entry.incoming? field = some newer) : newer.Read := by
  obtain ⟨given, -⟩ := Option.filter_eq_some_iff.1 found
  obtain ⟨update, -, rfl⟩ := Option.map_eq_some_iff.1 given
  exact .parse update.text

theorem Field.read_tags (field : Field) : field.tags.Read := by
  rw [tags]
  cases field.tag with
  | none => exact .empty
  | some literal => exact .ofLiteral literal

theorem Field.mergedFrom_tagged (entry : Declaration) (field : Field) :
    Field.MergedFrom (entry.incoming? field) field (entry.tagged field) := by
  refine ⟨untagged_tagged entry field, ?_, ?_⟩
  · intro asked
    rw [Declaration.tagged_eq, asked]
    rfl
  · intro newer asked
    have regular := (TagSet.Read.merge field.read_tags (Declaration.read_of_incoming? asked)).regular
    have back : TagSet.ofLiteral (field.mergedTag newer) = field.tags.merge newer :=
      TagSet.ofLiteral_toLiteral regular
    refine ⟨field.mergedTag newer, ?_, ?_, ?_⟩
    · rw [Declaration.tagged_eq, asked]
      rfl
    · intro key
      rw [back, TagSet.get?_merge]
    · rw [back]
      exact TagSet.inOrder_toLiteral (field.tags.merge newer)

theorem Field.mergedFrom_self (field : Field) : Field.MergedFrom none field field :=
  ⟨rfl, fun _ => rfl, nofun⟩

theorem StructDeclaration.mergedFrom_tagAll {registry : Registry} {struct : StructDeclaration}
    {entry : Declaration} (found : registry.declaration? struct.name = some entry) :
    StructDeclaration.MergedFrom registry struct (struct.tagAll entry) := by
  refine ⟨rfl, rfl, ?_, ?_⟩
  · have asked (field : Field) : registry.incoming? struct.name field = entry.incoming? field := by
      rw [Registry.incoming?, found, Option.bind_some]
    simp only [asked]
    exact List.forall₂_map_right_iff.2 <| List.forall₂_same.2 fun field _ =>
      Field.mergedFrom_tagged entry field
  · have differ : struct.fields.map entry.tagged ≠ struct.fields ↔
        ∃ field ∈ struct.fields, entry.tagged field ≠ field := by
      have same := @List.map_inj_left _ _ struct.fields entry.tagged id
      rw [List.map_id] at same
      simp [same]
    simp [tagAll, differ]

theorem StructDeclaration.mergedFrom_self {registry : Registry} {struct : StructDeclaration}
    (missing : registry.declaration? struct.name = none) :
    StructDeclaration.MergedFrom registry struct struct := by
  refine ⟨rfl, rfl, List.forall₂_same.2 fun field _ => ?_, by simp⟩
  rw [Registry.incoming?, missing]
  exact field.mergedFrom_self

theorem Registry.mergedFrom_onStruct (registry : Registry) (struct : StructDeclaration) :
    StructDeclaration.MergedFrom registry struct
      (registry.onStruct (fun entry struct => struct.tagAll entry) struct) := by
  rw [Registry.onStruct]
  split
  next entry found => exact StructDeclaration.mergedFrom_tagAll found
  next missing => exact StructDeclaration.mergedFrom_self missing

/-- Merging tags changes tags only, and the marks of structs in which one changed. Each field keeps
its tag unless directives ask for tags at it, which then win over its own. -/
theorem mergeTags_merges (registry : Registry) (file : SourceFile) (report : Report) :
    let merged := (mergeTags registry file report).1
    merged = { file with structs := merged.structs } ∧
      List.Forall₂ (StructDeclaration.MergedFrom registry) file.structs merged.structs ∧
      Structwise mergeTags := by
  refine ⟨rfl, ?_, structwise_of_onStruct mergeTags_structs⟩
  rw [mergeTags_structs]
  exact List.forall₂_map_right_iff.2 <| List.forall₂_same.2 fun struct _ =>
    registry.mergedFrom_onStruct struct

end GoGraft
