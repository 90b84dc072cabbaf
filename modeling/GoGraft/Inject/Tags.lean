import GoGraft.Inject.Structs
import GoGraft.Tag.Literal

/-! Merging the tags that directives ask for into the tags of fields. A directive is for every field
that has its name, where names are compared in their normalized form. -/

namespace GoGraft

def malformedTags (update : TagUpdate) : Skip where
  kind := .malformedDirective
  line := update.line
  detail :=
    "@gotags ".toList ++ update.text.inBackticks ++ " holds no key:\"value\" pair".toList

def tagWithoutField (struct key : Text) (update : TagUpdate) : Skip where
  kind := .unresolvedTagTarget
  line := update.line
  detail := "no field ".toList ++ key.inBackticks ++ " in struct ".toList ++ struct.inBackticks

def tagWithoutStruct (struct key : Text) (update : TagUpdate) : Skip where
  kind := .unresolvedTagTarget
  line := update.line
  detail := "no struct ".toList ++ struct.inBackticks ++ " for field ".toList ++ key.inBackticks

/-- The key of the update for a field: the first of its names that has one. -/
def Declaration.keyFor? (entry : Declaration) (field : Field) : Option Text :=
  (field.addressableNames.map normalizeName).find? fun key => (entry.tags.get? key).isSome

/-- The literal of a field's tags, after others are merged into them. -/
def Field.mergedTag (field : Field) (incoming : TagSet) : Text :=
  (((field.tag.map TagSet.ofLiteral).getD .empty).merge incoming).toLiteral

/-- Merges the update for one field, given by its number. -/
def mergeTag (entry : Declaration) (state : StructDeclaration × Report) (index : Nat) :
    StructDeclaration × Report :=
  let (struct, report) := state
  match struct.fields[index]? with
  | none => state
  | some field =>
    match (entry.keyFor? field).bind entry.tags.get? with
    | none => state
    | some update =>
      let incoming := TagSet.parse update.text
      if incoming.isEmpty then (struct, report.skip (malformedTags update))
      else match struct.setTag? index (field.mergedTag incoming) with
        | none => state
        | some struct =>
          let label := struct.name ++ ".".toList ++ field.addressableNames.headD []
          (struct, { report with tagsMerged := report.tagsMerged ++ [label] })

/-- The updates of a struct for which it has no field. -/
def tagsWithoutField (entry : Declaration) (struct : StructDeclaration) : List Skip :=
  let resolved := struct.fields.filterMap entry.keyFor?
  (entry.tags.entries.filter fun (key, _) => !resolved.contains key).map fun (key, update) =>
    tagWithoutField struct.name key update

def mergeStructTags (entry : Declaration) (struct : StructDeclaration) (report : Report) :
    StructDeclaration × Report :=
  let (struct, report) :=
    (List.range struct.fields.length).foldl (mergeTag entry) (struct, report)
  (struct, report.skipAll (tagsWithoutField entry struct))

def tagsWithoutStruct (name : Text) (entry : Declaration) : List Skip :=
  entry.tags.entries.map fun (key, update) => tagWithoutStruct name key update

def mergeTags (registry : Registry) (file : SourceFile) (report : Report) : SourceFile × Report :=
  let (structs, report) := workOnStructs registry mergeStructTags file.structs report
  let file := { file with structs := structs }
  (file, report.skipAll (skipsForMissing registry file tagsWithoutStruct))

end GoGraft
