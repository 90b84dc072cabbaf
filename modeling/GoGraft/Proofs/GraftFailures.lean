import GoGraft.Proofs.EditConflicts
import GoGraft.Proofs.ImportsReadBack

/-! When grafting fails. A file that was read is written again unless its edits overlap or the text
that they give is no Go file; new imports that are tidy have no part in either. -/

namespace GoGraft

open Go (Tree filePaths)

theorem ReadsAs.isSome_iff {sure : Prop} {out rest : Text} {paths : List Text}
    (reads : ReadsAs sure out paths rest) (held : sure) :
    (Go.parse? out).isSome ↔ (filePaths .behind rest).isSome := by
  rw [parse?_isSome_iff]
  rcases reads with behind | ⟨-, unsure⟩
  · rw [behind, Option.isSome_map]
  · exact absurd held unsure

namespace Edit

theorem Spliced.isChain {place : Nat} {text out : Text} {edits : List Edit}
    (spliced : Spliced place text edits out) :
    edits.IsChain fun one other => one.span.stop ≤ other.span.start := by
  induction spliced with
  | rest => exact .nil
  | edit _ _ later ih =>
    cases later with
    | rest => exact .singleton _
    | edit start => exact .cons_cons (by omega) ih

/-- Edits are made if each can be made behind the one before it. -/
theorem applyAll_eq_ok_iff {source out : Text} {edits : List Edit}
    (inside : ∀ edit ∈ edits, edit.span.start ≤ edit.span.stop ∧ edit.span.stop ≤ source.length) :
    applyAll source edits = .ok out ↔ Spliced 0 source (sortBy before edits) out := by
  refine ⟨applyAll_spliced inside, fun spliced => ?_⟩
  have made : applyAll source edits = .ok (replaceAll 0 source (sortBy before edits)) := by
    rw [applyAll, overlap?_eq_none.2 spliced.isChain]
  rw [made, spliced.unique (applyAll_spliced inside made)]

end Edit

theorem render_error {file : SourceFile} {error : GraftError} (failed : file.render = .error error) :
    error = .invalidOutput ∨ ∃ first second, error = .overlap first second := by
  rw [SourceFile.render] at failed
  split at failed
  · cases failed
  · split at failed
    · cases failed
      exact .inr ⟨_, _, rfl⟩
    · split at failed
      · cases failed
      · cases failed
        exact .inl rfl

section Placed

variable {source : Text} {trees : List Tree} {file : SourceFile}
  (placed : file.Placed source trees) (parsed : Go.parse? source = some trees)
include placed

theorem exists_applyAll_iff (parsed : Go.parse? source = some trees) :
    (∃ out, Edit.applyAll source file.edits = .ok out) ↔
      file.edits.Pairwise fun one other => one.span.Apart other.span := by
  rw [← Edit.overlap?_sortBy_eq_none fun edit inside => (placed.edits_inside parsed edit inside).1,
    Edit.applyAll]
  cases Edit.overlap? (sortBy Edit.before file.edits) with
  | none => exact iff_of_true ⟨_, rfl⟩ rfl
  | some pair =>
    refine iff_of_false ?_ (Option.some_ne_none pair)
    rintro ⟨out, made⟩
    cases made

include parsed

/-- A file is written if its edits give a text that is a Go file. -/
theorem exists_render_iff :
    (∃ out, file.render = .ok out) ↔
      ∃ out, Edit.applyAll source file.edits = .ok out ∧ (Go.parse? out).isSome := by
  constructor
  · rintro ⟨out, rendered⟩
    have made := render_eq_ok rendered
    rw [placed.source_eq] at made
    refine ⟨out, made, ?_⟩
    rcases readable_of_render rendered with same | readable
    · rw [same, placed.source_eq, parsed]
      rfl
    · exact readable
  · rintro ⟨out, made, readable⟩
    rw [SourceFile.render, placed.source_eq, made]
    split
    · exact ⟨_, rfl⟩
    · exact ⟨out, if_pos readable⟩

/-- A file is not written because its text would be no Go file. -/
theorem render_invalid_iff :
    file.render = .error .invalidOutput ↔
      ∃ out, Edit.applyAll source file.edits = .ok out ∧ Go.parse? out = none := by
  rw [SourceFile.render, placed.source_eq]
  split
  next empty =>
    rw [List.isEmpty_iff.1 empty]
    refine iff_of_false (fun failed => by cases failed) ?_
    rintro ⟨out, made, broken⟩
    cases made
    cases parsed.symm.trans broken
  next =>
    cases Edit.applyAll source file.edits with
    | error pair =>
      refine iff_of_false (fun failed => by cases failed) ?_
      rintro ⟨out, made, -⟩
      cases made
    | ok out =>
      dsimp only
      cases readable : Go.parse? out with
      | none => exact iff_of_true rfl ⟨out, rfl, readable⟩
      | some _ =>
        refine iff_of_false (fun failed => by cases failed) ?_
        rintro ⟨other, made, broken⟩
        cases made
        cases readable.symm.trans broken

theorem rewrites_iff (nothing : file.imports.added = []) {out : Text} :
    file.Rewrites source out ↔ Edit.applyAll source file.edits = .ok out := by
  have none : file.imports.edit? source = none := by
    rw [← Option.not_isSome_iff_eq_none, isSome_edit?]
    exact not_not_intro nothing
  have sorted := @sortBy_edits _ _ _ placed 0 (by simp [none]) fun struct inside =>
    bodyEdit_behind placed (List.nil_append trees).symm (List.forall_mem_nil _) inside
  rw [Edit.applyAll_eq_ok_iff (placed.edits_inside parsed), sorted, none]
  rfl

/-- Bodies never overlap, so they can be written without imports. -/
theorem exists_rewrites : ∃ bare, file.Rewrites source bare := by
  let bare : SourceFile := { file with imports := { file.imports with added := [] } }
  have alone : bare.Placed source trees := placed.of_samePlaces ⟨rfl, rfl, rfl⟩
  have apart : bare.edits.Pairwise fun one other => one.span.Apart other.span := by
    by_contra overlap
    exact ((edits_not_apart_iff alone parsed).1 overlap).1 rfl
  obtain ⟨out, made⟩ := (exists_applyAll_iff alone parsed).2 apart
  exact ⟨out, (rewrites_iff alone parsed rfl).2 made⟩

/-- Imports that come first and are tidy neither overlap with bodies nor make a file unreadable. -/
theorem exists_render_iff_rewrites (plain : ∀ path ∈ file.imports.added, ∀ c ∈ path, c ≠ '\x22')
    (safe : file.imports.added ≠ [] →
      ImportsFirst source (Located.sideBySide {} trees) file.imports.added ∧
        TidyImports source (Located.sideBySide {} trees) file.imports.added) :
    (∃ out, file.render = .ok out) ↔ ∃ bare, file.Rewrites source bare ∧ (Go.parse? bare).isSome := by
  rw [exists_render_iff placed parsed]
  by_cases filled : file.imports.added = []
  · simp only [rewrites_iff placed parsed filled]
  · obtain ⟨first, tidy⟩ := safe filled
    have apart : file.edits.Pairwise fun one other => one.span.Apart other.span := by
      by_contra overlap
      obtain ⟨_, found, struct, inside, _, start, _⟩ := (edits_not_apart_iff placed parsed).1 overlap
      have behind := (first.free filled found).bodies placed inside
      omega
    obtain ⟨out, made⟩ := (exists_applyAll_iff placed parsed).2 apart
    obtain ⟨bare, rewrites⟩ := exists_rewrites placed parsed
    obtain ⟨paths, rest, -, reads, alike⟩ := written_reads parsed placed made plain first (.inr filled)
    have same : (Go.parse? out).isSome ↔ (Go.parse? bare).isSome :=
      (reads.isSome_iff tidy).trans (alike tidy bare rewrites).symm
    constructor
    · rintro ⟨other, also, readable⟩
      cases made.symm.trans also
      exact ⟨bare, rewrites, same.1 readable⟩
    · rintro ⟨other, also, readable⟩
      cases rewrites.unique also
      exact ⟨out, made, same.2 readable⟩

end Placed

/-! ### What directives bring -/

theorem Go.Lexeme.string?_inBackticks {body : Text} (plain : ∀ c ∈ body, c ≠ '\x60') :
    string? (Text.inBackticks body) = some (Text.inBackticks body, []) := by
  have open_end : ∀ c ∈ body, (c != '\x60') = true := by simpa using plain
  rw [string?, Text.inBackticks, List.cons_append, rawString?, List.dropWhile_append_of_pos open_end,
    List.takeWhile_append_of_pos open_end]
  simp

/-- An escaped text has no quote and no backslash of its own, so only a newline can break it off. -/
theorem Go.Lexeme.afterInterpreted_escape {body : Text} (line : ∀ c ∈ body, c ≠ '\n') {fuel : Nat}
    (enough : (TagSet.escape body).length < fuel) (rest : Text) :
    afterInterpreted fuel (TagSet.escape body ++ '\x22' :: rest) = some rest := by
  induction body generalizing fuel with
  | nil =>
    obtain ⟨fuel, rfl⟩ := Nat.exists_eq_add_of_lt enough
    rfl
  | cons c body ih =>
    obtain ⟨here, later⟩ := List.forall_mem_cons.1 line
    have split : TagSet.escape (c :: body) =
        (if c = '\\' ∨ c = '\x22' then ['\\', c] else [c]) ++ TagSet.escape body := rfl
    rw [split] at enough ⊢
    obtain ⟨fuel, rfl⟩ : ∃ more, fuel = more + 1 := Nat.exists_eq_succ_of_ne_zero (by omega)
    rw [List.length_append] at enough
    split at enough
    next marked =>
      rw [if_pos marked]
      have step := @ih later fuel (by rw [List.length_cons, List.length_singleton] at enough; omega)
      rcases marked with rfl | rfl <;> simpa [afterInterpreted, afterEscape] using step
    next plain =>
      rw [if_neg plain]
      have step := @ih later fuel (by rw [List.length_singleton] at enough; omega)
      rw [not_or] at plain
      simpa [afterInterpreted, plain, here] using step

theorem Go.Lexeme.string?_escape {body : Text} (line : ∀ c ∈ body, c ≠ '\n') :
    string? ('\x22' :: (TagSet.escape body ++ ['\x22'])) =
      some ('\x22' :: (TagSet.escape body ++ ['\x22']), []) := by
  have closed := @afterInterpreted_escape body line (TagSet.escape body ++ ['\x22']).length
    (by simp) []
  change (rawString? ('\x22' :: _)).orElse (fun _ => (afterInterpreted _ _).map _) = _
  rw [closed, rawString?]
  · simp [upTo]
  · rintro rest ⟨⟩

/-- Tags are written as one string, but for tags with a backtick and a newline. -/
theorem TagSet.string?_toLiteral (tags : TagSet) :
    Go.Lexeme.string? tags.toLiteral = some (tags.toLiteral, []) ∨
      '\x60' ∈ tags.toLiteral ∧ '\n' ∈ tags.toLiteral := by
  rw [toLiteral]
  split
  next marked =>
    by_cases line : '\n' ∈ tags.body
    · right
      have quoted {c : Char} (held : c ∈ tags.body) :
          c ∈ "\"".toList ++ escape tags.body ++ "\"".toList :=
        List.mem_append_left _ (List.mem_append_right _ (mem_escape held))
      exact ⟨quoted (by simpa [Text.holds] using marked), quoted line⟩
    · left
      exact Go.Lexeme.string?_escape fun c held same => line (same ▸ held)
  next plain =>
    left
    apply Go.Lexeme.string?_inBackticks
    rintro c held rfl
    exact plain (by simpa [Text.holds] using held)

/-- A field that was read, or one that Go accepts from a directive. Its tag was read or is one string,
unless it has a backtick and a newline. -/
structure Field.Sound (before : List Field) (field : Field) : Prop where
  known : (∃ old ∈ before, field.untagged = old.untagged) ∨
    ∃ spec : FieldSpec, isFieldDeclaration spec.display ∧ field.untagged = spec.toField
  tag : ∀ literal ∈ field.tag, (∃ old ∈ before, old.tag = some literal) ∨
    Go.Lexeme.string? literal = some (literal, []) ∨ '\x60' ∈ literal ∧ '\n' ∈ literal

theorem Field.Sound.of_mem {before : List Field} {field : Field} (held : field ∈ before) :
    field.Sound before :=
  ⟨.inl ⟨field, held, rfl⟩, fun _ tag => .inl ⟨field, held, tag⟩⟩

theorem Field.Sound.tagged {before : List Field} {field : Field} (sound : field.Sound before)
    (entry : Declaration) : (entry.tagged field).Sound before := by
  refine ⟨untagged_tagged entry field ▸ sound.known, ?_⟩
  rw [Declaration.tagged]
  split
  · exact sound.tag
  · dsimp only
    split
    · exact sound.tag
    · intro literal written
      cases written
      exact .inr (TagSet.string?_toLiteral _)

theorem FieldSpec.display_accepted {text : Text} {spec : FieldSpec} (read : parse? text = some spec) :
    isFieldDeclaration spec.display := by
  rw [parse?, Option.filter_eq_some_iff] at read
  exact read.2

theorem StructDeclaration.grow_sound {before : List Field} {struct : StructDeclaration}
    (sound : ∀ field ∈ struct.fields, field.Sound before) (text : Text) :
    ∀ field ∈ (struct.grow text).fields, field.Sound before := by
  rw [grow]
  split
  · exact sound
  next spec read =>
    split
    · exact sound
    · refine List.forall_mem_append.2 ⟨sound, List.forall_mem_singleton.2 ⟨.inr ⟨spec, ?_, ?_⟩, ?_⟩⟩
      · exact FieldSpec.display_accepted read
      · exact spec.untagged_toField
      · intro literal tag
        cases spec <;> cases tag

theorem StructDeclaration.growAll_sound {before : List Field} {struct : StructDeclaration}
    (sound : ∀ field ∈ struct.fields, field.Sound before) (entry : Declaration) :
    ∀ field ∈ (struct.growAll entry).fields, field.Sound before := by
  rw [growAll]
  induction entry.fields.keys generalizing struct with
  | nil => exact sound
  | cons text rest ih => exact ih (grow_sound sound text)

theorem Registry.settle_sound (registry : Registry) (struct : StructDeclaration) :
    ∀ field ∈ (registry.settle struct).fields, field.Sound struct.fields := by
  have own : ∀ field ∈ struct.fields, field.Sound struct.fields := fun _ => Field.Sound.of_mem
  rw [settle, onStruct]
  split
  next entry _ =>
    rw [StructDeclaration.tagAll, List.forall_mem_map]
    exact fun field held => (StructDeclaration.growAll_sound own entry field held).tagged entry
  next => exact own

/-! ### Runs -/

section Grafted

variable {source : Text} {file : SourceFile} (read : SourceFile.parse? source = some file)
include read

theorem grafted_rewrites_self (noFields : (grafted source file).2.fieldsAdded = [])
    (noTags : (grafted source file).2.tagsMerged = []) :
    (grafted source file).1.Rewrites source source := by
  obtain ⟨fresh, unchanged⟩ := changed_of_parse? read
  have exact := passes_exact (scan source).registry (scan source).skipped fresh unchanged
  have none : (grafted source file).1.structs.filter (·.changed) = [] :=
    exact.filter_changed_eq_nil noFields noTags
  rw [SourceFile.Rewrites, none]
  exact .rest

theorem transform_eq_error_iff {error : GraftError} :
    transform source = .error error ↔ (grafted source file).1.render = .error error := by
  obtain ⟨report, -, run⟩ := transform_of_parse? read
  rw [run]
  cases (grafted source file).1.render with
  | error other => exact ⟨fun same => by cases same; rfl, fun same => by cases same; rfl⟩
  | ok out => exact iff_of_false (fun same => nomatch same) (fun same => nomatch same)

theorem exists_transform_iff :
    (∃ result, transform source = .ok result) ↔ ∃ out, (grafted source file).1.render = .ok out := by
  obtain ⟨report, -, run⟩ := transform_of_parse? read
  rw [run]
  cases (grafted source file).1.render with
  | error other =>
    refine iff_of_false ?_ ?_
    · exact fun ⟨_, same⟩ => nomatch same
    · exact fun ⟨_, same⟩ => nomatch same
  | ok out => exact iff_of_true ⟨_, rfl⟩ ⟨out, rfl⟩

end Grafted

end GoGraft
