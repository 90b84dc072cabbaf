import GoGraft.Proofs.EmissionFrame
import Mathlib.Data.List.Chain

/-! When the edits of a file overlap. Only neighbours are compared once the edits are sorted, and
that is enough for all pairs. Bodies never overlap each other or an import declaration, so there is
one way to fail: the place for the first import lies inside the span of a body that is written
again. -/

namespace GoGraft

/-- One of two spans stops before the other starts. -/
def Span.Apart (one other : Span) : Prop :=
  one.stop ≤ other.start ∨ other.stop ≤ one.start

theorem Span.Apart.symm {one other : Span} : one.Apart other → other.Apart one :=
  Or.symm

namespace Edit

theorem overlap?_eq_none {edits : List Edit} :
    overlap? edits = none ↔ edits.IsChain fun one other => one.span.stop ≤ other.span.start := by
  fun_induction overlap? edits with
  | case1 one other rest early => simp [early]
  | case2 one other rest clear ih => simp [ih, Nat.le_of_not_lt clear]
  | case3 edits short =>
    match edits, short with
    | [], _ => simp
    | [one], _ => simp
    | one :: other :: rest, short => exact absurd rfl (short one other rest)

/-- Of sorted edits it is enough to compare neighbours, whatever order they came in. -/
theorem overlap?_sortBy_eq_none {edits : List Edit}
    (proper : ∀ edit ∈ edits, edit.span.start ≤ edit.span.stop) :
    overlap? (sortBy before edits) = none ↔
      edits.Pairwise fun one other => one.span.Apart other.span := by
  have same := sortBy_perm before edits
  have sorted := pairwise_sortBy before_total before_trans edits
  rw [overlap?_eq_none, ← same.pairwise_iff Span.Apart.symm]
  replace proper : ∀ edit ∈ sortBy before edits, edit.span.start ≤ edit.span.stop :=
    fun edit inside => proper edit (same.mem_iff.1 inside)
  generalize sortBy before edits = edits at proper sorted
  constructor
  · intro chain
    let Behind (one other : Edit) : Prop :=
      one.span.stop ≤ other.span.start ∧ other.span.start ≤ other.span.stop
    have trans : Trans Behind Behind Behind :=
      ⟨fun first second => ⟨by simp only [Behind] at *; omega, second.2⟩⟩
    have behind : edits.IsChain Behind :=
      chain.imp_of_mem_imp fun one other _ inside order => ⟨order, proper other inside⟩
    exact behind.pairwise.imp fun order => .inl order.1
  · intro apart
    refine ((sorted.and apart).imp_of_mem ?_).isChain
    rintro one other first second ⟨order, clear⟩
    have size := proper one first
    have next := proper other second
    rw [before_iff] at order
    simp only [Span.Apart] at clear
    omega

end Edit

/-! ### The edits of a file -/

section Placed

variable {source : Text} {trees : List Go.Tree} {file : SourceFile}
  (placed : file.Placed source trees)
include placed

theorem bodyEdits_apart :
    file.structs.Pairwise fun one other =>
      (one.bodyEdit source).span.Apart (other.bodyEdit source).span := by
  refine placed.ordered.imp_of_mem fun first second order => .inl ?_
  obtain ⟨_, _, stop⟩ := placed.bodyEdit_span first
  obtain ⟨start, _, _⟩ := placed.bodyEdit_span second
  simp only [StructBody.places] at order
  omega

section Import

variable (parsed : Go.parse? source = some trees) {edit : Edit}
  (made : file.imports.edit? source = some edit) {struct : StructDeclaration}
include parsed made

/-- The edit of an import declaration is in it, and the declaration of a struct is another one. -/
theorem importEdit_apart {declaration : Located}
    (found : (Located.sideBySide {} trees).find? (Located.isNode .importDeclaration) =
      some declaration)
    (inside : struct ∈ file.structs) : edit.span.Apart (struct.bodyEdit source).span := by
  obtain ⟨_, holder, root, kind, start, stop⟩ := placed.stand struct inside
  have apart := importDeclaration_apart found root kind
  have within := importEdit_inside parsed placed.anchor_eq made
  have span := placed.bodyEdit_span inside
  rw [importRange, found] at within
  simp only [Span.Inside, Located.span, StructBody.places, Span.Apart] at *
  omega

theorem importEdit_apart_iff
    (found : (Located.sideBySide {} trees).find? (Located.isNode .importDeclaration) = none) :
    edit.span.Apart (struct.bodyEdit source).span ↔
      ¬ ((struct.bodyEdit source).span.start < importPlace source (Located.sideBySide {} trees) ∧
        importPlace source (Located.sideBySide {} trees) < (struct.bodyEdit source).span.stop) := by
  have within := importEdit_inside parsed placed.anchor_eq made
  rw [importRange, found] at within
  simp only [Span.Inside, Span.Apart] at *
  omega

end Import

theorem edits_pairwise_apart_iff :
    file.edits.Pairwise (fun one other => one.span.Apart other.span) ↔
      ∀ edit ∈ file.imports.edit? source, ∀ struct ∈ file.structs, struct.changed →
        edit.span.Apart (struct.bodyEdit source).span := by
  have single : (file.imports.edit? source).toList.Pairwise
      fun one other => one.span.Apart other.span := pairwise_toList _ _
  have bodies : ((file.structs.filter (·.changed)).map (·.bodyEdit source)).Pairwise
      fun one other => one.span.Apart other.span :=
    List.pairwise_map.2 ((bodyEdits_apart placed).filter _)
  rw [SourceFile.edits, placed.source_eq, List.pairwise_append]
  simp only [single, bodies, true_and, Option.mem_toList, List.forall_mem_map, List.mem_filter,
    and_imp, Option.mem_def]

theorem render_overlap_iff (parsed : Go.parse? source = some trees) :
    (∃ first second, file.render = .error (.overlap first second)) ↔
      ¬ file.edits.Pairwise fun one other => one.span.Apart other.span := by
  rw [← Edit.overlap?_sortBy_eq_none fun edit inside => (placed.edits_inside parsed edit inside).1]
  rw [SourceFile.render, Edit.applyAll]
  cases found : Edit.overlap? (sortBy Edit.before file.edits) with
  | none =>
    refine iff_of_false ?_ (not_not_intro rfl)
    rintro ⟨first, second, failed⟩
    split at failed
    · cases failed
    · simp only at failed
      split at failed <;> cases failed
  | some pair =>
    have some_edit : ¬ file.edits.isEmpty := by
      intro empty
      rw [List.isEmpty_iff.1 empty] at found
      cases found
    rw [if_neg some_edit]
    exact iff_of_true ⟨_, _, rfl⟩ (Option.some_ne_none pair)

theorem edits_not_apart_iff (parsed : Go.parse? source = some trees) :
    ¬ file.edits.Pairwise (fun one other => one.span.Apart other.span) ↔
      file.imports.added ≠ [] ∧
        (Located.sideBySide {} trees).find? (Located.isNode .importDeclaration) = none ∧
        ∃ struct ∈ file.structs, struct.changed ∧
          (struct.bodyEdit source).span.start < importPlace source (Located.sideBySide {} trees) ∧
          importPlace source (Located.sideBySide {} trees) < (struct.bodyEdit source).span.stop := by
  rw [edits_pairwise_apart_iff placed, ← isSome_edit? source]
  cases made : file.imports.edit? source with
  | none => simp
  | some edit =>
    cases found : (Located.sideBySide {} trees).find? (Located.isNode .importDeclaration) with
    | none => simp [importEdit_apart_iff placed parsed made found]
    | some declaration =>
      simpa using fun struct inside _ => importEdit_apart placed parsed made found inside

end Placed

/-- Edits of a file overlap exactly if the first import is put inside a body that is written again.
Two bodies never do, nor a body and an import declaration. -/
theorem overlap_iff_import_inside_body {source : Text} {file : SourceFile}
    (read : SourceFile.parse? source = some file) (changes : List FileChange) :
    ∃ trees, Go.parse? source = some trees ∧
      let roots := Located.sideBySide {} trees
      let changed := file.changeAll changes
      ((∃ first second, changed.render = .error (.overlap first second)) ↔
        changed.imports.added ≠ [] ∧ roots.find? (Located.isNode .importDeclaration) = none ∧
          ∃ struct ∈ changed.structs, struct.changed ∧
            (struct.bodyEdit source).span.start < importPlace source roots ∧
              importPlace source roots < (struct.bodyEdit source).span.stop) ∧
      (changed.structs.Pairwise fun one other =>
        (one.bodyEdit source).span.Apart (other.bodyEdit source).span) ∧
      (roots.find? (Located.isNode .importDeclaration) ≠ none →
        ∀ edit ∈ changed.imports.edit? source, ∀ struct ∈ changed.structs,
          edit.span.Apart (struct.bodyEdit source).span) := by
  obtain ⟨trees, parsed, original⟩ := SourceFile.exists_trees read
  have placed := original.of_samePlaces (file.changeAll_samePlaces changes)
  refine ⟨trees, parsed, ?_, bodyEdits_apart placed, ?_⟩
  · exact (render_overlap_iff placed parsed).trans (edits_not_apart_iff placed parsed)
  · intro found edit made struct inside
    obtain ⟨declaration, found⟩ := Option.ne_none_iff_exists'.1 found
    exact importEdit_apart placed parsed made found inside

/-- A struct on the row of the package clause: the brace has no space before it, so the span of the
body starts in front of the end of the row, where the import is put. -/
theorem overlap_iff_import_inside_body_of_one_row :
    let source := "package a; type A struct\x7b\n\tX int\n\x7d".toList
    let changes := [.addImport "t".toList,
      .addField 0 ⟨["Y".toList], "int".toList, none, none⟩]
    ∃ file trees, SourceFile.parse? source = some file ∧ Go.parse? source = some trees ∧
      (file.changeAll changes).render = .error (.overlap ⟨24, 33⟩ ⟨25, 25⟩) ∧
      ∃ struct ∈ (file.changeAll changes).structs, struct.changed ∧
        (struct.bodyEdit source).span.start < importPlace source (Located.sideBySide {} trees) ∧
        importPlace source (Located.sideBySide {} trees) < (struct.bodyEdit source).span.stop := by
  intro source changes
  have failed : (SourceFile.parse? source).map (fun file => (file.changeAll changes).render) =
      some (.error (.overlap ⟨24, 33⟩ ⟨25, 25⟩)) := by decide +kernel
  obtain ⟨file, read, overlap⟩ := Option.map_eq_some_iff.1 failed
  obtain ⟨trees, parsed, conflict, _, _⟩ := overlap_iff_import_inside_body read changes
  obtain ⟨_, _, struct⟩ := conflict.1 ⟨_, _, overlap⟩
  exact ⟨file, trees, read, parsed, overlap, struct⟩

end GoGraft
