import GoGraft.Proofs.InsertedImports
import GoGraft.Proofs.ExactReports
import GoGraft.Proofs.ScanHistory

/-! Imports that directives ask for are read back from what a run writes, if imports stand in front of
all other code and there is room for new ones. -/

namespace GoGraft

open Go (Tree Slot filePaths isLegalPath)

/-! ### Asked paths -/

theorem Text.exists_of_firstSuffix {α : Type} {find : Option Char → Text → Option α}
    {previous : Option Char} {text : Text} {answer : α}
    (found : firstSuffix find previous text = some answer) :
    ∃ before suffix, find before suffix = some answer := by
  induction text generalizing previous with
  | nil => exact ⟨_, _, found⟩
  | cons c text ih =>
    rw [firstSuffix] at found
    split at found
    next here => exact ⟨_, _, here.trans found⟩
    next => exact ih found

/-- The path of a directive stands between quotes, so it has none. -/
theorem Directive.importPath?_plain {line path : Text} (read : importPath? line = some path) :
    ∀ c ∈ path, c ≠ '\x22' := by
  obtain ⟨_, suffix, found⟩ := Text.exists_of_firstSuffix read
  rw [importPathAt?] at found
  split at found
  next rest =>
    split at found
    next inner _ =>
      rw [List.span_eq_takeWhile_dropWhile] at found
      dsimp only at found
      split at found
      · cases found
      · cases found
        intro c held
        simpa using List.all_eq_true.1 List.all_takeWhile c held
    · cases found
  · cases found

theorem Filing.import?_plain {lines : List Text} {path : Text} {number : Nat}
    (told : (path, number) ∈ (Filing.ofLines lines).filterMap Filing.import?) :
    ∀ c ∈ path, c ≠ '\x22' := by
  obtain ⟨filing, among, shown⟩ := List.mem_filterMap.1 told
  obtain ⟨⟨line, row⟩, _, filed⟩ := List.mem_flatMap.1 among
  obtain ⟨directive, written, rfl⟩ := List.mem_map.1 filed
  cases directive with
  | addImport asked =>
    cases shown
    apply Directive.importPath?_plain
    simpa [Directive.ofLine] using written
  | addField spec =>
    dsimp only [ofDirective] at shown
    split at shown <;> cases shown
  | setTags tags =>
    dsimp only [ofDirective] at shown
    split at shown <;> cases shown

theorem scan_imports_plain {source path : Text}
    (asked : path ∈ (scan source).registry.imports.keys) : ∀ c ∈ path, c ≠ '\x22' := by
  have keys := (addLines_tells (Text.lines source)).imports.keys_eq
  change (scan source).registry.imports.keys = _ at keys
  rw [keys, List.mem_eraseDups] at asked
  obtain ⟨⟨path, number⟩, told, rfl⟩ := List.mem_map.1 asked
  exact Filing.import?_plain told

theorem foldl_addImport_subset (paths : List Text) (state : ImportSection × Report) :
    (paths.foldl addImport state).1.added ⊆ state.1.added ++ paths := by
  induction paths generalizing state with
  | nil => simp
  | cons path rest ih =>
    rw [List.foldl_cons]
    refine List.Subset.trans (ih _) ?_
    rw [addImport]
    split
    · intro other held
      simp only [List.mem_append, List.mem_cons] at held ⊢
      exact held.imp_right .inr
    · rw [ImportSection.add]
      simp

/-- Each path that is asked for was there or is new. -/
theorem asked_subset (source : Text) (file : SourceFile) : (scan source).registry.imports.keys ⊆
    file.imports.existing ++ (grafted source file).1.imports.added := by
  intro path asked
  have settled := (settled_inject (scan source).registry file
    { skipped := (scan source).skipped }).imports path asked
  obtain ⟨fresh, same⟩ := foldl_addImport_tells (scan source).registry.imports.keys file.imports
    { skipped := (scan source).skipped }
  rw [inject_fst, same] at settled
  rw [grafted, inject_fst, same]
  simpa [ImportSection.contains] using settled

section Grafted

variable {source : Text} {file : SourceFile} (read : SourceFile.parse? source = some file)
include read

theorem grafted_added_plain :
    ∀ path ∈ (grafted source file).1.imports.added, ∀ c ∈ path, c ≠ '\x22' := by
  intro path held
  rw [grafted, inject_fst] at held
  have asked := foldl_addImport_subset _ _ held
  rw [(changed_of_parse? read).1, List.nil_append] at asked
  exact scan_imports_plain asked

theorem grafted_importsAdded :
    (grafted source file).2.importsAdded = (grafted source file).1.imports.added :=
  (passes_exact _ _ (changed_of_parse? read).1 (changed_of_parse? read).2).imports

end Grafted

/-! ### The layout of a file -/

/-- Imports stand in front of all other code, and there is room for new ones: in the first group, or
at the end of the line of the package clause. -/
structure ImportsFirst (source : Text) (roots : List Located) (added : List Text) : Prop where
  ordered : roots.Pairwise fun one other =>
    other.isNode .importDeclaration → one.tree.isPreamble
  room : added ≠ [] → ∀ declaration ∈ roots.find? (Located.isNode .importDeclaration),
    ∀ list ∈ declaration.children, list.isNode .importList → HasRoom list added
  free : added ≠ [] → roots.find? (Located.isNode .importDeclaration) = none →
    FreePlace roots (importPlace source roots)

instance (source : Text) (roots : List Located) (added : List Text) :
    Decidable (ImportsFirst source roots added) :=
  decidable_of_iff (_ ∧ _ ∧ _) ⟨fun ⟨ordered, room, free⟩ => ⟨ordered, room, free⟩,
    fun first => ⟨first.ordered, first.room, first.free⟩⟩

/-- A terminator other than a newline. -/
def Go.Tree.isSemicolon : Tree → Bool
  | .leaf .terminator text => text != ['\n']
  | _ => false

/-- New paths are strings, and no semicolon stands beside them: in the first declaration, or behind
the package clause. -/
structure TidyImports (source : Text) (roots : List Located) (added : List Text) : Prop where
  legal : ∀ path ∈ added, isLegalPath path
  lines : ∀ declaration ∈ roots.find? (Located.isNode .importDeclaration),
    ∀ leaf ∈ declaration.tree.leaves, leaf.isSemicolon = false
  calm : roots.find? (Located.isNode .importDeclaration) = none →
    CalmPlace roots (importPlace source roots)

instance (source : Text) (roots : List Located) (added : List Text) :
    Decidable (TidyImports source roots added) :=
  decidable_of_iff (_ ∧ _ ∧ _) ⟨fun ⟨legal, lines, calm⟩ => ⟨legal, lines, calm⟩,
    fun tidy => ⟨tidy.legal, tidy.lines, tidy.calm⟩⟩

theorem ReadsAs.mono {sure surer : Prop} {out rest : Text} {paths : List Text}
    (reads : ReadsAs sure out paths rest) (imp : surer → sure) : ReadsAs surer out paths rest :=
  reads.imp_right (And.imp_right fun unsure held => unsure (imp held))

theorem declaredPaths_eq_nil {trees : List Tree}
    (none : (Located.sideBySide {} trees).find? (Located.isNode .importDeclaration) = none) :
    trees.flatMap Tree.declaredPaths = [] := by
  rw [List.flatMap_eq_nil_iff]
  intro tree held
  obtain ⟨root, among, rfl⟩ := Located.exists_of_mem {} held
  have other := List.find?_eq_none.1 none root among
  rw [Located.isNode_eq] at other
  exact declaredPaths_of_not (Bool.eq_false_iff.2 other)

section Parsed

variable {source : Text} {trees : List Tree} (parsed : Go.parse? source = some trees)
include parsed

/-- The package clause has some text, so its line ends behind the byte order mark. -/
theorem mark_lt_importPlace (positive : 0 < importPlace source (Located.sideBySide {} trees)) :
    (Tree.textOfAll (Go.takeByteOrderMark source).1).length <
      importPlace source (Located.sideBySide {} trees) := by
  rw [importPlace] at positive ⊢
  split at positive
  next clause found =>
    obtain ⟨body, parts, -, -⟩ := filePaths_of_parse? parsed
    have root := List.mem_of_find?_eq_some found
    have part := Located.partOf_roots parsed clause root
    obtain ⟨children, same⟩ := Located.isNode_iff.1 (List.find?_some found)
    have among := Located.tree_mem_of_mem_sideBySide root
    rw [same] at among
    obtain ⟨more, rfl⟩ := Go.package_children parsed (.among among)
    have filled : 0 < clause.text.length := by
      rw [Located.text, same]
      simp [Tree.text, Tree.textOfAll]
    have stop := part.stands.stop_eq
    rw [parts, Located.sideBySide_append] at root
    rcases List.mem_append.1 root with mark | inside
    · have blank := (Go.takeByteOrderMark_taken source).2 _ (Located.tree_mem_of_mem_sideBySide mark)
      rw [same] at blank
      cases blank
    · have start := (Located.bounds_of_mem_sideBySide inside).1
      rw [Place.offset_after] at start
      dsimp only at start
      rw [Text.lineEnd]
      omega
  next => exact absurd positive (Nat.lt_irrefl 0)

/-- What is read from a written file. If the new imports are tidy, the file is read on behind them as
it would be without them. -/
theorem written_reads {out : Text} {file : SourceFile} (placed : file.Placed source trees)
    (made : Edit.applyAll source file.edits = .ok out)
    (plain : ∀ path ∈ file.imports.added, ∀ c ∈ path, c ≠ '\x22')
    (first : ImportsFirst source (Located.sideBySide {} trees) file.imports.added)
    (some_import : (Located.sideBySide {} trees).find? (Located.isNode .importDeclaration) ≠ none ∨
      file.imports.added ≠ []) :
    ∃ paths rest, trees.flatMap Tree.declaredPaths ++ file.imports.added ⊆ paths ∧
      ReadsAs (TidyImports source (Located.sideBySide {} trees) file.imports.added) out paths rest ∧
      (TidyImports source (Located.sideBySide {} trees) file.imports.added →
        ∀ bare, file.Rewrites source bare →
          ((Go.parse? bare).isSome ↔ (filePaths .behind rest).isSome)) := by
  have anchored := anchor_ofRoots parsed
  cases found : (Located.sideBySide {} trees).find? (Located.isNode .importDeclaration) with
  | some declaration =>
    obtain ⟨front, middle, back, declared⟩ := exists_declared parsed found first.ordered
    obtain ⟨paths, rest, kept, added, reads, alike⟩ := declared_reads placed parsed made plain found
      declared fun filled => first.room filled declaration found
    refine ⟨paths, rest, List.append_subset.2 ⟨kept, added⟩, reads.mono fun tidy => ?_, fun _ => alike⟩
    refine ⟨tidy.legal, fun text held => ?_⟩
    have newline := tidy.lines declaration found _ held
    simpa [Go.Tree.isSemicolon] using newline
  | none =>
    have filled := some_import.resolve_left (not_not_intro found)
    rw [found] at anchored
    obtain ⟨paths, rest, added, reads, alike⟩ := inserted_reads placed (first.free filled found) parsed
      made (importPlace_le parsed) (placed.anchor_eq.trans anchored) filled plain
      (mark_lt_importPlace parsed)
    refine ⟨paths, rest, ?_, reads.mono (·.legal), fun tidy => alike (tidy.calm found)⟩
    rwa [declaredPaths_eq_nil found, List.nil_append]

end Parsed

/-! ### Runs -/

theorem existing_of_parse? {source : Text} {file : SourceFile} {trees : List Tree}
    (parsed : Go.parse? source = some trees) (read : SourceFile.parse? source = some file) :
    file.imports.existing = trees.flatMap Tree.declaredPaths := by
  rw [SourceFile.parse?, parsed] at read
  cases read
  exact existing_eq source {} trees

theorem ReadsAs.existing {sure : Prop} {out rest : Text} {paths : List Text} {file : SourceFile}
    (reads : ReadsAs sure out paths rest) (read : SourceFile.parse? out = some file) :
    paths ⊆ file.imports.existing := by
  obtain ⟨trees, parsed, -⟩ := SourceFile.exists_trees read
  obtain ⟨_, _, _, found⟩ := filePaths_of_parse? parsed
  rw [existing_of_parse? parsed read]
  rcases reads with behind | ⟨nothing, -⟩
  · rw [found] at behind
    obtain ⟨⟨more, left⟩, _, same⟩ := Option.map_eq_some_iff.1 behind.symm
    rw [← (Prod.mk.inj same).1]
    exact List.subset_append_left paths more
  · rw [found] at nothing
    cases nothing

/-- After a run over a file whose imports come first, with room for new ones, the file that was
written imports each path that a directive asks for. -/
theorem scanned_imports_read_back {source : Text} {trees : List Tree} {result : Transformed}
    (parsed : Go.parse? source = some trees) (ran : transform source = .ok result)
    (first : ImportsFirst source (Located.sideBySide {} trees) result.report.importsAdded) :
    ∃ file, SourceFile.parse? result.output = some file ∧
      (scan source).registry.imports.keys ⊆ file.imports.existing := by
  obtain ⟨file, read, rendered, told⟩ := transform_eq_ok ran
  obtain ⟨written, back⟩ := exists_parse?_output read rendered
  refine ⟨written, back, List.Subset.trans (asked_subset source file) ?_⟩
  rw [existing_of_parse? parsed read]
  rw [← told.imports, grafted_importsAdded read] at first
  by_cases some_import : (Located.sideBySide {} trees).find? (Located.isNode .importDeclaration) ≠ none ∨
      (grafted source file).1.imports.added ≠ []
  · obtain ⟨others, same, original⟩ := SourceFile.exists_trees read
    cases parsed.symm.trans same
    have placed := original.of_samePlaces (grafted_samePlaces source file)
    have made := render_eq_ok rendered
    rw [placed.source_eq] at made
    obtain ⟨paths, rest, asked, reads, -⟩ := written_reads parsed placed made
      (grafted_added_plain read) first some_import
    exact List.Subset.trans asked (reads.existing back)
  · obtain ⟨found, nothing⟩ := not_or.1 some_import
    rw [declaredPaths_eq_nil (Classical.not_not.1 found), Classical.not_not.1 nothing]
    exact List.nil_subset _

/-- A group with a comment, and of two imports that are asked for one is new. -/
theorem scanned_imports_read_back_of_group :
    let source := ("package a\nimport (\n\t\"u\" // c\n)\n//@goimport:\"t\"\n" ++
      "//@goimport:\"u\"\n").toList
    ∃ trees result file, Go.parse? source = some trees ∧ transform source = .ok result ∧
      ImportsFirst source (Located.sideBySide {} trees) result.report.importsAdded ∧
      SourceFile.parse? result.output = some file ∧
      "t".toList ∈ file.imports.existing ∧ "u".toList ∈ file.imports.existing := by
  intro source
  let output := ("package a\nimport (\n\t\"t\"\n\t\"u\" // c\n)\n//@goimport:\"t\"\n" ++
    "//@goimport:\"u\"\n").toList
  have ran : transform source = .ok ⟨source, output, { importsAdded := ["t".toList] }⟩ := by
    decide +kernel
  have layout : ∃ trees ∈ Go.parse? source,
      ImportsFirst source (Located.sideBySide {} trees) ["t".toList] := by
    decide +kernel
  obtain ⟨trees, parsed, first⟩ := layout
  obtain ⟨file, read, asked⟩ := scanned_imports_read_back parsed ran first
  have keys : (scan source).registry.imports.keys = ["t".toList, "u".toList] := by decide +kernel
  rw [keys] at asked
  exact ⟨trees, _, file, parsed, ran, first, read, asked (by simp), asked (by simp)⟩

/-- The line of the package clause ends inside a comment, and the import that is put there is lost. -/
theorem import_lost_in_comment :
    let source := "package a /*\n*/\n//@goimport:\"t\"".toList
    ∃ result file, transform source = .ok result ∧
      "t".toList ∈ (scan source).registry.imports.keys ∧
      SourceFile.parse? result.output = some file ∧ "t".toList ∉ file.imports.existing := by
  intro source
  let output := "package a /*\n\nimport (\n\t\"t\"\n)\n*/\n//@goimport:\"t\"".toList
  have ran : transform source = .ok ⟨source, output, { importsAdded := ["t".toList] }⟩ := by
    decide +kernel
  have read : ∃ file ∈ SourceFile.parse? output, "t".toList ∉ file.imports.existing := by
    decide +kernel
  obtain ⟨file, back, lost⟩ := read
  exact ⟨_, file, ran, by decide +kernel, back, lost⟩

end GoGraft
