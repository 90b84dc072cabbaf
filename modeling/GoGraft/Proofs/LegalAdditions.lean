import GoGraft.Proofs.GroupGrowth
import GoGraft.Proofs.ImportsReadBack

/-! New imports with legal paths in the first import declaration of a file, if this is a group. The
file stays a Go file, with the imports that it had and the new ones, unless the line that is sorted to
the end of the group cannot stand in front of the bracket. -/

namespace GoGraft

open Go (Tree Laid PreambleTree isLegalPath filePaths preambleAt? pass)
open scoped List

/-! ### The front of a file -/

/-- A file up to its first import declaration, which only package clauses come before. -/
structure Led (source : Text) (trees : List Tree) (declaration : Located) (front back : List Tree) :
    Prop where
  whole : trees = (Go.takeByteOrderMark source).1 ++ front ++ declaration.tree :: back
  start : declaration.start =
    Place.after {} (Tree.textOfAll ((Go.takeByteOrderMark source).1 ++ front))
  laid : Laid PreambleTree .before (front ++ [declaration.tree]) (Tree.textOfAll back) .behind

section Parsed

variable {source : Text} {trees : List Tree} (parsed : Go.parse? source = some trees)
include parsed

theorem exists_led {declaration : Located}
    (found : (Located.sideBySide {} trees).find? (Located.isNode .importDeclaration) =
      some declaration)
    (preamble : ∀ root ∈ (Located.sideBySide {} trees).takeWhile
      (fun root => !root.isNode .importDeclaration), root.tree.isPreamble) :
    ∃ front back, Led source trees declaration front back := by
  obtain ⟨kind, before, behind, split, earlier⟩ := List.find?_eq_some_iff_append.1 found
  have ahead : before ⊆ (Located.sideBySide {} trees).takeWhile
      (fun root => !root.isNode .importDeclaration) := by
    rw [split, List.takeWhile_append_of_pos earlier]
    exact List.subset_append_left _ _
  obtain ⟨lead, tail, rfl, rfl, located⟩ := Located.sideBySide_eq_append split
  cases tail with
  | nil => cases located
  | cons tree back =>
    obtain ⟨rfl, -⟩ := List.cons.inj located
    rw [Located.isNode_eq] at kind
    obtain ⟨body, parts, read, -⟩ := filePaths_of_parse? parsed
    -- The mark is no declaration, so it stands in front.
    obtain ⟨front, rfl⟩ : ∃ front, lead = (Go.takeByteOrderMark source).1 ++ front := by
      refine (exists_of_cons_append parts).resolve_right ?_
      rintro ⟨more, same⟩
      have blank := (Go.takeByteOrderMark_taken source).2 tree
        (same ▸ List.mem_append_right _ List.mem_cons_self)
      cases tree with
      | leaf => cases kind
      | node => cases blank
    obtain ⟨children, rfl⟩ : ∃ children, tree = .node .importDeclaration children := by
      cases tree with
      | leaf => cases kind
      | node other children => exact ⟨children, by rw [eq_of_beq kind]⟩
    have all : ∀ part ∈ front ++ [Go.Tree.node .importDeclaration children], part.isPreamble := by
      refine List.forall_mem_append.2 ⟨fun part held => ?_, List.forall_mem_singleton.2 rfl⟩
      obtain ⟨root, among, same⟩ := Located.exists_of_mem {}
        (List.mem_append_right (Go.takeByteOrderMark source).1 held)
      exact same ▸ preamble root (ahead among)
    rw [List.append_assoc, List.append_cancel_left_eq] at parts
    rw [← parts, List.append_cons] at read
    obtain ⟨slot, laid⟩ := Go.file_laid read all
    have behind : slot = .behind := Laid.last_of_node laid
    exact ⟨front, back, by simp, rfl, behind ▸ laid⟩

end Parsed

theorem childPaths_list (inner : List Tree) :
    (Go.Tree.node .importList (.leaf .token ['('] :: (inner ++ [.leaf .token [')']]))).childPaths =
      Tree.specPaths inner := by
  rw [Tree.childPaths, ← List.singleton_append, Go.specPaths_append, Go.specPaths_append]
  · exact List.append_nil _
  · rintro ⟨⟩

namespace Led

variable {source : Text} {trees front back : List Tree} {declaration : Located}
  (led : Led source trees declaration front back)
  (kind : declaration.isNode .importDeclaration) (parsed : Go.parse? source = some trees)
include led kind

theorem item : PreambleTree declaration.tree (Tree.textOfAll back) ∧
    Laid PreambleTree .before front (Tree.textOfAll [declaration.tree] ++ Tree.textOfAll back)
      .before := by
  obtain ⟨children, same⟩ := Located.isNode_iff.1 kind
  have laid := led.laid
  rw [same] at laid ⊢
  obtain ⟨slot, first, second⟩ := laid.split
  cases second with
  | item item _ => exact ⟨item, first⟩

theorem text_opens : ∃ more, declaration.text = "import".toList ++ more := by
  obtain ⟨item, -⟩ := led.item kind
  obtain ⟨children, same⟩ := Located.isNode_iff.1 kind
  rw [same] at item
  obtain ⟨trees, rfl, -⟩ := item.shape
  exact ⟨Tree.textOfAll trees, by rw [Located.text, same]; rfl⟩

include parsed

omit kind in
theorem source_eq : source = Tree.textOfAll ((Go.takeByteOrderMark source).1 ++ front) ++
    (declaration.text ++ Tree.textOfAll back) := by
  refine (Go.parse?_spelled parsed).symm.trans ?_
  rw [led.whole]
  simp [Tree.textOfAll_append, Tree.textOfAll, Located.text]

/-- A file with its first import declaration written anew. -/
theorem reads {written more : Text} {c : Char} (opens : written = "import".toList ++ c :: more)
    (apart : Text.continuesIdentifier c = false) :
    filePaths .before (Go.takeByteOrderMark (Tree.textOfAll ((Go.takeByteOrderMark source).1 ++
      front) ++ (written ++ Tree.textOfAll back))).2 =
        (preambleAt? (written ++ Tree.textOfAll back)).bind fun (paths, left) =>
          (filePaths .behind left).map fun (more, rest) =>
            (front.flatMap Tree.declaredPaths ++ (paths ++ more), rest) := by
  obtain ⟨-, laid⟩ := led.item kind
  obtain ⟨tail, text⟩ := led.text_opens kind
  have head (old : Text) : (written ++ old).head? = (declaration.text ++ old).head? := by
    rw [opens, text]
    rfl
  have body : (Go.takeByteOrderMark source).2 =
      Tree.textOfAll front ++ (declaration.text ++ Tree.textOfAll back) := by
    have spelled := (Go.takeByteOrderMark_taken source).1.trans (led.source_eq parsed)
    rwa [Tree.textOfAll_append, List.append_assoc, List.append_cancel_left_eq] at spelled
  have starts : (Tree.textOfAll front ++ (written ++ Tree.textOfAll back)).head? =
      (Go.takeByteOrderMark source).2.head? := by
    rw [body]
    cases Tree.textOfAll front with
    | nil => exact head _
    | cons => rfl
  have lead : Laid Go.fileReader.Item .before front (written ++ Tree.textOfAll back) .before := by
    refine (laid.mono fun _ _ => PreambleTree.item).change Go.fileReader_item_behind (.inr ?_)
    rw [head]
    simp [Tree.textOfAll, Located.text]
  obtain ⟨start, passed, read⟩ := Go.ListReader.view_laid lead rfl
  change filePaths .before _ = (filePaths .before start).map _ at read
  have solid : pass true start = written ++ Tree.textOfAll back := by
    refine passed.trans ?_
    rw [opens, List.append_assoc]
    exact Go.pass_solid (Go.solid_of_opensImport rfl _)
  have word : Go.Lexeme.identifier? (pass true start) =
      some ("import".toList, c :: (more ++ Tree.textOfAll back)) := by
    rw [← Go.pass_solid (Go.solid_pass true start), solid, opens, List.append_assoc]
    refine identifier?_import fun d first => ?_
    cases first
    exact apart
  rw [Tree.textOfAll_append, List.append_assoc, takeByteOrderMark_eq starts, read,
    filePaths_import word, ← Go.preambleAt?_pass, solid, Option.map_bind]
  congr 1
  funext found
  simp only [Function.comp, Option.map_map]
  rfl

section Group

variable {inner : List Tree} {text behind : Text}
  (same : declaration.tree = .node .importDeclaration (.leaf .token "import".toList ::
    (Go.gap true text ++ [.node .importList
      (.leaf .token ['('] :: (inner ++ [.leaf .token [')']]))])))
  (apart : ∀ c, text.head? = some c → Text.continuesIdentifier c = false)
  (opened : pass true text = '(' :: behind)
include same apart opened

/-- The file is read on behind its first import declaration. -/
theorem back_reads : ∃ more, filePaths .behind (Tree.textOfAll back) = some (more, []) ∧
    trees.flatMap Tree.declaredPaths =
      front.flatMap Tree.declaredPaths ++ (Tree.specPaths inner ++ more) := by
  have spelled : declaration.text = "import".toList ++ (Tree.textOfAll (Go.gap true text) ++
      '(' :: (Tree.textOfAll inner ++ [')'])) := by
    rw [Located.text, same]
    simp [Tree.text, Tree.textOfAll, Tree.textOfAll_append]
  obtain ⟨c, more, opens, alone⟩ := import_opens (gap_opens apart opened).1
    (Tree.textOfAll inner ++ [')'])
  have whole := led.reads kind parsed (spelled.trans opens) alone
  obtain ⟨body, -, -, original⟩ := filePaths_of_parse? parsed
  rw [← led.source_eq parsed, original, Located.text, (led.item kind).1.paths,
    Option.bind_some] at whole
  obtain ⟨⟨more, rest⟩, read, pair⟩ := Option.map_eq_some_iff.1 whole.symm
  obtain ⟨paths, rfl⟩ := Prod.mk.inj pair
  refine ⟨more, read, ?_⟩
  rw [← paths, declaredPaths_eq same, childPaths_list]

/-- The first import declaration, which is a group, with an edit between its brackets. -/
theorem grown_reads {list : Located}
    (place : list.start = declaration.start.after
      ("import".toList ++ Tree.textOfAll (Go.gap true text)))
    {edit : Edit} {ahead old rest : Text} {paths : Option (List Text)}
    (grows : Grows (list.start.offset + 1) inner edit ahead old rest paths) :
    filePaths .before (Go.takeByteOrderMark (source.take edit.span.start ++ edit.text ++
      source.drop edit.span.stop)).2 = paths.bind fun paths =>
        (filePaths .behind (Tree.textOfAll back)).map fun (more, rest) =>
          (front.flatMap Tree.declaredPaths ++ (paths ++ more), rest) := by
  have spelled : declaration.text = "import".toList ++ (Tree.textOfAll (Go.gap true text) ++
      '(' :: (ahead ++ old ++ (rest ++ [')']))) := by
    rw [Located.text, same]
    simp [Tree.text, Tree.textOfAll, Tree.textOfAll_append, grows.cuts.whole]
  obtain ⟨start, opening⟩ := gap_opens apart opened
  generalize Tree.textOfAll (Go.gap true text) = between at start opening place spelled
  have source_eq := led.source_eq parsed
  have length : declaration.start.offset =
      (Tree.textOfAll ((Go.takeByteOrderMark source).1 ++ front)).length := by
    rw [led.start, Place.offset_after]
    exact Nat.zero_add _
  have written : source.take edit.span.start ++ edit.text ++ source.drop edit.span.stop =
      Tree.textOfAll ((Go.takeByteOrderMark source).1 ++ front) ++ ("import".toList ++
        (between ++ '(' :: (ahead ++ (edit.text ++ (rest ++ [')'])))) ++ Tree.textOfAll back) := by
    have cut : source = (Tree.textOfAll ((Go.takeByteOrderMark source).1 ++ front) ++
        ("import".toList ++ (between ++ '(' :: ahead))) ++ (old ++ (rest ++ ')' ::
          Tree.textOfAll back)) := by
      rw [spelled] at source_eq
      refine source_eq.trans ?_
      simp
    have starts : edit.span.start = (Tree.textOfAll ((Go.takeByteOrderMark source).1 ++ front) ++
        ("import".toList ++ (between ++ '(' :: ahead))).length := by
      rw [grows.cuts.start, place, Place.offset_after, length]
      simp only [List.length_append, List.length_cons]
      omega
    rw [grows.cuts.stop, starts, ← List.drop_drop]
    generalize Tree.textOfAll ((Go.takeByteOrderMark source).1 ++ front) = lead at *
    rw [cut, List.take_left, List.drop_left, List.drop_left]
    simp
  obtain ⟨c, more, opens, alone⟩ := import_opens start (ahead ++ (edit.text ++ (rest ++ [')'])))
  have regroup : "import".toList ++ (between ++ '(' :: (ahead ++ (edit.text ++ (rest ++ [')'])))) ++
      Tree.textOfAll back = "import".toList ++ (between ++ '(' :: (ahead ++ (edit.text ++
        (rest ++ ')' :: Tree.textOfAll back)))) := by
    simp
  have list_read : preambleAt? ("import".toList ++ (between ++ '(' :: (ahead ++ (edit.text ++
      (rest ++ ')' :: Tree.textOfAll back))))) = paths.map fun paths => (paths, Tree.textOfAll back) := by
    rw [preambleAt?_import (start _), Go.importsAt?, opening]
    exact grows.read _
  rw [written, led.reads kind parsed opens alone, regroup, list_read]
  cases paths <;> rfl

end Group

end Led

/-! ### Written files -/

theorem render_of_edit {source : Text} {file : SourceFile}
    (read : SourceFile.parse? source = some file) {added : List Text} {edit : Edit}
    (made : (file.addImports added).edits = [edit]) :
    (file.addImports added).render =
      if (Go.parse? (source.take edit.span.start ++ edit.text ++ source.drop edit.span.stop)).isSome
      then .ok (source.take edit.span.start ++ edit.text ++ source.drop edit.span.stop)
      else .error .invalidOutput := by
  rw [SourceFile.render, made, source_addImports read]
  rfl

theorem render_unchanged {source : Text} {file : SourceFile}
    (read : SourceFile.parse? source = some file) : (file.addImports []).render = .ok source := by
  have none : (file.addImports []).edits = [] := by
    rw [edits_addImports read]
    rfl
  rw [SourceFile.render, none, source_addImports read]
  rfl

/-- A file that is read has the imports that are read. -/
theorem existing_of_filePaths {source : Text} {paths : List Text}
    (view : filePaths .before (Go.takeByteOrderMark source).2 = some (paths, [])) :
    ∃ file, SourceFile.parse? source = some file ∧ file.imports.existing = paths := by
  have parses : (Go.parse? source).isSome := by
    rw [parse?_isSome_iff, view]
    rfl
  obtain ⟨trees, parsed⟩ := Option.isSome_iff_exists.1 parses
  obtain ⟨body, -, -, again⟩ := filePaths_of_parse? parsed
  refine ⟨_, by rw [SourceFile.parse?, parsed]; rfl, ?_⟩
  rw [existing_eq]
  exact congrArg Prod.fst (Option.some.inj (again.symm.trans view))

/-- New imports with legal paths in the first import declaration, which is a group and has only package
clauses in front of it. -/
theorem group_takes_legal_imports {source : Text} {trees : List Tree} {file : SourceFile}
    (parsed : Go.parse? source = some trees) (read : SourceFile.parse? source = some file)
    {declaration list : Located}
    (found : (Located.sideBySide {} trees).find? (Located.isNode .importDeclaration) =
      some declaration)
    (preamble : ∀ root ∈ (Located.sideBySide {} trees).takeWhile
      (fun root => !root.isNode .importDeclaration), root.tree.isPreamble)
    (child : list ∈ declaration.children) (kind : list.isNode .importList)
    {added : List Text} (legal : ∀ path ∈ added, isLegalPath path) :
    ∃ earlier run, LastRun (ItemLine.divide (importItems list)) earlier run ∧
      (¬ SwallowsBracket source list run added → ¬ DoublesTerminator source list run added →
        ∃ output written, (file.addImports added).render = .ok output ∧
          SourceFile.parse? output = some written ∧
          written.imports.existing.Perm (file.imports.existing ++ added)) ∧
      (added ≠ [] → DoublesTerminator source list run added →
        (file.addImports added).render = .error .invalidOutput) := by
  have root := List.mem_of_find?_eq_some found
  have node := List.find?_some found
  have stands := (Located.partOf_roots parsed declaration root).stands
  obtain ⟨front, back, led⟩ := exists_led parsed found preamble
  obtain ⟨children, same, shape⟩ := importShape_of_root parsed root node
  cases shape with
  | single =>
    obtain ⟨tree, -⟩ := import_child same child kind
    rw [Located.isNode, tree] at kind
    cases kind
  | @group text inner slot behind tail apart opened laid =>
    obtain ⟨tree, place⟩ := import_child same child kind
    have group : ImportGroup source list inner := ⟨tree, stands.child child, tail, slot, laid⟩
    obtain ⟨-, anchor⟩ := group_of_first parsed found child kind read
    obtain ⟨indent, blank, ofGroup⟩ := ofGroup_eq source list
    obtain ⟨earlier, run, last, lines⟩ := exists_lastRun (ItemLine.divide (importItems list))
    obtain ⟨more, onward, paths⟩ := led.back_reads node parsed same apart opened
    have reads {edit : Edit} {ahead old rest : Text} {paths : Option (List Text)}
        (grows : Grows (list.start.offset + 1) inner edit ahead old rest paths) :=
      led.grown_reads node parsed same apart opened place grows
    refine ⟨earlier, run, last, fun whole single => ?_, fun filled doubled => ?_⟩
    · by_cases filled : added = []
      · subst filled
        exact ⟨source, file, render_unchanged read, read, by rw [List.append_nil]⟩
      · obtain ⟨ahead, old, rest, written, grows, perm⟩ :=
          group.grows_of_fit legal blank last lines filled whole single
        have view := reads grows
        rw [onward] at view
        obtain ⟨output, back, held⟩ := existing_of_filePaths view
        refine ⟨_, output, ?_, back, ?_⟩
        · rw [render_of_edit read (edits_of_group read (anchor.trans ofGroup) filled), if_pos]
          rw [parse?_isSome_iff, view]
          rfl
        · rw [held, existing_of_parse? parsed read, paths]
          calc front.flatMap Tree.declaredPaths ++ (written ++ more)
            _ ~ front.flatMap Tree.declaredPaths ++ (Tree.specPaths inner ++ added ++ more) :=
              (perm.append_right more).append_left _
            _ ~ front.flatMap Tree.declaredPaths ++ (Tree.specPaths inner ++ more ++ added) := by
              simp only [List.append_assoc]
              exact ((List.perm_append_comm).append_left _).append_left _
            _ = front.flatMap Tree.declaredPaths ++ (Tree.specPaths inner ++ more) ++ added := by
              simp only [List.append_assoc]
    · obtain ⟨ahead, old, rest, grows⟩ := group.grows_of_doubled legal blank last lines doubled
      have view := reads grows
      rw [render_of_edit read (edits_of_group read (anchor.trans ofGroup) filled), if_neg]
      rw [parse?_isSome_iff, view]
      exact Bool.false_ne_true

/-- The bracket stands on the row of a line with its terminator, and in front of it is a comment up to
the end of the row; a new path is sorted behind both. -/
theorem group_takes_legal_imports_of_row :
    let source := "package a\n\nimport (\n\t\"a\" // x\n\t\"b\"; /* y */)\n".toList
    let output := ("package a\n\nimport (\n\t\"0\"\n\t\"a\" // x\n\t\"b\"; /* y */\n" ++
      "\t\"c\")\n").toList
    let added := ["c".toList, "0".toList]
    ∃ trees file declaration list written,
      Go.parse? source = some trees ∧ SourceFile.parse? source = some file ∧
      (Located.sideBySide {} trees).find? (Located.isNode .importDeclaration) = some declaration ∧
      (∀ root ∈ (Located.sideBySide {} trees).takeWhile
        (fun root => !root.isNode .importDeclaration), root.tree.isPreamble) ∧
      list ∈ declaration.children ∧ list.isNode .importList ∧
      (∀ path ∈ added, isLegalPath path) ∧
      (file.addImports added).render = .ok output ∧ SourceFile.parse? output = some written ∧
      written.imports.existing.Perm (["a".toList, "b".toList] ++ added) := by
  intro source output added
  have layout : ∃ trees ∈ Go.parse? source, ∃ declaration ∈
      (Located.sideBySide {} trees).find? (Located.isNode .importDeclaration),
      (∀ root ∈ (Located.sideBySide {} trees).takeWhile
        (fun root => !root.isNode .importDeclaration), root.tree.isPreamble) ∧
      ∃ list ∈ declaration.children, list.isNode .importList ∧
        ∀ line ∈ ItemLine.divide (importItems list), ¬ "c".toList < line.importPath := by
    decide +kernel
  have written : ∃ file ∈ SourceFile.parse? source, (file.addImports added).render = .ok output ∧
      file.imports.existing = ["a".toList, "b".toList] := by
    decide +kernel
  have legal : ∀ path ∈ added, isLegalPath path := by decide +kernel
  obtain ⟨trees, parsed, declaration, found, preamble, list, child, kind, least⟩ := layout
  obtain ⟨file, read, rendered, existing⟩ := written
  obtain ⟨earlier, run, last, takes, -⟩ :=
    group_takes_legal_imports parsed read found preamble child kind legal
  have none (line : ItemLine) : ¬ WrittenLast run added line := by
    intro written
    obtain ⟨front, back, parts, -⟩ := written.place
    refine least line (last.subset ?_) (written.above _ List.mem_cons_self)
    rw [parts]
    exact List.mem_append_right _ List.mem_cons_self
  obtain ⟨out, written, made, back, perm⟩ := takes
    (fun ⟨line, written, _⟩ => none line written) fun ⟨line, written, _⟩ => none line written
  obtain rfl : output = out := Except.ok.inj (rendered.symm.trans made)
  exact ⟨trees, file, declaration, list, written, parsed, read, found, preamble, child, kind, legal,
    rendered, back, existing ▸ perm⟩

/-- The import that is sorted to the end has a comment, which then takes in the bracket. -/
theorem comment_takes_in_bracket :
    let source := "package a\n\nimport (\n\t\"b\" // x\n\t\"a\")\n".toList
    ∃ file, SourceFile.parse? source = some file ∧ isLegalPath "0".toList ∧
      (file.addImports ["0".toList]).render = .error .invalidOutput := by
  intro source
  have read : ∃ file ∈ SourceFile.parse? source, isLegalPath "0".toList ∧
      (file.addImports ["0".toList]).render = .error .invalidOutput := by
    decide +kernel
  exact read

end GoGraft
