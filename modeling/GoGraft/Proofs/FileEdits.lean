import GoGraft.Proofs.ImportEdits

/-! Files with import declarations that are written anew. The front of such a file is read as it was,
then the new declaration, then what came behind it. -/

namespace GoGraft

open Go (Tree Slot Laid PreambleTree filePaths preambleAt? pass gap endsItem)
open Go.Grammar

/-! ### Imports of a file -/

theorem nodes_paths (place : Place) (trees : List Tree) :
    ((Located.sideBySide place trees).filter (Located.isNode .importSpec)).filterMap importPath? =
      Tree.specPaths trees := by
  rw [← filter_paths (fun _ spec => spec) place trees]
  refine List.filterMap_congr fun spec held => ?_
  exact importPath?_eq (List.mem_filter.1 held).2

theorem specs_paths (child : Located) :
    (importSpecs child).filterMap importPath? = child.tree.childPaths := by
  rw [importSpecs]
  split
  next spec =>
    obtain ⟨children, same⟩ := Located.isNode_iff.1 spec
    rw [List.filterMap_cons, importPath?_eq spec, same, Tree.childPaths]
    cases (Go.Tree.node .importSpec children).importPath? <;> rfl
  next other =>
    rw [Located.isNode_eq] at other
    rw [Located.nodes, Located.children]
    cases tree : child.tree with
    | leaf => rfl
    | node kind children =>
      have apart : kind ≠ .importSpec := by
        rintro rfl
        rw [tree] at other
        exact other rfl
      rw [Tree.childPaths]
      · exact nodes_paths _ _
      · exact apart

theorem childPaths_sideBySide (place : Place) (trees : List Tree) :
    ((Located.sideBySide place trees).flatMap importSpecs).filterMap importPath? =
      trees.flatMap Tree.childPaths := by
  induction trees generalizing place with
  | nil => rfl
  | cons tree rest ih =>
    rw [Located.sideBySide, List.flatMap_cons, List.filterMap_append, specs_paths, ih,
      List.flatMap_cons]

/-- A file imports what its declarations hold. -/
theorem existing_eq (source : Text) (place : Place) (trees : List Tree) :
    (ImportSection.ofRoots source (Located.sideBySide place trees)).existing =
      trees.flatMap Tree.declaredPaths := by
  rw [ImportSection.ofRoots]
  induction trees generalizing place with
  | nil => rfl
  | cons tree rest ih =>
    rw [Located.sideBySide, List.flatMap_cons, ← ih (place.after tree.text)]
    cases kind : Located.isNode .importDeclaration ⟨tree, place, place.after tree.text⟩ with
    | true =>
      obtain ⟨children, same⟩ := Located.isNode_iff.1 kind
      rw [List.filter_cons_of_pos kind, List.flatMap_cons, List.filterMap_append, Located.children]
      dsimp only at same ⊢
      rw [same, Tree.declaredPaths, ← childPaths_sideBySide place]
    | false =>
      have none : tree.declaredPaths = [] := by
        fun_cases Tree.declaredPaths tree with
        | case1 => cases kind
        | case2 => rfl
      rw [List.filter_cons_of_neg (by simp [kind]), none]
      rfl

/-- A byte order mark declares nothing. -/
theorem declaredPaths_mark (source : Text) :
    (Go.takeByteOrderMark source).1.flatMap Tree.declaredPaths = [] := by
  rw [List.flatMap_eq_nil_iff]
  intro tree held
  have blank := (Go.takeByteOrderMark_taken source).2 tree held
  cases tree with
  | leaf => rfl
  | node => cases blank

theorem filePaths_of_parse? {source : Text} {trees : List Tree}
    (parsed : Go.parse? source = some trees) :
    ∃ body, trees = (Go.takeByteOrderMark source).1 ++ body ∧
      reading file {} {} (Go.takeByteOrderMark source).2 = some (body, []) ∧
      filePaths .before (Go.takeByteOrderMark source).2 =
        some (trees.flatMap Tree.declaredPaths, []) := by
  rw [Go.parse?_eq] at parsed
  obtain ⟨⟨body, rest⟩, read, rfl⟩ := Option.map_eq_some_iff.1 parsed
  obtain rfl : rest = [] := run_ending read
  refine ⟨body, rfl, read, ?_⟩
  rw [List.flatMap_append, declaredPaths_mark, filePaths, fileRest, read]
  rfl

theorem parse?_isSome_iff (source : Text) :
    (Go.parse? source).isSome ↔ (filePaths .before (Go.takeByteOrderMark source).2).isSome := by
  rw [Go.parse?_eq, filePaths, Option.isSome_map, Option.isSome_map]
  rfl

/-! ### Written declarations in a file -/

/-- A terminator and the gap in front of it declare nothing. -/
theorem filePaths_terminated (text mark rest : Text) :
    ((reading file {} {} rest).map fun (more, left) =>
      (gap false text ++ [Go.Tree.leaf .terminator mark] ++ more, left)).map (fun (trees, left) =>
        (trees.flatMap Tree.declaredPaths, left)) = filePaths .before rest := by
  have marks (more : List Tree) :
      (gap false text ++ .leaf .terminator mark :: more).flatMap Tree.declaredPaths =
        more.flatMap Tree.declaredPaths := by
    have alone := @Go.flatMap_gap Tree.declaredPaths (fun _ _ => rfl) false text
      (.leaf .terminator mark)
    rw [List.append_cons, List.flatMap_append, alone]
    rfl
  rw [Option.map_map, filePaths, fileRest]
  congr 1
  funext found
  simp only [Function.comp, List.append_assoc, List.singleton_append, marks]

/-- Behind an item, a file is read on behind the terminator, which its end may stand for. -/
theorem filePaths_behind (text : Text) : filePaths .behind text =
    match pass false text with
    | c :: rest => if endsItem c then filePaths .before rest else none
    | [] => filePaths .before [] := by
  rw [filePaths, reading_fileRest_behind, reading_terminator]
  cases pass false text with
  | nil => exact filePaths_terminated text [] []
  | cons c rest =>
    dsimp only
    split
    · exact filePaths_terminated text [c] rest
    · rfl

theorem filePaths_behind_eq {one two : Text} (same : pass false one = pass false two) :
    filePaths .behind one = filePaths .behind two := by
  rw [filePaths_behind, filePaths_behind, same]

/-- Behind the word `import`, a file is read as an import declaration and what comes behind it. -/
theorem filePaths_import {text left : Text}
    (word : Go.Lexeme.identifier? (pass true text) = some ("import".toList, left)) :
    filePaths .before text = (preambleAt? text).bind fun (paths, behind) =>
      (filePaths .behind behind).map fun (more, rest) => (paths ++ more, rest) := by
  cases read : preambleAt? text with
  | some found =>
    rw [← Go.preambleAt?_pass] at read
    exact Go.fileReader.item read
  | none =>
    have filled : pass true text ≠ [] := by
      intro none
      rw [none] at word
      cases word
    rw [Go.preambleAt?_eq (mem_itemWords.2 (.inl rfl)) word { terminator := true },
      Option.map_eq_none_iff] at read
    rw [filePaths, fileRest, reading_file, reading_round, read, Option.bind_none]
    dsimp only
    rw [reading_ending, if_neg filled]
    rfl

/-- A written declaration is read, or the file is not. -/
theorem filePaths_declares {sure : Prop} {written text after : Text} {paths : List Text}
    (declares : Declares sure written paths) (found : pass true text = written ++ after) :
    filePaths .before text = (filePaths .behind after).map
        (fun (more, rest) => (paths ++ more, rest)) ∨
      filePaths .before text = none ∧ ¬ sure := by
  obtain ⟨c, more, spelled, apart⟩ := declares.opens
  have word : Go.Lexeme.identifier? (pass true text) =
      some ("import".toList, c :: (more ++ after)) := by
    rw [← Go.pass_solid (Go.solid_pass true text), found, spelled, List.append_assoc]
    refine identifier?_import fun d first => ?_
    cases first
    exact apart
  have read := declares.read after
  rw [← found, Go.preambleAt?_pass] at read
  rw [filePaths_import word]
  rcases read with read | ⟨nothing, unsure⟩
  · exact .inl (by rw [read]; rfl)
  · exact .inr ⟨by rw [nothing]; rfl, unsure⟩

theorem Declares.solid {sure : Prop} {written : Text} {paths : List Text}
    (declares : Declares sure written paths) (after : Text) :
    pass true (written ++ after) = written ++ after := by
  obtain ⟨c, more, rfl, _⟩ := declares.opens
  rw [List.append_assoc]
  exact Go.pass_solid (Go.solid_of_opensImport rfl _)

/-- A file with one of its import declarations written anew. -/
theorem filePaths_edited {sure : Prop} {front middle children : List Tree}
    {after other written : Text} {last : Slot} {paths : List Text}
    (laid : Laid PreambleTree .before (front ++ .node .importDeclaration children :: middle) after
      last)
    (declares : Declares sure written paths) (same : other.head? = after.head?) :
    ∃ left, pass last.newlines left = pass last.newlines other ∧
      (filePaths .before (Tree.textOfAll front ++ (written ++ (Tree.textOfAll middle ++ other))) =
        (filePaths last left).map (fun (more, rest) => (front.flatMap Tree.declaredPaths ++
          (paths ++ (middle.flatMap Tree.declaredPaths ++ more)), rest)) ∨
      filePaths .before (Tree.textOfAll front ++ (written ++ (Tree.textOfAll middle ++ other))) =
        none ∧ ¬ sure) := by
  obtain ⟨slot, first, second⟩ := laid.split
  cases second with
  | item item behind =>
    obtain ⟨trees, rfl, _⟩ := item.shape
    have head : (written ++ (Tree.textOfAll middle ++ other)).head? =
        (Tree.textOfAll (.node .importDeclaration (.leaf .token "import".toList :: trees) ::
          middle) ++ after).head? := by
      obtain ⟨c, more, rfl, _⟩ := declares.opens
      rfl
    have lead := (first.mono fun _ _ => PreambleTree.item).change Go.fileReader_item_behind
      (.inr head)
    have tail := (behind.mono fun _ _ => PreambleTree.item).change Go.fileReader_item_behind
      (.inr same)
    obtain ⟨start, passed, read⟩ := Go.ListReader.view_laid lead rfl
    obtain ⟨left, onward, more⟩ := Go.ListReader.view_laid tail rfl
    refine ⟨left, onward, ?_⟩
    change filePaths .before _ = (filePaths .before start).map _ at read
    change filePaths .behind _ = (filePaths last left).map _ at more
    rcases filePaths_declares declares (passed.trans (declares.solid _)) with
      found | ⟨nothing, unsure⟩
    · left
      rw [read, found, more, Option.map_map, Option.map_map]
      rfl
    · exact .inr ⟨by rw [read, nothing]; rfl, unsure⟩

/-- A file with an import declaration put in on a line of its own. -/
theorem filePaths_added {sure : Prop} {front : List Tree} {after written : Text} {slot : Slot}
    {paths : List Text} (laid : Laid PreambleTree .before front after slot)
    (declares : Declares sure written paths) (rest : Text) :
    filePaths .before (Tree.textOfAll front ++ ('\n' :: '\n' :: (written ++ rest))) =
      (filePaths .behind rest).map (fun (more, rest) =>
        (front.flatMap Tree.declaredPaths ++ (paths ++ more), rest)) ∨
      filePaths .before (Tree.textOfAll front ++ ('\n' :: '\n' :: (written ++ rest))) =
        none ∧ ¬ sure := by
  have lead : Laid Go.fileReader.Item .before front ('\n' :: '\n' :: (written ++ rest)) slot :=
    (laid.mono fun _ _ => PreambleTree.item).change Go.fileReader_item_behind (.inl rfl)
  obtain ⟨start, passed, read⟩ := Go.ListReader.view_laid lead rfl
  change filePaths .before _ = (filePaths slot start).map _ at read
  -- In either slot the two newlines lead to the declaration.
  obtain ⟨text, same, found⟩ : ∃ text, filePaths slot start = filePaths .before text ∧
      pass true text = written ++ rest := by
    cases slot with
    | before =>
      refine ⟨start, rfl, passed.trans ?_⟩
      exact (Go.pass_blank rfl _).trans ((Go.pass_blank rfl _).trans (declares.solid rest))
    | behind =>
      refine ⟨'\n' :: (written ++ rest), ?_, (Go.pass_blank rfl _).trans (declares.solid rest)⟩
      exact Go.fileReader.terminator rfl (passed.trans (Go.pass_solid (Go.solid_terminator rfl _)))
  rcases filePaths_declares declares found with viewed | ⟨nothing, unsure⟩
  · left
    rw [read, same, viewed, Option.map_map]
    rfl
  · exact .inr ⟨by rw [read, same, nothing]; rfl, unsure⟩

/-- A file whose front is kept. -/
theorem filePaths_kept {front : List Tree} {after other : Text} {last : Slot}
    (laid : Laid PreambleTree .before front after last) (same : other.head? = after.head?) :
    ∃ left, pass last.newlines left = pass last.newlines other ∧
      filePaths .before (Tree.textOfAll front ++ other) = (filePaths last left).map
        fun (more, rest) => (front.flatMap Tree.declaredPaths ++ more, rest) :=
  Go.ListReader.view_laid ((laid.mono fun _ _ => PreambleTree.item).change
    Go.fileReader_item_behind (.inr same)) rfl

theorem takeByteOrderMark_eq {source text : Text}
    (same : text.head? = (Go.takeByteOrderMark source).2.head?) :
    Go.takeByteOrderMark (Tree.textOfAll (Go.takeByteOrderMark source).1 ++ text) =
      ((Go.takeByteOrderMark source).1, text) := by
  revert same
  fun_cases Go.takeByteOrderMark source with
  | case1 rest => exact fun _ => rfl
  | case2 source other =>
    intro same
    rw [Tree.textOfAll, List.nil_append, Go.takeByteOrderMark]
    rintro rest rfl
    obtain ⟨tail, found⟩ := List.head?_eq_some_iff.1 same.symm
    exact other tail found

end GoGraft
