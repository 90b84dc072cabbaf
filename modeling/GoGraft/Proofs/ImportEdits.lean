import GoGraft.Proofs.ImportGroups

/-! Import declarations that are written or added to. Whatever comes behind, what stands there after
an edit is read as one import declaration, with the paths that were there and the new ones. -/

namespace GoGraft

open Go (Tree Slot Closes ImportShape PreambleTree IsLine isBlank isLegalPath importsAt? preambleAt?
  pass pass_blank)

/-! ### Written declarations -/

theorem identifier?_import {text : Text}
    (apart : ∀ c, text.head? = some c → Text.continuesIdentifier c = false) :
    Go.Lexeme.identifier? (pass true ("import".toList ++ text)) =
      some ("import".toList, text) := by
  have alone : Go.Lexeme.identifier? "import".toList = some ("import".toList, []) := by
    decide +kernel
  rw [Go.solid_identifier alone]
  exact Go.Lexeme.identifier?_behind alone apart

theorem preambleAt?_import {text : Text}
    (apart : ∀ c, text.head? = some c → Text.continuesIdentifier c = false) :
    preambleAt? ("import".toList ++ text) = importsAt? text := by
  rw [preambleAt?, identifier?_import apart, Option.bind_some]
  rfl

/-- A text that is read as an import declaration with some paths, whatever comes behind it. If it is
not `sure`, it may be none. -/
structure Declares (sure : Prop) (text : Text) (paths : List Text) : Prop where
  opens : ∃ c more, text = "import".toList ++ c :: more ∧ Text.continuesIdentifier c = false
  read : ∀ after, preambleAt? (text ++ after) = some (paths, after) ∨
    preambleAt? (text ++ after) = none ∧ ¬ sure

theorem Declares.weaken {sure more : Prop} {text : Text} {paths : List Text}
    (declares : Declares sure text paths) (less : more → sure) : Declares more text paths :=
  ⟨declares.opens, fun after => (declares.read after).imp_right fun ⟨nothing, unsure⟩ =>
    ⟨nothing, fun held => unsure (less held)⟩⟩

/-- The trivia between the word `import` and the bracket of a list are passed over again. -/
theorem gap_opens {text behind : Text}
    (apart : ∀ c, text.head? = some c → Text.continuesIdentifier c = false)
    (opened : pass true text = '(' :: behind) :
    (∀ rest c, (Tree.textOfAll (Go.gap true text) ++ '(' :: rest).head? = some c →
      Text.continuesIdentifier c = false) ∧
      ∀ rest, pass true (Tree.textOfAll (Go.gap true text) ++ '(' :: rest) = '(' :: rest := by
  refine ⟨fun rest c first => apart c ?_, fun rest => ?_⟩
  · rw [← Go.textOfAll_gap true text, opened, ← first]
    cases Tree.textOfAll (Go.gap true text) <;> rfl
  · refine (@Go.pass_gap .before text _ (.inr ?_)).trans
      (Go.pass_solid ⟨fun c first => by cases first; rfl, rfl⟩)
    change _ = (pass true text).head?
    rw [opened]
    rfl

theorem import_opens {between : Text}
    (apart : ∀ rest c, (between ++ '(' :: rest).head? = some c → Text.continuesIdentifier c = false)
    (rest : Text) : ∃ c more, "import".toList ++ (between ++ '(' :: rest) =
      "import".toList ++ c :: more ∧ Text.continuesIdentifier c = false := by
  cases between with
  | nil => exact ⟨'(', rest, rfl, rfl⟩
  | cons c between => exact ⟨c, between ++ '(' :: rest, rfl, apart [] c rfl⟩

/-- The word `import` and a list between brackets. -/
theorem declares_list {sure : Prop} {between inner : Text} {paths : List Text}
    (apart : ∀ rest c, (between ++ '(' :: rest).head? = some c → Text.continuesIdentifier c = false)
    (opened : ∀ rest, pass true (between ++ '(' :: rest) = '(' :: rest)
    (closes : ∀ rest, Closes sure .before (inner ++ ')' :: rest) paths rest) :
    Declares sure ("import".toList ++ (between ++ '(' :: (inner ++ [')']))) paths := by
  refine ⟨import_opens apart _, fun after => ?_⟩
  have spelled : "import".toList ++ (between ++ '(' :: (inner ++ [')'])) ++ after =
      "import".toList ++ (between ++ '(' :: (inner ++ ')' :: after)) := by
    simp
  rw [spelled, preambleAt?_import (apart _), importsAt?, opened]
  exact closes after

theorem renderGroup_eq (entries : List ImportEntry) :
    ImportEntry.renderGroup entries = "import".toList ++ ([' '] ++ '(' ::
      (('\n' :: (ImportEntry.renderSorted "\t".toList entries ++ ['\n'])) ++ [')'])) := by
  unfold ImportEntry.renderGroup
  simp

theorem declares_renderGroup {sure : Prop} {entries : List ImportEntry}
    (lines : ∀ entry ∈ entries, IsLine sure entry.text entry.path) (filled : entries ≠ []) :
    Declares sure (ImportEntry.renderGroup entries)
      ((sortBy ImportEntry.before entries).map ImportEntry.path) := by
  have tab : ∀ c ∈ "\t".toList, isBlank true c := by
    change ∀ c ∈ ['\t'], isBlank true c
    rw [List.forall_mem_singleton]
    rfl
  rw [renderGroup_eq]
  refine declares_list ?_ ?_ fun rest => ?_
  · intro rest c first
    cases first
    rfl
  · intro rest
    rw [List.singleton_append, pass_blank rfl]
    exact Go.pass_solid ⟨fun c first => by cases first; rfl, rfl⟩
  · have closed := Go.closes_block lines filled tab rest
    simpa using closed

/-! ### Edited declarations -/

/-- An edit of a declaration that adds paths to it. -/
structure AddsImports (sure : Prop) (declaration : Located) (added : List Text) (edit : Edit)
    (front old back : Text) (paths : List Text) : Prop where
  cuts : edit.Cuts declaration.start.offset declaration.text front old back
  kept : declaration.tree.declaredPaths ⊆ paths
  held : added ⊆ paths
  declares : Declares sure (front ++ edit.text ++ back) paths

theorem Located.last_child {declaration child : Located} {kind other : Go.NodeKind}
    {leaves : List Tree} {tree : Tree} (same : declaration.tree = .node kind (leaves ++ [tree]))
    (none : ∀ leaf ∈ leaves, leaf.isNode other = false) (inside : child ∈ declaration.children)
    (node : child.isNode other) :
    child.tree = tree ∧ child.start = declaration.start.after (Tree.textOfAll leaves) := by
  rw [children, same] at inside
  dsimp only at inside
  rw [sideBySide_append] at inside
  rcases List.mem_append.1 inside with front | last
  · have leaf := none child.tree (tree_mem_of_mem_sideBySide front)
    rw [isNode_eq, leaf] at node
    cases node
  · cases List.mem_singleton.1 last
    exact ⟨rfl, rfl⟩

/-- New paths that are strings, and no semicolons between the imports that are there. -/
structure CanAdd (added : List Text) (declaration : Tree) : Prop where
  legal : ∀ path ∈ added, isLegalPath path
  lines : ∀ text, Tree.leaf .terminator text ∈ declaration.leaves → text = ['\n']

theorem mem_leavesOfAll {kind : Go.LeafKind} {text : Text} {trees : List Tree}
    (inside : Tree.leaf kind text ∈ trees) : Tree.leaf kind text ∈ Tree.leavesOfAll trees := by
  induction trees with
  | nil => cases inside
  | cons tree rest ih =>
    rw [Tree.leavesOfAll]
    rcases List.mem_cons.1 inside with rfl | later
    · exact List.mem_append_left _ List.mem_cons_self
    · exact List.mem_append_right _ (ih later)

theorem lineIndent_blank (source : Text) (offset : Nat) :
    ∀ c ∈ Text.lineIndent source offset, isBlank true c := by
  intro c held
  have space := List.all_eq_true.1 List.all_takeWhile c held
  rcases Bool.or_eq_true_iff.1 space with same | same
  · rw [eq_of_beq same]
    rfl
  · rw [eq_of_beq same]
    rfl

theorem ofGroup_eq (source : Text) (list : Located) :
    ∃ indent, (∀ c ∈ indent, isBlank true c) ∧ ImportAnchor.ofGroup source list =
      .group (list.start.offset + 1) (list.stop.offset - 1) indent
        ((ItemLine.divide (importItems list)).map ImportLine.ofItems) := by
  refine ⟨_, ?_, rfl⟩
  split
  · exact lineIndent_blank _ _
  · rw [List.forall_mem_singleton]
    rfl

section Edits

variable {source : Text} {declaration : Located} (stands : declaration.StandsIn source)
  {imports : ImportSection} (filled : imports.added ≠ [])
  (plain : ∀ path ∈ imports.added, ∀ c ∈ path, c ≠ '\x22')
  (anchored : ImportAnchor.ofDeclaration? source declaration = some imports.anchor)
  {edit : Edit} (made : imports.edit? source = some edit)

/-- Behind the word `import` there is one node. -/
theorem import_child {between : Text} {tree : Tree} {kind : Go.NodeKind}
    (same : declaration.tree = .node .importDeclaration
      (.leaf .token "import".toList :: (Go.gap true between ++ [tree])))
    {child : Located} (inside : child ∈ declaration.children) (node : child.isNode kind) :
    child.tree = tree ∧ child.start = declaration.start.after
      ("import".toList ++ Tree.textOfAll (Go.gap true between)) := by
  rw [← List.cons_append] at same
  refine Located.last_child same ?_ inside node
  refine List.forall_mem_cons.2 ⟨rfl, fun leaf held => ?_⟩
  have blank := Go.isTrivia_of_mem_gap leaf held
  cases leaf with
  | leaf => rfl
  | node => cases blank

theorem declaredPaths_eq {between : Text} {tree : Tree}
    (same : declaration.tree = .node .importDeclaration
      (.leaf .token "import".toList :: (Go.gap true between ++ [tree]))) :
    declaration.tree.declaredPaths = tree.childPaths := by
  rw [same, Tree.declaredPaths, List.flatMap_cons, Go.flatMap_gap fun _ _ => rfl]
  rfl

include stands filled plain anchored made

theorem single_adds {between path : Text} {children : List Tree}
    (same : declaration.tree = .node .importDeclaration (.leaf .token "import".toList ::
      (Go.gap true between ++ [.node .importSpec children])))
    (known : (Go.Tree.node .importSpec children).importPath? = some path)
    (whole : Go.IsImport (Tree.textOfAll children) path) :
    ∃ front old back paths, AddsImports (CanAdd imports.added declaration.tree) declaration
      imports.added edit front old back paths := by
  rcases ofDeclaration?_eq_some anchored with ⟨spec, inside, kind, single⟩ | ⟨list, inside, kind, _⟩
  · obtain ⟨tree, _⟩ := import_child same inside kind
    have line : IsLine True spec.text path := by
      have laid : Go.Laid Go.ImportTree .before [spec.tree] [] .behind := by
        rw [tree]
        exact .item ⟨path, known, whole⟩ .nil
      have only : Tree.specPaths [spec.tree] = [path] := by
        simp [Tree.specPaths, tree, known]
      have own := Go.isLine_laid laid only
      simpa [Tree.textOfAll, Located.text] using own
    have first : (importPath? spec).getD [] = path := by
      rw [importPath?_eq kind, tree, known]
      rfl
    have lines : ∀ entry ∈ ⟨path, spec.text⟩ :: imports.added.map ImportEntry.ofPath,
        IsLine (∀ path ∈ imports.added, isLegalPath path) entry.text entry.path :=
      List.forall_mem_cons.2 ⟨line.weaken fun _ => trivial, isLine_added plain⟩
    rw [ImportSection.edit?, single, first] at made
    dsimp only at made
    rw [if_neg (by simpa using filled)] at made
    cases made
    refine ⟨[], declaration.text, [], (sortBy ImportEntry.before (⟨path, spec.text⟩ ::
      imports.added.map ImportEntry.ofPath)).map ImportEntry.path,
      ⟨by simp, rfl, stands.stop_eq⟩, ?_, ?_, ?_⟩
    · rw [declaredPaths_eq same, Tree.childPaths, known]
      intro other held
      rw [mem_sorted_paths, List.map_cons]
      exact List.mem_cons.2 (.inl (List.mem_singleton.1 held))
    · intro other held
      rw [mem_sorted_paths, List.map_cons, paths_added]
      exact List.mem_cons_of_mem _ held
    · rw [List.nil_append, List.append_nil]
      exact (declares_renderGroup lines (List.cons_ne_nil _ _)).weaken CanAdd.legal
  · obtain ⟨tree, _⟩ := import_child same inside kind
    rw [Located.isNode, tree] at kind
    cases kind

theorem group_adds {text behind rest : Text} {inner : List Tree} {last : Slot}
    (same : declaration.tree = .node .importDeclaration (.leaf .token "import".toList ::
      (Go.gap true text ++ [.node .importList
        (.leaf .token ['('] :: (inner ++ [.leaf .token [')']]))])))
    (apart : ∀ c, text.head? = some c → Text.continuesIdentifier c = false)
    (opened : pass true text = '(' :: behind)
    (laid : Go.Laid Go.ImportTree .before inner (')' :: rest) last)
    (room : ∀ list ∈ declaration.children, list.isNode .importList → HasRoom list imports.added) :
    ∃ front old back paths, AddsImports (CanAdd imports.added declaration.tree) declaration
      imports.added edit front old back paths := by
  rcases ofDeclaration?_eq_some anchored with ⟨spec, inside, kind, _⟩ | ⟨list, inside, kind, found⟩
  · obtain ⟨tree, _⟩ := import_child same inside kind
    rw [Located.isNode, tree] at kind
    cases kind
  · obtain ⟨tree, start⟩ := import_child same inside kind
    have group : ImportGroup source list inner := ⟨tree, stands.child inside, rest, last, laid⟩
    obtain ⟨indent, blank, anchor⟩ := ofGroup_eq source list
    rw [ImportSection.edit?, found, anchor] at made
    dsimp only at made
    rw [if_neg (by simpa using filled)] at made
    have adds := group.adds filled plain blank (room list inside kind)
    rw [Option.some.inj made] at adds
    obtain ⟨front, old, back, paths, cuts, kept, held, closes⟩ := adds
    have spelled : declaration.text = "import".toList ++ (Tree.textOfAll (Go.gap true text) ++
        '(' :: (Tree.textOfAll inner ++ [')'])) := by
      rw [Located.text, same]
      simp [Tree.text, Tree.textOfAll, Tree.textOfAll_append]
    refine ⟨"import".toList ++ (Tree.textOfAll (Go.gap true text) ++ '(' :: front), old,
      back ++ [')'], paths, ⟨?_, ?_, cuts.stop⟩, ?_, held, ?_⟩
    · rw [spelled, cuts.whole]
      simp
    · rw [cuts.start, start, Place.offset_after]
      simp only [List.length_append, List.length_cons]
      omega
    · have inside : Tree.specPaths (.leaf .token ['('] :: (inner ++ [.leaf .token [')']])) =
          Tree.specPaths inner := by
        rw [← List.singleton_append, Go.specPaths_append, Go.specPaths_append]
        exact List.append_nil _
      rw [declaredPaths_eq same, Tree.childPaths, inside]
      · exact kept
      · rintro ⟨⟩
    · obtain ⟨start, opening⟩ := gap_opens apart opened
      have lists (rest : Text) : Closes (CanTake imports.added inner) .before
          (front ++ edit.text ++ back ++ ')' :: rest) paths rest := by
        simpa only [List.append_assoc] using closes rest
      have declares := declares_list start opening lists
      have regroup : "import".toList ++ (Tree.textOfAll (Go.gap true text) ++ '(' :: front) ++
          edit.text ++ (back ++ [')']) = "import".toList ++ (Tree.textOfAll (Go.gap true text) ++
            '(' :: (front ++ edit.text ++ back ++ [')'])) := by
        simp
      rw [regroup]
      refine declares.weaken fun can => ⟨can.legal, fun text held => can.lines text ?_⟩
      rw [same, Tree.leaves, Tree.leavesOfAll, Tree.leavesOfAll_append]
      refine List.mem_append_right _ (List.mem_append_right _ ?_)
      simp [Tree.leavesOfAll, Tree.leaves, Tree.leavesOfAll_append, mem_leavesOfAll held]

/-- New imports in a declaration: it is then read with them and with those that it had. -/
theorem declaration_adds {trees : List Tree}
    (same : declaration.tree = .node .importDeclaration (.leaf .token "import".toList :: trees))
    (shape : ImportShape trees)
    (room : ∀ list ∈ declaration.children, list.isNode .importList → HasRoom list imports.added) :
    ∃ front old back paths, AddsImports (CanAdd imports.added declaration.tree) declaration
      imports.added edit front old back paths := by
  cases shape with
  | single known whole => exact single_adds stands filled plain anchored made same known whole
  | group apart opened laid =>
    exact group_adds stands filled plain anchored made same apart opened laid room

end Edits

end GoGraft
