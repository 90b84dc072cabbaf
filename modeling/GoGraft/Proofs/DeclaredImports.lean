import GoGraft.Proofs.FileEdits

/-! Files with an import declaration, as they are written: the declaration with the new imports, and
the bodies of structs behind it. If imports stand in front of all other code, such a file is read with
the imports that it had and the new ones. -/

namespace GoGraft

open Go (Tree Slot Laid PreambleTree filePaths pass isLegalPath)

/-! ### The front of a file -/

theorem exists_last {α : Type} {keep : α → Bool} {first : α} (own : keep first) (rest : List α) :
    ∃ middle back, rest = middle ++ back ∧ (∀ item ∈ back, keep item = false) ∧
      ∃ init last, first :: middle = init ++ [last] ∧ keep last := by
  induction rest using List.reverseRecOn with
  | nil => exact ⟨[], [], rfl, List.forall_mem_nil _, [], first, rfl, own⟩
  | append_singleton rest item ih =>
    cases kept : keep item with
    | true => exact ⟨rest ++ [item], [], by simp, List.forall_mem_nil _, first :: rest, item, rfl, kept⟩
    | false =>
      obtain ⟨middle, back, rfl, others, last⟩ := ih
      refine ⟨middle, back ++ [item], by simp, ?_, last⟩
      exact List.forall_mem_append.2 ⟨others, List.forall_mem_singleton.2 kept⟩

/-- One item of two lists put together stands behind the first or is in it. -/
theorem exists_of_cons_append {α : Type} {lead tail mark body : List α} {item : α}
    (parts : lead ++ item :: tail = mark ++ body) :
    (∃ front, lead = mark ++ front) ∨ ∃ more, mark = lead ++ item :: more := by
  rcases List.append_eq_append_iff.1 parts with ⟨inner, same, rest⟩ | ⟨inner, same, -⟩
  · cases inner with
    | nil => exact .inl ⟨[], by simpa using same.symm⟩
    | cons first inner =>
      obtain ⟨rfl, -⟩ := List.cons.inj rest
      exact .inr ⟨inner, same⟩
  · exact .inl ⟨inner, same⟩

theorem Laid.last_of_node {Item : Tree → Text → Prop} {slot last : Slot} {trees : List Tree}
    {kind : Go.NodeKind} {children : List Tree} {after : Text}
    (laid : Laid Item slot (trees ++ [.node kind children]) after last) : last = .behind := by
  obtain ⟨_, _, tail⟩ := laid.split
  cases tail with
  | item _ more => cases more; rfl

theorem declaredPaths_of_not {tree : Tree} (other : tree.isNode .importDeclaration = false) :
    tree.declaredPaths = [] := by
  fun_cases Tree.declaredPaths tree with
  | case1 => cases other
  | case2 => rfl

section Parsed

variable {source : Text} {trees : List Tree} (parsed : Go.parse? source = some trees)

/-- A file up to its last import declaration. -/
structure Declared (source : Text) (trees : List Tree) (declaration : Located)
    (front middle back : List Tree) : Prop where
  whole : trees = (Go.takeByteOrderMark source).1 ++ (front ++ declaration.tree :: middle) ++ back
  start : declaration.start =
    Place.after {} (Tree.textOfAll ((Go.takeByteOrderMark source).1 ++ front))
  preamble : ∀ tree ∈ front ++ declaration.tree :: middle, tree.isPreamble
  laid : Laid PreambleTree .before (front ++ declaration.tree :: middle) (Tree.textOfAll back) .behind
  others : back.flatMap Tree.declaredPaths = []

include parsed

theorem exists_declared {declaration : Located}
    (found : (Located.sideBySide {} trees).find? (Located.isNode .importDeclaration) =
      some declaration)
    (ordered : (Located.sideBySide {} trees).Pairwise fun one other =>
      other.isNode .importDeclaration → one.tree.isPreamble) :
    ∃ front middle back, Declared source trees declaration front middle back := by
  obtain ⟨kind, before, behind, split, earlier⟩ := List.find?_eq_some_iff_append.1 found
  obtain ⟨lead, tail, rfl, rfl, located⟩ := Located.sideBySide_eq_append split
  cases tail with
  | nil => cases located
  | cons tree tail =>
    obtain ⟨rfl, -⟩ := List.cons.inj located
    rw [Located.isNode_eq] at kind
    obtain ⟨middle, back, rfl, others, init, last, ends, node⟩ := exists_last kind tail
    obtain ⟨body, parts, read, -⟩ := filePaths_of_parse? parsed
    have trivia := (Go.takeByteOrderMark_taken source).2
    -- The mark is no declaration, so it stands in front.
    obtain ⟨front, rfl⟩ : ∃ front, lead = (Go.takeByteOrderMark source).1 ++ front := by
      refine (exists_of_cons_append parts).resolve_right ?_
      rintro ⟨more, same⟩
      have blank := trivia tree (same ▸ List.mem_append_right _ List.mem_cons_self)
      cases tree with
      | leaf => cases kind
      | node => cases blank
    have body_eq : body = front ++ tree :: middle ++ back := by
      rw [List.append_assoc, List.append_cancel_left_eq] at parts
      rw [← parts]
      simp
    have whole : front ++ tree :: middle = front ++ init ++ [last] := by
      rw [ends, List.append_assoc]
    obtain ⟨children, rfl⟩ : ∃ children, last = .node .importDeclaration children := by
      cases last with
      | leaf => cases node
      | node kind children => exact ⟨children, by rw [eq_of_beq node]⟩
    have preamble : ∀ part ∈ front ++ tree :: middle, part.isPreamble := by
      have pairs : ((Located.sideBySide {} ((Go.takeByteOrderMark source).1 ++ front ++ tree ::
          (middle ++ back))).map Located.tree).Pairwise fun one other =>
            other.isNode .importDeclaration → one.isPreamble := by
        refine List.pairwise_map.2 (ordered.imp fun held node => held ?_)
        rwa [Located.isNode_eq]
      have regroup : (Go.takeByteOrderMark source).1 ++ front ++ tree :: (middle ++ back) =
          (Go.takeByteOrderMark source).1 ++ (front ++ init) ++
            .node .importDeclaration children :: back := by
        have tail := congrArg (· ++ back) ends
        simp only [List.append_assoc, List.cons_append, List.nil_append] at tail
        simp [tail]
      rw [Located.map_tree_sideBySide, regroup] at pairs
      have before := (List.pairwise_append.1 pairs).2.2
      rw [whole]
      refine List.forall_mem_append.2 ⟨fun part held => ?_, List.forall_mem_singleton.2 rfl⟩
      exact before part (List.mem_append_right _ held) _ List.mem_cons_self rfl
    refine ⟨front, middle, back, ?_, rfl, preamble, ?_, ?_⟩
    · simp
    · rw [body_eq] at read
      obtain ⟨slot, laid⟩ := Go.file_laid read preamble
      have behind : slot = .behind := Laid.last_of_node (whole ▸ laid)
      exact behind ▸ laid
    · rw [List.flatMap_eq_nil_iff]
      exact fun tree held => declaredPaths_of_not (others tree held)

end Parsed

namespace Declared

variable {source : Text} {trees front middle back : List Tree} {declaration : Located}
  (declared : Declared source trees declaration front middle back)
  (parsed : Go.parse? source = some trees)
include declared

theorem shape (kind : declaration.isNode .importDeclaration) :
    ∃ trees, declaration.tree = .node .importDeclaration (.leaf .token "import".toList :: trees) ∧
      Go.ImportShape trees := by
  obtain ⟨children, same⟩ := Located.isNode_iff.1 kind
  obtain ⟨_, _, tail⟩ := declared.laid.split
  rw [same] at tail
  cases tail with
  | item item _ =>
    obtain ⟨trees, rfl, shape⟩ := item.shape
    exact ⟨trees, same, shape⟩

theorem front_preamble : ∀ tree ∈ (Go.takeByteOrderMark source).1 ++
    (front ++ declaration.tree :: middle), tree.isPreamble :=
  List.forall_mem_append.2 ⟨fun tree held =>
    Tree.isPreamble_of_isTrivia ((Go.takeByteOrderMark_taken source).2 tree held), declared.preamble⟩

theorem offset_eq : declaration.start.offset =
    (Tree.textOfAll ((Go.takeByteOrderMark source).1 ++ front)).length := by
  rw [declared.start, Place.offset_after]
  exact Nat.zero_add _

theorem length_front : (Tree.textOfAll ((Go.takeByteOrderMark source).1 ++
    (front ++ declaration.tree :: middle))).length = declaration.start.offset +
      declaration.text.length + (Tree.textOfAll middle).length := by
  rw [declared.offset_eq]
  simp only [Tree.textOfAll_append, Tree.textOfAll, List.length_append, Located.text]
  omega

theorem paths_eq : trees.flatMap Tree.declaredPaths =
    front.flatMap Tree.declaredPaths ++ (declaration.tree.declaredPaths ++
      middle.flatMap Tree.declaredPaths) := by
  rw [declared.whole, List.flatMap_append, List.flatMap_append, declaredPaths_mark, declared.others]
  simp

include parsed

theorem text_eq : (Go.takeByteOrderMark source).2 =
    Tree.textOfAll (front ++ declaration.tree :: middle) ++ Tree.textOfAll back := by
  have spelled := (Go.parse?_spelled parsed).trans (Go.takeByteOrderMark_taken source).1.symm
  rw [declared.whole, List.append_assoc, Tree.textOfAll_append, List.append_cancel_left_eq,
    Tree.textOfAll_append] at spelled
  exact spelled.symm

theorem source_eq : source = Tree.textOfAll ((Go.takeByteOrderMark source).1 ++ front) ++
    declaration.text ++ (Tree.textOfAll middle ++ Tree.textOfAll back) := by
  refine (Go.parse?_spelled parsed).symm.trans ?_
  rw [declared.whole]
  simp [Tree.textOfAll_append, Tree.textOfAll, Located.text]

/-- A file whose front is kept is read on from there. -/
theorem kept_reads {rest : Text} (head : rest.head? = (Tree.textOfAll back).head?) :
    filePaths .before (Go.takeByteOrderMark (Tree.textOfAll ((Go.takeByteOrderMark source).1 ++
      (front ++ declaration.tree :: middle)) ++ rest)).2 = (filePaths .behind rest).map
        fun (more, left) => (trees.flatMap Tree.declaredPaths ++ more, left) := by
  have starts : (Tree.textOfAll (front ++ declaration.tree :: middle) ++ rest).head? =
      (Go.takeByteOrderMark source).2.head? := by
    rw [declared.text_eq parsed]
    cases Tree.textOfAll (front ++ declaration.tree :: middle) with
    | nil => exact head
    | cons => rfl
  obtain ⟨left, passed, read⟩ := filePaths_kept declared.laid head
  rw [Tree.textOfAll_append, List.append_assoc, takeByteOrderMark_eq starts, read,
    filePaths_behind_eq passed, declared.paths_eq]
  simp

end Declared

/-! ### Edits in their order -/

section Placed

variable {source : Text} {trees : List Tree} {file : SourceFile}
  (placed : file.Placed source trees)
include placed

/-- The bodies of structs come behind the trees at the front of a file. -/
theorem bodyEdit_behind {front back : List Tree} (whole : trees = front ++ back)
    (preamble : ∀ tree ∈ front, tree.isPreamble) {struct : StructDeclaration}
    (inside : struct ∈ file.structs) :
    (Tree.textOfAll front).length < (struct.bodyEdit source).span.start := by
  obtain ⟨_, declaration, root, kind, start, _⟩ := placed.stand struct inside
  obtain ⟨first, _, _⟩ := placed.bodyEdit_span inside
  rw [whole, Located.sideBySide_append] at root
  rcases List.mem_append.1 root with early | later
  · have own := preamble _ (Located.tree_mem_of_mem_sideBySide early)
    obtain ⟨children, same⟩ := Located.isNode_iff.1 kind
    rw [same] at own
    cases own
  · have bounds := (Located.bounds_of_mem_sideBySide later).1
    simp only [Place.offset_after, StructBody.places] at bounds start
    omega

/-- With the imports in front, the edits of a file are sorted as they are. -/
theorem sortBy_edits {place : Nat}
    (imports : ∀ edit ∈ file.imports.edit? source,
      edit.span.start ≤ edit.span.stop ∧ edit.span.stop ≤ place)
    (bodies : ∀ struct ∈ file.structs, place < (struct.bodyEdit source).span.start) :
    sortBy Edit.before file.edits = (file.imports.edit? source).toList ++
      (file.structs.filter (·.changed)).map (StructDeclaration.bodyEdit source) := by
  have edits : file.edits = (file.imports.edit? source).toList ++
      (file.structs.filter (·.changed)).map (StructDeclaration.bodyEdit source) := by
    rw [SourceFile.edits, placed.source_eq]
  rw [edits]
  apply sortBy_eq_self
  refine List.pairwise_append.2 ⟨pairwise_toList _ _, ?_, ?_⟩
  · refine List.pairwise_map.2 ((placed.ordered.filter _).imp_of_mem ?_)
    intro one other first second before
    have oneSpan := placed.bodyEdit_span (List.mem_filter.1 first).1
    have otherSpan := placed.bodyEdit_span (List.mem_filter.1 second).1
    simp only [StructBody.places] at before
    rw [Edit.before_iff]
    omega
  · intro edit held body among
    obtain ⟨struct, inside, rfl⟩ := List.mem_map.1 among
    have span := imports edit (Option.mem_toList.1 held)
    have start := bodies struct (List.mem_filter.1 inside).1
    rw [Edit.before_iff]
    omega

end Placed

/-! ### Written files -/

/-- A source with the bodies of changed structs written, and without new imports. -/
def SourceFile.Rewrites (file : SourceFile) (source out : Text) : Prop :=
  Edit.Spliced 0 source ((file.structs.filter (·.changed)).map (StructDeclaration.bodyEdit source)) out

/-- Where only bodies are written behind a place, that is all that is written there. -/
theorem bodies_spliced {file : SourceFile} {source ahead behind rest : Text} {place : Nat}
    (spliced : Edit.Spliced place behind
      ((file.structs.filter (·.changed)).map (StructDeclaration.bodyEdit source)) rest)
    (whole : source = ahead ++ behind) (length : ahead.length = place)
    (bodies : ∀ struct ∈ file.structs, place < (struct.bodyEdit source).span.start) :
    rest.head? = behind.head? ∧ ∀ bare, file.Rewrites source bare → bare = ahead ++ rest := by
  have later : ∀ edit ∈ (file.structs.filter (·.changed)).map (StructDeclaration.bodyEdit source),
      place < edit.span.start := by
    rw [List.forall_mem_map]
    exact fun struct held => bodies struct (List.mem_filter.1 held).1
  refine ⟨spliced.head?_eq later, fun bare rewrites => ?_⟩
  obtain ⟨other, rfl, also⟩ := Edit.Spliced.behind rewrites whole fun edit held => by
    rw [Nat.zero_add, length]
    exact (later edit held).le
  rw [Nat.zero_add, length] at also
  rw [spliced.unique also]

/-- A file is read with some imports first, and then from `rest` on. If it is not `sure`, it may be
no file. -/
def ReadsAs (sure : Prop) (out : Text) (paths : List Text) (rest : Text) : Prop :=
  filePaths .before (Go.takeByteOrderMark out).2 = (filePaths .behind rest).map
      (fun (more, left) => (paths ++ more, left)) ∨
    filePaths .before (Go.takeByteOrderMark out).2 = none ∧ ¬ sure

section Written

variable {source out : Text} {trees : List Tree} {file : SourceFile}
  (placed : file.Placed source trees) (parsed : Go.parse? source = some trees)
  (made : Edit.applyAll source file.edits = .ok out)
  (plain : ∀ path ∈ file.imports.added, ∀ c ∈ path, c ≠ '\x22')
include placed parsed made plain

section Declared

variable {declaration : Located} {front middle back : List Tree}
  (found : (Located.sideBySide {} trees).find? (Located.isNode .importDeclaration) =
    some declaration)
  (declared : Declared source trees declaration front middle back)
  (room : file.imports.added ≠ [] → ∀ list ∈ declaration.children, list.isNode .importList →
    HasRoom list file.imports.added)
include found declared room

omit made in
theorem exists_declares {edit : Edit} (some_edit : file.imports.edit? source = some edit) :
    ∃ front old back paths, AddsImports (CanAdd file.imports.added declaration.tree) declaration
      file.imports.added edit front old back paths := by
  have part := Located.partOf_roots parsed declaration (List.mem_of_find?_eq_some found)
  have anchored := anchor_ofRoots parsed
  rw [found, ← placed.anchor_eq] at anchored
  have filled : file.imports.added ≠ [] := by
    rw [← isSome_edit? source, some_edit]
    rfl
  obtain ⟨trees, same, shape⟩ := declared.shape (List.find?_some found)
  exact declaration_adds part.stands filled plain anchored some_edit same shape (room filled)

/-- What is written: the declaration with the new imports, and the bodies behind it. -/
theorem declared_out : ∃ written rest,
    out = Tree.textOfAll ((Go.takeByteOrderMark source).1 ++ front) ++
      (written ++ (Tree.textOfAll middle ++ rest)) ∧
    rest.head? = (Tree.textOfAll back).head? ∧
    (∀ bare, file.Rewrites source bare → bare = Tree.textOfAll ((Go.takeByteOrderMark source).1 ++
      (front ++ declaration.tree :: middle)) ++ rest) ∧
    (file.imports.added = [] ∧ written = declaration.text ∨
      ∃ paths, declaration.tree.declaredPaths ⊆ paths ∧ file.imports.added ⊆ paths ∧
        Declares (CanAdd file.imports.added declaration.tree) written paths) := by
  have part := Located.partOf_roots parsed declaration (List.mem_of_find?_eq_some found)
  have bodies (struct : StructDeclaration) (inside : struct ∈ file.structs) :
      (Tree.textOfAll ((Go.takeByteOrderMark source).1 ++ (front ++ declaration.tree :: middle))).length <
        (struct.bodyEdit source).span.start :=
    bodyEdit_behind placed declared.whole declared.front_preamble inside
  have length := declared.length_front
  have later : ∀ edit ∈ (file.structs.filter (·.changed)).map (StructDeclaration.bodyEdit source),
      declaration.start.offset + declaration.text.length + (Tree.textOfAll middle).length ≤
        edit.span.start := by
    rw [List.forall_mem_map, ← length]
    exact fun struct held => (bodies struct (List.mem_filter.1 held).1).le
  have whole : source = Tree.textOfAll ((Go.takeByteOrderMark source).1 ++
      (front ++ declaration.tree :: middle)) ++ Tree.textOfAll back := by
    refine (Go.parse?_spelled parsed).symm.trans ?_
    rw [declared.whole, Tree.textOfAll_append]
  have stop := part.stands.stop_eq
  have sorted := sortBy_edits placed (fun edit some_edit => ?_) bodies
  · have spliced := Edit.applyAll_spliced (placed.edits_inside parsed) made
    rw [sorted] at spliced
    have offset := declared.offset_eq
    have source_eq := declared.source_eq parsed
    cases some_edit : file.imports.edit? source with
    | none =>
      rw [some_edit, Option.toList_none, List.nil_append] at spliced
      obtain ⟨rest, rfl, behind⟩ := spliced.behind whole (by rwa [Nat.zero_add, length])
      obtain ⟨head, only⟩ := bodies_spliced behind whole (Nat.zero_add _).symm
        (by simpa only [Nat.zero_add] using bodies)
      have nothing : file.imports.added = [] := by
        by_contra filled
        have offered := (isSome_edit? source file.imports).2 filled
        rw [some_edit] at offered
        cases offered
      refine ⟨declaration.text, rest, ?_, head, only, .inl ⟨nothing, rfl⟩⟩
      simp [Tree.textOfAll_append, Tree.textOfAll, Located.text]
    | some edit =>
      obtain ⟨lead, old, tail, paths, cuts, kept, held, declares⟩ :=
        exists_declares placed parsed plain found declared room some_edit
      rw [some_edit, Option.toList_some, List.singleton_append] at spliced
      have parts : source = Tree.textOfAll ((Go.takeByteOrderMark source).1 ++ front) ++ lead ++ old ++
          (tail ++ Tree.textOfAll middle ++ Tree.textOfAll back) := by
        refine source_eq.trans ?_
        rw [cuts.whole]
        simp
      have first : edit.span.start =
          0 + (Tree.textOfAll ((Go.takeByteOrderMark source).1 ++ front) ++ lead).length := by
        rw [cuts.start, offset, List.length_append, Nat.zero_add]
      have size : edit.span.stop + (tail ++ Tree.textOfAll middle).length =
          declaration.start.offset + declaration.text.length + (Tree.textOfAll middle).length := by
        have whole := congrArg List.length cuts.whole
        have start := cuts.start
        have stop := cuts.stop
        simp only [List.length_append] at whole ⊢
        omega
      obtain ⟨out, rfl, later_out⟩ := spliced.first parts first cuts.stop
      obtain ⟨rest, rfl, behind⟩ := later_out.behind rfl (size ▸ later)
      obtain ⟨head, only⟩ := bodies_spliced behind whole (length.trans size.symm)
        (by simpa only [size, length] using bodies)
      refine ⟨lead ++ edit.text ++ tail, rest, by simp, head, only, .inr ?_⟩
      exact ⟨paths, kept, held, declares⟩
  · have inside := importEdit_inside parsed placed.anchor_eq some_edit
    rw [importRange, found] at inside
    simp only [Span.Inside, Located.span] at inside
    exact ⟨inside.2.1, by omega⟩

/-- What is read from a file with an import declaration. Behind the declarations it is read as it
would be without new imports. -/
theorem declared_reads :
    ∃ paths rest, trees.flatMap Tree.declaredPaths ⊆ paths ∧ file.imports.added ⊆ paths ∧
      ReadsAs (CanAdd file.imports.added declaration.tree) out paths rest ∧
      ∀ bare, file.Rewrites source bare →
        ((Go.parse? bare).isSome ↔ (filePaths .behind rest).isSome) := by
  obtain ⟨written, rest, rfl, head, only, either⟩ :=
    declared_out placed parsed made plain found declared room
  have kept := declared.kept_reads parsed head
  have alike (bare : Text) (rewrites : file.Rewrites source bare) :
      (Go.parse? bare).isSome ↔ (filePaths .behind rest).isSome := by
    rw [only bare rewrites, parse?_isSome_iff, kept, Option.isSome_map]
  rcases either with ⟨nothing, rfl⟩ | ⟨paths, kept, held, declares⟩
  · have spelled : Tree.textOfAll ((Go.takeByteOrderMark source).1 ++ front) ++
        (declaration.text ++ (Tree.textOfAll middle ++ rest)) =
          Tree.textOfAll ((Go.takeByteOrderMark source).1 ++
            (front ++ declaration.tree :: middle)) ++ rest := by
      simp [Tree.textOfAll_append, Tree.textOfAll, Located.text]
    refine ⟨_, rest, List.Subset.refl _, nothing ▸ List.nil_subset _, .inl ?_, alike⟩
    rw [spelled, kept]
  · obtain ⟨trees, node, _⟩ := declared.shape (List.find?_some found)
    have laid := declared.laid
    rw [node] at laid
    have starts : (Tree.textOfAll front ++ (written ++ (Tree.textOfAll middle ++ rest))).head? =
        (Go.takeByteOrderMark source).2.head? := by
      obtain ⟨c, more, rfl, _⟩ := declares.opens
      rw [declared.text_eq parsed, Tree.textOfAll_append, node]
      cases Tree.textOfAll front <;> rfl
    obtain ⟨left, passed, read⟩ := filePaths_edited laid declares head
    refine ⟨front.flatMap Tree.declaredPaths ++ (paths ++ middle.flatMap Tree.declaredPaths), rest,
      ?_, ?_, ?_, alike⟩
    · rw [declared.paths_eq]
      intro path inside
      simp only [List.mem_append] at inside ⊢
      exact inside.imp_right (Or.imp_left fun own => kept own)
    · intro path inside
      simp only [List.mem_append]
      exact .inr (.inl (held inside))
    · rw [ReadsAs, Tree.textOfAll_append, List.append_assoc, takeByteOrderMark_eq starts]
      refine read.imp_left fun read => ?_
      rw [read, filePaths_behind_eq passed]
      simp

end Declared

end Written

end GoGraft
