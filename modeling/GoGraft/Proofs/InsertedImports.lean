import GoGraft.Proofs.DeclaredImports

/-! Files without an import declaration, as they are written: a declaration is put at the end of the
line of the package clause, or at the start of the file. If only preamble trees stand in front of it,
such a file is read with the new imports. -/

namespace GoGraft

open Go (Tree Slot Laid PreambleTree filePaths pass isLegalPath)

/-! ### The front of a line -/

/-- A place inside a text or at its end, by the trees in front of it and the tree that reaches it. -/
theorem exists_across {trees : List Tree} {place : Nat} (positive : 0 < place)
    (bound : place ≤ (Tree.textOfAll trees).length) :
    ∃ init last back, trees = init ++ last :: back ∧ (Tree.textOfAll init).length < place ∧
      place ≤ (Tree.textOfAll init).length + last.text.length := by
  induction trees generalizing place with
  | nil =>
    rw [Tree.textOfAll, List.length_nil] at bound
    omega
  | cons tree rest ih =>
    rw [Tree.textOfAll, List.length_append] at bound
    by_cases here : place ≤ tree.text.length
    · exact ⟨[], tree, rest, rfl, positive, by simpa [Tree.textOfAll] using here⟩
    · obtain ⟨init, last, back, rfl, start, stop⟩ :=
        @ih (place - tree.text.length) (by omega) (by omega)
      refine ⟨tree :: init, last, back, rfl, ?_, ?_⟩ <;>
        (rw [Tree.textOfAll, List.length_append]; omega)

def Located.isLeaf (kind : Go.LeafKind) (located : Located) : Bool :=
  match located.tree with
  | .leaf other _ => other == kind
  | .node _ _ => false

/-- Only preamble trees stand in front of a place, and no tree goes over it but for blanks. -/
def FreePlace (roots : List Located) (place : Nat) : Prop :=
  ∀ root ∈ roots, root.start.offset < place →
    root.tree.isPreamble ∧ (root.isLeaf .blank ∨ root.stop.offset ≤ place)

instance (roots : List Located) (place : Nat) : Decidable (FreePlace roots place) :=
  inferInstanceAs (Decidable (∀ root ∈ roots, _))

/-- The package clause ends in front of a place, on the line that the place is on, and is the only code
in front of it. -/
def CalmPlace (roots : List Located) (place : Nat) : Prop :=
  (∃ root ∈ roots, root.start.offset < place ∧ root.isNode .package) ∧
    ∀ root ∈ roots, root.start.offset < place → root.isLeaf .terminator = false

instance (roots : List Located) (place : Nat) : Decidable (CalmPlace roots place) :=
  inferInstanceAs (Decidable (_ ∧ _))

section Parsed

variable {source : Text} {trees : List Tree} (parsed : Go.parse? source = some trees) {place : Nat}

/-- The preamble up to a place, with what comes behind it. -/
structure PreambleUpTo (source : Text) (trees : List Tree) (place : Nat) (front : List Tree)
    (slot : Slot) : Prop where
  laid : Laid PreambleTree .before front (source.drop place) slot
  spelled : Tree.textOfAll (Go.takeByteOrderMark source).1 ++ Tree.textOfAll front = source.take place
  filled : Tree.textOfAll front ≠ []
  code : ∀ tree : Tree, tree.isTrivia = false → (tree ∈ front ↔
    ∃ root ∈ Located.sideBySide {} trees, root.start.offset < place ∧ root.tree = tree)

theorem PreambleUpTo.text_eq {front : List Tree} {slot : Slot}
    (upTo : PreambleUpTo source trees place front slot) :
    (Go.takeByteOrderMark source).2 = Tree.textOfAll front ++ source.drop place := by
  have whole := (Go.takeByteOrderMark_taken source).1.trans (List.take_append_drop place source).symm
  rw [← upTo.spelled, List.append_assoc, List.append_cancel_left_eq] at whole
  exact whole

/-- A preamble whose last tree is blank may stop anywhere in that tree. -/
theorem Laid.cut_blank {Item : Tree → Text → Prop} {slot last : Slot} {trees : List Tree}
    {text more after : Text} (laid : Laid Item slot (trees ++ [.leaf .blank (text ++ more)]) after last) :
    ∃ other, Laid Item slot (trees ++ [.leaf .blank text]) (more ++ after) other := by
  obtain ⟨middle, first, second⟩ := laid.split
  cases second with
  | blank blank _ =>
    refine ⟨middle, Laid.append ?_ (.blank (fun c held => blank c (List.mem_append_left _ held)) .nil)⟩
    simpa [Tree.textOfAll, Tree.text] using first

/-- Behind an item and without a terminator, what comes is behind an item. -/
theorem Laid.ends_behind {Item : Tree → Text → Prop} {slot last : Slot} {trees : List Tree}
    {after : Text} (laid : Laid Item slot trees after last)
    (calm : ∀ tree ∈ trees, ∀ text, tree ≠ .leaf .terminator text)
    (item : slot = .behind ∨ ∃ kind children, Go.Tree.node kind children ∈ trees) : last = .behind := by
  induction laid with
  | nil =>
    rcases item with behind | ⟨kind, children, held⟩
    · exact behind
    · cases held
  | blank _ _ ih =>
    apply ih (List.forall_mem_cons.1 calm).2
    refine item.imp_right fun ⟨kind, children, held⟩ => ⟨kind, children, ?_⟩
    exact (List.mem_cons.1 held).resolve_left (fun same => nomatch same)
  | comment _ _ ih =>
    apply ih (List.forall_mem_cons.1 calm).2
    refine item.imp_right fun ⟨kind, children, held⟩ => ⟨kind, children, ?_⟩
    exact (List.mem_cons.1 held).resolve_left (fun same => nomatch same)
  | terminator => exact absurd rfl ((List.forall_mem_cons.1 calm).1 _)
  | item _ _ ih => exact ih (List.forall_mem_cons.1 calm).2 (.inl rfl)

namespace PreambleUpTo

variable {front : List Tree} {slot : Slot} (upTo : PreambleUpTo source trees place front slot)
include upTo

/-- The mark is taken from a text with the same front, whatever comes behind. -/
theorem mark_eq (behind : Text) : Go.takeByteOrderMark (source.take place ++ behind) =
    ((Go.takeByteOrderMark source).1, Tree.textOfAll front ++ behind) := by
  rw [← upTo.spelled, List.append_assoc, takeByteOrderMark_eq]
  rw [upTo.text_eq]
  obtain ⟨c, more, starts⟩ := List.exists_cons_of_ne_nil upTo.filled
  rw [starts]
  rfl

/-- A declaration on a line of its own behind the preamble is read. -/
theorem reads_added {sure : Prop} {written : Text} {paths : List Text}
    (declares : Declares sure written paths) (rest : Text) :
    ReadsAs sure (source.take place ++ ("\n\n".toList ++ written ++ rest))
      (front.flatMap Tree.declaredPaths ++ paths) rest := by
  rw [ReadsAs, upTo.mark_eq]
  simp only [List.append_assoc]
  exact filePaths_added upTo.laid declares rest

theorem ends_behind (calm : CalmPlace (Located.sideBySide {} trees) place) : slot = .behind := by
  obtain ⟨⟨root, among, before, kind⟩, quiet⟩ := calm
  apply Laid.ends_behind upTo.laid
  · rintro tree held text rfl
    obtain ⟨other, inside, early, same⟩ := (upTo.code _ rfl).1 held
    have leaf := quiet other inside early
    rw [Located.isLeaf, same] at leaf
    cases leaf
  · obtain ⟨children, same⟩ := Located.isNode_iff.1 kind
    exact .inr ⟨_, children, (upTo.code _ rfl).2 ⟨root, among, before, same⟩⟩

/-- Behind the package clause a file is read on with the line that the place is on. -/
theorem reads_kept (calm : CalmPlace (Located.sideBySide {} trees) place) {rest : Text}
    (head : rest.head? = (source.drop place).head?) :
    (Go.parse? (source.take place ++ rest)).isSome ↔ (filePaths .behind rest).isSome := by
  obtain ⟨left, passed, kept⟩ := filePaths_kept upTo.laid head
  rw [upTo.ends_behind calm] at kept passed
  rw [parse?_isSome_iff, upTo.mark_eq, kept, Option.isSome_map, filePaths_behind_eq passed]

end PreambleUpTo

/-- The trees that start before a place, from the tree that reaches it. -/
structure Across (roots : List Located) (place : Nat) (init : List Tree) (last : Tree) : Prop where
  earlier : ∀ tree ∈ init, ∃ root ∈ roots, root.start.offset < place ∧ root.tree = tree
  here : ∃ root ∈ roots, root.start.offset < place ∧ root.tree = last ∧
    root.stop.offset = (Tree.textOfAll init).length + last.text.length
  only : ∀ root ∈ roots, root.start.offset < place → root.tree ∈ init ∨ root.tree = last

theorem across {init back : List Tree} {last : Tree} (start : (Tree.textOfAll init).length < place)
    (stop : place ≤ (Tree.textOfAll init).length + last.text.length) :
    Across (Located.sideBySide {} (init ++ last :: back)) place init last := by
  rw [Located.sideBySide_append]
  refine ⟨fun tree inside => ?_, ?_, fun root inside before => ?_⟩
  · obtain ⟨root, held, same⟩ := Located.exists_of_mem {} inside
    have bounds := Located.bounds_of_mem_sideBySide held
    refine ⟨root, List.mem_append_left _ held, ?_, same⟩
    simp only at bounds
    omega
  · refine ⟨_, List.mem_append_right _ List.mem_cons_self, ?_, rfl, ?_⟩
    · simpa [Place.after] using start
    · simp [Place.after]
  · rcases List.mem_append.1 inside with early | later
    · exact .inl (Located.tree_mem_of_mem_sideBySide early)
    · rcases List.mem_cons.1 later with rfl | beyond
      · exact .inr rfl
      · have bounds := (Located.bounds_of_mem_sideBySide beyond).1
        simp only [Place.offset_after] at bounds
        omega

/-- The tree that reaches a place behind the mark, with the trees in front of it and behind it. -/
structure Reaches (source : Text) (trees : List Tree) (place : Nat) (inner : List Tree) (last : Tree)
    (back : List Tree) : Prop where
  whole : trees = (Go.takeByteOrderMark source).1 ++ inner ++ last :: back
  spelled : Tree.textOfAll (Go.takeByteOrderMark source).1 ++ Tree.textOfAll inner ++ last.text ++
    Tree.textOfAll back = source
  start : (Tree.textOfAll ((Go.takeByteOrderMark source).1 ++ inner)).length < place
  stop : place ≤ (Tree.textOfAll ((Go.takeByteOrderMark source).1 ++ inner)).length + last.text.length

include parsed in
theorem exists_reaches (behind : (Tree.textOfAll (Go.takeByteOrderMark source).1).length < place)
    (bound : place ≤ source.length) : ∃ inner last back, Reaches source trees place inner last back := by
  have spelled := Go.parse?_spelled parsed
  obtain ⟨init, last, back, rfl, start, stop⟩ :=
    @exists_across trees place (by omega) (spelled ▸ bound)
  obtain ⟨body, parts, -, -⟩ := filePaths_of_parse? parsed
  -- The mark ends in front of the place, so it is no part of the last tree.
  obtain ⟨inner, rfl⟩ : ∃ inner, init = (Go.takeByteOrderMark source).1 ++ inner := by
    refine (exists_of_cons_append parts).resolve_right ?_
    rintro ⟨more, same⟩
    rw [same, Tree.textOfAll_append, Tree.textOfAll, List.length_append, List.length_append] at behind
    omega
  refine ⟨inner, last, back, rfl, Eq.trans ?_ spelled, start, stop⟩
  simp [Tree.textOfAll, Tree.textOfAll_append]

namespace Reaches

variable {inner back : List Tree} {last : Tree} (reaches : Reaches source trees place inner last back)
include reaches

/-- But for trivia, the trees that start in front of the place are those up to the last one. -/
theorem mem_iff {tree : Tree} (solid : tree.isTrivia = false) : tree ∈ inner ++ [last] ↔
    ∃ root ∈ Located.sideBySide {} trees, root.start.offset < place ∧ root.tree = tree := by
  obtain ⟨earlier, ⟨root, among, before, own, -⟩, only⟩ := @across _ _ back _ reaches.start reaches.stop
  rw [← reaches.whole] at earlier among only
  rw [List.mem_append, List.mem_singleton]
  constructor
  · rintro (held | rfl)
    · exact earlier tree (List.mem_append_right _ held)
    · exact ⟨root, among, before, own⟩
  · rintro ⟨other, inside, early, rfl⟩
    rcases only other inside early with held | same
    · rcases List.mem_append.1 held with blank | held
      · rw [(Go.takeByteOrderMark_taken source).2 _ blank] at solid
        cases solid
      · exact .inl held
    · exact .inr same

/-- Up to a free place there is only preamble, and the last tree is blank or ends there. -/
theorem of_free (free : FreePlace (Located.sideBySide {} trees) place) :
    (∀ tree ∈ inner ++ [last], tree.isPreamble) ∧ ((∃ text, last = .leaf .blank text) ∨ place =
      (Tree.textOfAll ((Go.takeByteOrderMark source).1 ++ inner)).length + last.text.length) := by
  obtain ⟨earlier, ⟨root, among, before, rfl, ending⟩, -⟩ :=
    @across _ _ back _ reaches.start reaches.stop
  rw [← reaches.whole] at earlier among
  obtain ⟨preamble, reach⟩ := free root among before
  constructor
  · refine List.forall_mem_append.2 ⟨fun tree held => ?_, List.forall_mem_singleton.2 preamble⟩
    obtain ⟨other, inside, early, rfl⟩ := earlier tree (List.mem_append_right _ held)
    exact (free other inside early).1
  · rcases reach with blank | inside
    · left
      rw [Located.isLeaf] at blank
      cases leaf : root.tree with
      | leaf kind text =>
        rw [leaf] at blank
        exact ⟨text, by rw [eq_of_beq blank]⟩
      | node =>
        rw [leaf] at blank
        cases blank
    · right
      have stop := reaches.stop
      omega

/-- A preamble whose code is that up to the place and whose text ends there. -/
theorem upTo {front : List Tree} {slot : Slot} {after : Text}
    (laid : Laid PreambleTree .before front after slot)
    (whole : source = Tree.textOfAll (Go.takeByteOrderMark source).1 ++ Tree.textOfAll front ++ after)
    (length : place =
      (Tree.textOfAll (Go.takeByteOrderMark source).1 ++ Tree.textOfAll front).length)
    (same : ∀ tree : Tree, tree.isTrivia = false → (tree ∈ front ↔ tree ∈ inner ++ [last])) :
    PreambleUpTo source trees place front slot := by
  refine ⟨?_, ?_, fun none => ?_, fun tree solid => (same tree solid).trans (reaches.mem_iff solid)⟩
  · rwa [(congrArg (List.drop place) whole).trans (List.drop_left' length.symm)]
  · exact ((congrArg (List.take place) whole).trans (List.take_left' length.symm)).symm
  · have start := reaches.start
    rw [Tree.textOfAll_append, List.length_append] at start
    rw [none, List.append_nil] at length
    omega

end Reaches

include parsed

/-- The preamble up to a free place behind the mark. -/
theorem exists_preambleUpTo
    (behind : (Tree.textOfAll (Go.takeByteOrderMark source).1).length < place)
    (bound : place ≤ source.length) (free : FreePlace (Located.sideBySide {} trees) place) :
    ∃ front slot, PreambleUpTo source trees place front slot := by
  obtain ⟨inner, last, back, reaches⟩ := exists_reaches parsed behind bound
  obtain ⟨preamble, reach⟩ := reaches.of_free free
  have spelled := reaches.spelled.symm
  obtain ⟨slot, laid⟩ : ∃ slot,
      Laid PreambleTree .before (inner ++ [last]) (Tree.textOfAll back) slot := by
    obtain ⟨body, parts, read, -⟩ := filePaths_of_parse? parsed
    have body_eq : body = inner ++ [last] ++ back := by
      rw [reaches.whole, List.append_assoc, List.append_cancel_left_eq] at parts
      simpa using parts.symm
    exact Go.file_laid (body_eq ▸ read) preamble
  rcases reach with ⟨text, rfl⟩ | inside
  · -- The blank may go over the place and is cut there.
    have start := reaches.start
    have stop := reaches.stop
    rw [Tree.textOfAll_append, List.length_append, Tree.text] at stop
    rw [Tree.textOfAll_append, List.length_append] at start
    obtain ⟨here, beyond, rfl, length⟩ : ∃ here beyond, text = here ++ beyond ∧ place =
        (Tree.textOfAll (Go.takeByteOrderMark source).1).length + (Tree.textOfAll inner).length +
          here.length := by
      refine ⟨text.take (place - ((Tree.textOfAll (Go.takeByteOrderMark source).1).length +
        (Tree.textOfAll inner).length)), text.drop _, (List.take_append_drop _ _).symm, ?_⟩
      rw [List.length_take_of_le (by omega)]
      omega
    obtain ⟨other, cut⟩ := Laid.cut_blank laid
    refine ⟨_, other, reaches.upTo cut (spelled.trans ?_) (length.trans ?_) fun tree solid => ?_⟩
    · simp [Tree.textOfAll, Tree.textOfAll_append, Tree.text]
    · simp [Tree.textOfAll, Tree.textOfAll_append, Tree.text, Nat.add_assoc]
    · have apart (text : Text) : tree ≠ .leaf .blank text := by
        rintro rfl
        cases solid
      simp [apart]
  · refine ⟨_, slot, reaches.upTo laid (spelled.trans ?_) (inside.trans ?_) fun tree _ => Iff.rfl⟩
    · simp [Tree.textOfAll, Tree.textOfAll_append]
    · simp [Tree.textOfAll, Tree.textOfAll_append, Nat.add_assoc]

end Parsed

/-! ### Written files -/

section Written

variable {source out : Text} {trees : List Tree} {file : SourceFile}
  (placed : file.Placed source trees) {place : Nat}
  (free : FreePlace (Located.sideBySide {} trees) place)
include placed free

/-- The bodies of structs come behind a free place. -/
theorem FreePlace.bodies {struct : StructDeclaration} (inside : struct ∈ file.structs) :
    place < (struct.bodyEdit source).span.start := by
  obtain ⟨_, declaration, root, kind, start, _⟩ := placed.stand struct inside
  obtain ⟨first, _, _⟩ := placed.bodyEdit_span inside
  have behind : place ≤ declaration.start.offset := by
    by_contra before
    have own := (free declaration root (by omega)).1
    obtain ⟨children, same⟩ := Located.isNode_iff.1 kind
    rw [same] at own
    cases own
  simp only [StructBody.places] at start
  omega

variable (parsed : Go.parse? source = some trees)
  (made : Edit.applyAll source file.edits = .ok out) (bound : place ≤ source.length)
  (anchored : file.imports.anchor = .absent place) (filled : file.imports.added ≠ [])
include parsed made bound anchored filled

/-- What is written: the new declaration at its place, and the bodies behind it. -/
theorem inserted_out : ∃ rest,
    out = source.take place ++ ((if place = 0 then
      ImportEntry.renderGroup (file.imports.added.map ImportEntry.ofPath) ++ "\n\n".toList
      else "\n\n".toList ++ ImportEntry.renderGroup (file.imports.added.map ImportEntry.ofPath)) ++ rest) ∧
    rest.head? = (source.drop place).head? ∧
    ∀ bare, file.Rewrites source bare → bare = source.take place ++ rest := by
  have some_edit : file.imports.edit? source = some ⟨⟨place, place⟩, if place = 0 then
      ImportEntry.renderGroup (file.imports.added.map ImportEntry.ofPath) ++ "\n\n".toList
      else "\n\n".toList ++
        ImportEntry.renderGroup (file.imports.added.map ImportEntry.ofPath)⟩ := by
    rw [ImportSection.edit?, anchored]
    exact if_neg (by simpa using filled)
  have bodies : ∀ struct ∈ file.structs, place < (struct.bodyEdit source).span.start :=
    fun struct inside => free.bodies placed inside
  have length : (source.take place).length = place := List.length_take_of_le bound
  have sorted := sortBy_edits placed (fun edit held => ?_) bodies
  · have spliced := Edit.applyAll_spliced (placed.edits_inside parsed) made
    rw [sorted, some_edit, Option.toList_some, List.singleton_append] at spliced
    have whole : source = source.take place ++ [] ++ source.drop place := by
      rw [List.append_nil, List.take_append_drop]
    obtain ⟨rest, rfl, behind⟩ := spliced.first whole (by rw [length, Nat.zero_add]) rfl
    obtain ⟨head, only⟩ := bodies_spliced behind (List.take_append_drop place source).symm length
      bodies
    exact ⟨rest, by simp, head, only⟩
  · rw [some_edit] at held
    cases held
    exact ⟨Nat.le_refl _, Nat.le_refl _⟩

/-- What is read from a file that got its first import declaration. If that comes right behind the
package clause, the file is read on as it would be without new imports. -/
theorem inserted_reads (plain : ∀ path ∈ file.imports.added, ∀ c ∈ path, c ≠ '\x22')
    (behind : 0 < place → (Tree.textOfAll (Go.takeByteOrderMark source).1).length < place) :
    ∃ paths rest, file.imports.added ⊆ paths ∧
      ReadsAs (∀ path ∈ file.imports.added, isLegalPath path) out paths rest ∧
      (CalmPlace (Located.sideBySide {} trees) place → ∀ bare, file.Rewrites source bare →
        ((Go.parse? bare).isSome ↔ (filePaths .behind rest).isSome)) := by
  obtain ⟨rest, rfl, head, only⟩ := inserted_out placed free parsed made bound anchored filled
  have entries : file.imports.added.map ImportEntry.ofPath ≠ [] := by simpa using filled
  have declares := declares_renderGroup (isLine_added plain) entries
  have added : file.imports.added ⊆ (sortBy ImportEntry.before
      (file.imports.added.map ImportEntry.ofPath)).map ImportEntry.path := by
    intro path held
    rwa [mem_sorted_paths, paths_added]
  generalize ImportEntry.renderGroup (file.imports.added.map ImportEntry.ofPath) = written
    at declares
  generalize (sortBy ImportEntry.before
    (file.imports.added.map ImportEntry.ofPath)).map ImportEntry.path = paths at declares added
  by_cases first : place = 0
  · -- Nothing stands in front of the declaration, not even a mark.
    obtain ⟨c, more, spelled, -⟩ := declares.opens
    have after : source.take place ++ ((if place = 0 then written ++ "\n\n".toList
        else "\n\n".toList ++ written) ++ rest) = written ++ ("\n\n".toList ++ rest) := by
      simp [first]
    have mark : (Go.takeByteOrderMark (written ++ ("\n\n".toList ++ rest))).2 =
        written ++ ("\n\n".toList ++ rest) := by
      rw [spelled]
      rfl
    refine ⟨paths, "\n\n".toList ++ rest, added, ?_, fun calm => ?_⟩
    · rw [ReadsAs, after, mark]
      exact filePaths_declares declares (declares.solid _)
    · obtain ⟨⟨root, _, before, _⟩, _⟩ := calm
      omega
  · obtain ⟨front, slot, upTo⟩ :=
      exists_preambleUpTo parsed (behind (Nat.pos_of_ne_zero first)) bound free
    rw [if_neg first]
    refine ⟨front.flatMap Tree.declaredPaths ++ paths, rest, ?_, upTo.reads_added declares rest, ?_⟩
    · exact fun path held => List.mem_append_right _ (added held)
    · intro calm bare rewrites
      rw [only bare rewrites]
      exact upTo.reads_kept calm head

end Written

end GoGraft
