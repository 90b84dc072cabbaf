import GoGraft.Proofs.FileLayout
import GoGraft.Proofs.Lexing
import GoGraft.Proofs.Scattered

/-! The comments of a source: where they stand, and what they stand in. Every comment between the
braces of a struct or the brackets of an import group is one of its items or stands in one, and no
comment stands in the tag of a field. -/

namespace GoGraft

open Go (Tree)

/-! ### Leaves and the nodes over them -/

namespace Located

theorem sideBySide_leavesOfAll (place : Place) (trees : List Tree) :
    sideBySide place (Tree.leavesOfAll trees) = (sideBySide place trees).flatMap leaves := by
  induction trees generalizing place with
  | nil => rfl
  | cons tree rest ih =>
    rw [Tree.leavesOfAll, sideBySide_append, Tree.textOfAll_leaves, ih, sideBySide, List.flatMap_cons]
    rfl

theorem leaves_of_node {located : Located} {kind : Go.NodeKind} {trees : List Tree}
    (same : located.tree = .node kind trees) :
    located.leaves = located.children.flatMap leaves := by
  rw [leaves, same, Tree.leaves, sideBySide_leavesOfAll, children, same]

theorem comments_of_node {located : Located} {kind : Go.NodeKind} {trees : List Tree}
    (same : located.tree = .node kind trees) :
    located.comments = located.children.flatMap comments := by
  rw [comments, leaves_of_node same, List.filter_flatMap]
  rfl

theorem standsAt_of_mem_sideBySide {place : Place} {trees : List Tree} {located : Located}
    (inside : located ∈ sideBySide place trees) :
    located.StandsAt place.offset (Tree.textOfAll trees) := by
  obtain ⟨front, back, rfl, start, stop⟩ := mem_sideBySide inside
  refine ⟨Tree.textOfAll front, Tree.textOfAll back, ?_, ?_, ?_⟩
  · simp [Tree.textOfAll, Located.text]
  · rw [start, Place.offset_after]
  · rw [stop, Place.offset_after]

/-- The leaves of a tree stand in its text. -/
theorem standsAt_of_mem_leaves {located leaf : Located} (inside : leaf ∈ located.leaves) :
    leaf.StandsAt located.start.offset located.text := by
  have stands := standsAt_of_mem_sideBySide inside
  rwa [Tree.textOfAll_leaves] at stands

theorem leaves_ordered (located : Located) :
    located.leaves.Pairwise fun one other => one.stop.offset ≤ other.start.offset :=
  sideBySide_ordered _ _

theorem comments_ordered (located : Located) :
    located.comments.Pairwise fun one other => one.stop.offset ≤ other.start.offset :=
  located.leaves_ordered.filter _

theorem mem_comments {located comment : Located} :
    comment ∈ located.comments ↔ comment ∈ located.leaves ∧ comment.isComment :=
  List.mem_filter

theorem bounds_of_mem_leaves {located leaf : Located} (stop : located.stop = located.start.after located.text)
    (inside : leaf ∈ located.leaves) : leaf.span.Inside located.span := by
  have bounds := bounds_of_mem_sideBySide inside
  rw [Tree.textOfAll_leaves] at bounds
  refine ⟨bounds.1, bounds.2.1, ?_⟩
  simp only [span, stop, Place.offset_after]
  exact bounds.2.2

/-- A leaf that is a comment is all of its comments. -/
theorem comments_of_isComment {located : Located} (comment : located.isComment)
    (stop : located.stop = located.start.after located.text) : located.comments = [located] := by
  obtain ⟨tree, start, stop'⟩ := located
  cases tree with
  | leaf kind text =>
    have place : stop' = start.after text := stop
    subst place
    exact List.filter_cons_of_pos comment
  | node kind children => cases comment

/-- No comment of a tree reaches into the word that the tree starts with. -/
theorem behind_first_token {located comment : Located} {kind : Go.NodeKind} {word : Text}
    {trees : List Tree} (same : located.tree = .node kind (.leaf .token word :: trees))
    (inside : comment ∈ located.comments) :
    located.start.offset + word.length ≤ comment.start.offset := by
  obtain ⟨leaf, kind⟩ := mem_comments.1 inside
  rw [leaves, same] at leaf
  rcases List.mem_cons.1 leaf with rfl | later
  · cases kind
  · have bounds := bounds_of_mem_sideBySide later
    rw [Place.offset_after] at bounds
    exact bounds.1

theorem before_last_token {located comment : Located} {kind : Go.NodeKind} {word : Text}
    {trees : List Tree} (same : located.tree = .node kind (trees ++ [.leaf .token word]))
    (stop : located.stop = located.start.after located.text) (inside : comment ∈ located.comments) :
    comment.stop.offset + word.length ≤ located.stop.offset := by
  obtain ⟨leaf, kind⟩ := mem_comments.1 inside
  rw [stop, text, same, Place.offset_after, Tree.text, Tree.textOfAll_append, List.length_append]
  rw [leaves, same, Tree.leaves, Tree.leavesOfAll_append, sideBySide_append] at leaf
  rcases List.mem_append.1 leaf with front | last
  · have bounds := bounds_of_mem_sideBySide front
    rw [Tree.textOfAll_leavesOfAll] at bounds
    simp only [Tree.textOfAll, Tree.text, List.append_nil]
    omega
  · cases List.mem_singleton.1 last
    cases kind

theorem isComment_iff {located : Located} :
    located.isComment ↔ ∃ text, located.tree = .leaf .comment text := by
  rw [isComment]
  cases located.tree with
  | leaf kind text => cases kind <;> simp
  | node kind children => simp

/-- In a node whose nodes are all of one kind, the comments are those of the nodes and those beside
them. -/
theorem comments_of_items {list : Located} {trees : List Tree} {outer kind : Go.NodeKind}
    (same : list.tree = .node outer trees)
    (only : ∀ other children, Go.Tree.node other children ∈ trees → other = kind) :
    list.comments =
      (list.children.filter fun item => item.isNode kind || item.isComment).flatMap comments := by
  rw [comments_of_node same]
  have inside : ∀ child ∈ list.children, child.tree ∈ trees := by
    intro child held
    rw [children, same] at held
    exact tree_mem_of_mem_sideBySide held
  generalize list.children = items at inside
  induction items with
  | nil => rfl
  | cons item rest ih =>
    have others := ih fun child held => inside child (List.mem_cons_of_mem item held)
    by_cases kept : item.isNode kind || item.isComment
    · rw [List.filter_cons, if_pos kept, List.flatMap_cons, List.flatMap_cons, others]
    · -- What is left out is a leaf and no comment.
      have none_held : item.comments = [] := by
        have among := inside item List.mem_cons_self
        obtain ⟨tree, start, stop⟩ := item
        cases tree with
        | leaf leafKind text =>
          simp only [Bool.or_eq_true, not_or, Bool.not_eq_true] at kept
          exact List.filter_cons_of_neg (by simpa [isComment] using kept.2)
        | node other children =>
          have : other = kind := only other children among
          simp [isNode, this] at kept
      rw [List.filter_cons, if_neg kept, List.flatMap_cons, none_held, List.nil_append, others]

end Located

/-! ### The comments of a file -/

/-- The comments of a source, given by its trees. -/
def commentsOf (trees : List Tree) : List Located :=
  (Located.sideBySide {} (Tree.leavesOfAll trees)).filter Located.isComment

theorem commentsOf_ordered (trees : List Tree) :
    (commentsOf trees).Pairwise fun one other => one.stop.offset ≤ other.start.offset :=
  (Located.sideBySide_ordered _ _).filter _

theorem Located.Within.comments_sublist {trees : List Tree} {located : Located}
    (within : Within (sideBySide {} trees) located) :
    located.comments.Sublist (commentsOf trees) :=
  within.leaves_sublist.filter _

/-- A comment that does not stand before or behind a tree is a comment of the tree. -/
theorem Located.Within.mem_comments {trees : List Tree} {located comment : Located}
    (within : Within (sideBySide {} trees) located) (among : comment ∈ commentsOf trees) :
    comment.stop.offset ≤ located.start.offset ∨ comment ∈ located.comments ∨
      located.stop.offset ≤ comment.start.offset := by
  obtain ⟨leaf, kind⟩ := List.mem_filter.1 among
  exact (within.mem_leaves leaf).imp_right (Or.imp_left fun own => List.mem_filter.2 ⟨own, kind⟩)

theorem Located.Within.stop_eq {trees : List Tree} {located : Located}
    (within : Within (sideBySide {} trees) located) : located.stop = located.start.after located.text := by
  obtain ⟨_, _, _, _, stop⟩ := within.split
  exact stop

theorem Located.Within.partOf {source : Text} {trees : List Tree}
    (parsed : Go.parse? source = some trees) {located : Located}
    (within : Within (sideBySide {} trees) located) : located.PartOf source trees := by
  induction within with
  | root inside => exact partOf_roots parsed _ inside
  | child _ inside ih => exact ih.child inside

theorem Go.Lexeme.comment?_starts {text taken rest : Text}
    (read : Go.Lexeme.comment? text = some (taken, rest)) : ∃ more, taken = '/' :: more := by
  unfold Go.Lexeme.comment? at read
  split at read
  · cases read
    exact ⟨_, rfl⟩
  · obtain ⟨_, _, same⟩ := Option.map_eq_some_iff.1 read
    cases same
    exact ⟨_, rfl⟩
  · cases read

theorem Go.Token.leafKind_ne_comment (symbol : Go.Token) : symbol.leafKind ≠ .comment := by
  cases symbol <;> simp [Go.Token.leafKind]

section Parsed

variable {source : Text} {trees : List Tree} (parsed : Go.parse? source = some trees)
include parsed

theorem standsIn_of_mem_commentsOf {comment : Located} (among : comment ∈ commentsOf trees) :
    comment.StandsIn source := by
  have parts : source = [] ++ Tree.textOfAll (Tree.leavesOfAll trees) ++ [] := by
    simp [Tree.textOfAll_leavesOfAll, Go.parse?_spelled parsed]
  exact Located.sideBySide_standsIn parts comment (List.mem_filter.1 among).1

theorem comment_starts {comment : Located} (among : comment ∈ commentsOf trees) :
    ∃ rest, comment.text = '/' :: rest := by
  obtain ⟨leaf, kind⟩ := List.mem_filter.1 among
  obtain ⟨text, same⟩ := Located.isComment_iff.1 kind
  have inside := Located.tree_mem_of_mem_sideBySide leaf
  obtain ⟨after, fits⟩ := (Go.parse?_fits parsed).mem inside
  rw [same] at fits
  rw [Located.text, same]
  generalize held : Tree.leaf .comment text = tree at fits
  cases fits with
  | blank => cases held
  | comment read =>
    cases held
    exact Go.Lexeme.comment?_starts read
  | token => exact absurd (Tree.leaf.inj held).1.symm (Go.Token.leafKind_ne_comment _)

theorem comment_proper {comment : Located} (among : comment ∈ commentsOf trees) :
    comment.start.offset < comment.stop.offset := by
  obtain ⟨rest, text⟩ := comment_starts parsed among
  have stop := (standsIn_of_mem_commentsOf parsed among).stop_eq
  rw [text, List.length_cons] at stop
  omega

end Parsed

end GoGraft
