import GoGraft.Proofs.Places

/-! The leaves of trees, from left to right. They spell what the trees spell, so that they stand side
by side where the trees do, and the leaves of a tree that stands anywhere below some roots are one
stretch among the leaves of the roots. -/

namespace GoGraft

namespace Go.Tree

mutual
def leaves : Tree → List Tree
  | .leaf kind text => [.leaf kind text]
  | .node _ children => leavesOfAll children

def leavesOfAll : List Tree → List Tree
  | [] => []
  | tree :: rest => tree.leaves ++ leavesOfAll rest
end

theorem leavesOfAll_append (first second : List Tree) :
    leavesOfAll (first ++ second) = leavesOfAll first ++ leavesOfAll second := by
  induction first with
  | nil => rfl
  | cons tree rest ih => simp [leavesOfAll, ih]

mutual
theorem textOfAll_leaves (tree : Tree) : textOfAll tree.leaves = tree.text := by
  cases tree with
  | leaf kind text => simp [leaves, textOfAll, Tree.text]
  | node kind children => exact textOfAll_leavesOfAll children

theorem textOfAll_leavesOfAll (trees : List Tree) :
    textOfAll (leavesOfAll trees) = textOfAll trees := by
  cases trees with
  | nil => rfl
  | cons tree rest =>
    rw [leavesOfAll, textOfAll_append, textOfAll_leaves tree, textOfAll_leavesOfAll rest, textOfAll]
end

theorem leavesOfAll_trivia {trivia : List Tree} (between : ∀ tree ∈ trivia, tree.isTrivia) :
    leavesOfAll trivia = trivia := by
  induction trivia with
  | nil => rfl
  | cons first rest ih =>
    have others := ih fun tree inside => between tree (List.mem_cons_of_mem first inside)
    cases first with
    | leaf kind text => simp [leavesOfAll, leaves, others]
    | node kind children => cases between _ List.mem_cons_self

/-- Putting a node over trees leaves their leaves. -/
theorem leavesOfAll_wrap (kind : NodeKind) (trees : List Tree) :
    leavesOfAll (wrap kind trees) = leavesOfAll trees := by
  have halves := congrArg leavesOfAll (List.takeWhile_append_dropWhile (p := isTrivia) (l := trees))
  rw [leavesOfAll_append] at halves
  simpa only [wrap, leavesOfAll_append, leavesOfAll, leaves, List.append_nil] using halves

end Go.Tree

open Go (Tree)

namespace Located

/-- The leaves of a tree, where they stand. -/
def leaves (located : Located) : List Located :=
  sideBySide located.start located.tree.leaves

def comments (located : Located) : List Located :=
  located.leaves.filter isComment

theorem mem_sideBySide {place : Place} {trees : List Tree} {located : Located}
    (inside : located ∈ sideBySide place trees) :
    ∃ front back, trees = front ++ located.tree :: back ∧
      located.start = place.after (Tree.textOfAll front) ∧
      located.stop = located.start.after located.text := by
  induction trees generalizing place with
  | nil => cases inside
  | cons tree rest ih =>
    rcases List.mem_cons.1 inside with rfl | later
    · exact ⟨[], rest, rfl, by simp [Place.after, Tree.textOfAll], rfl⟩
    · obtain ⟨front, back, rfl, start, stop⟩ := ih later
      exact ⟨tree :: front, back, rfl, by rw [start, Place.after_after]; rfl, stop⟩

/-- A tree among some roots, or anywhere below one of them. -/
inductive Within (roots : List Located) : Located → Prop where
  | root {located : Located} (inside : located ∈ roots) : Within roots located
  | child {parent located : Located} (within : Within roots parent)
      (inside : located ∈ parent.children) : Within roots located

/-- The leaves of a tree are one stretch of the leaves of the roots. -/
theorem Within.split {place : Place} {trees : List Tree} {located : Located}
    (within : Within (sideBySide place trees) located) :
    ∃ front back, Tree.leavesOfAll trees = front ++ located.tree.leaves ++ back ∧
      located.start = place.after (Tree.textOfAll front) ∧
      located.stop = located.start.after located.text := by
  induction within with
  | root inside =>
    obtain ⟨front, back, rfl, start, stop⟩ := mem_sideBySide inside
    refine ⟨Tree.leavesOfAll front, Tree.leavesOfAll back, ?_, ?_, stop⟩
    · rw [Tree.leavesOfAll_append, Tree.leavesOfAll, List.append_assoc]
    · rw [Tree.textOfAll_leavesOfAll, start]
  | @child parent located within inside ih =>
    obtain ⟨before, after, parts, outer, _⟩ := ih
    obtain ⟨kind, children, same, held⟩ := exists_node_of_mem_children inside
    obtain ⟨front, back, rfl, start, stop⟩ := mem_sideBySide held
    refine ⟨before ++ Tree.leavesOfAll front, Tree.leavesOfAll back ++ after, ?_, ?_, stop⟩
    · rw [parts, same, Tree.leaves, Tree.leavesOfAll_append, Tree.leavesOfAll]
      simp only [List.append_assoc]
    · rw [start, outer, Place.after_after, Tree.textOfAll_append, Tree.textOfAll_leavesOfAll]

/-- A leaf of the roots that does not stand before or behind a tree is a leaf of the tree. -/
theorem Within.mem_leaves {place : Place} {trees : List Tree} {located leaf : Located}
    (within : Within (sideBySide place trees) located)
    (among : leaf ∈ sideBySide place (Tree.leavesOfAll trees)) :
    leaf.stop.offset ≤ located.start.offset ∨ leaf ∈ located.leaves ∨
      located.stop.offset ≤ leaf.start.offset := by
  obtain ⟨front, back, parts, start, stop⟩ := within.split
  rw [parts, sideBySide_append, sideBySide_append, Tree.textOfAll_append, ← Place.after_after,
    ← start, Tree.textOfAll_leaves] at among
  rcases List.mem_append.1 among with earlier | later
  · rcases List.mem_append.1 earlier with before | own
    · left
      rw [start, Place.offset_after]
      exact (bounds_of_mem_sideBySide before).2.2
    · exact .inr (.inl own)
  · right; right
    rw [stop]
    exact (bounds_of_mem_sideBySide later).1

theorem Within.leaves_sublist {place : Place} {trees : List Tree} {located : Located}
    (within : Within (sideBySide place trees) located) :
    located.leaves.Sublist (sideBySide place (Tree.leavesOfAll trees)) := by
  obtain ⟨front, back, parts, start, _⟩ := within.split
  rw [parts, sideBySide_append, sideBySide_append, ← start]
  exact (List.sublist_append_right _ _).trans (List.sublist_append_left _ _)

end Located

end GoGraft
