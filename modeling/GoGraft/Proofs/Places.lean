import GoGraft.Source.Place
import GoGraft.Proofs.TreeShapes

/-! Places of trees. Trees side by side follow one another without gaps, children stand inside
their parent, and the source has at the span of a tree what the tree spells. -/

namespace GoGraft

@[simp] theorem Place.after_after (place : Place) (first second : Text) :
    (place.after first).after second = place.after (first ++ second) := by
  simp [Place.after, Nat.add_assoc]

@[simp] theorem Place.offset_after (place : Place) (text : Text) :
    (place.after text).offset = place.offset + text.length := rfl

namespace Located

/-- The source has the text of a tree at its place. -/
def StandsIn (source : Text) (located : Located) : Prop :=
  ∃ front back, source = front ++ located.text ++ back ∧
    located.start = Place.after {} front ∧ located.stop = located.start.after located.text

namespace StandsIn

variable {source : Text} {located : Located} (stands : located.StandsIn source)
include stands

theorem stop_eq : located.stop.offset = located.start.offset + located.text.length := by
  obtain ⟨_, _, _, _, stop⟩ := stands
  rw [stop, Place.offset_after]

theorem stop_le : located.stop.offset ≤ source.length := by
  have stop := stands.stop_eq
  obtain ⟨front, back, rfl, start, _⟩ := stands
  rw [stop, start]
  simp [Place.after]

theorem getElem?_eq {index : Nat} (inside : index < located.text.length) :
    source[located.start.offset + index]? = located.text[index]? := by
  obtain ⟨front, back, rfl, start, _⟩ := stands
  have offset : located.start.offset = front.length := by simp [start, Place.after]
  rw [offset, List.append_assoc, List.getElem?_append_right (Nat.le_add_right _ _),
    Nat.add_sub_cancel_left, List.getElem?_append_left inside]

end StandsIn

theorem map_tree_sideBySide (place : Place) (trees : List Go.Tree) :
    (sideBySide place trees).map Located.tree = trees := by
  induction trees generalizing place with
  | nil => rfl
  | cons tree rest ih => rw [sideBySide, List.map_cons, ih]

theorem sideBySide_append (place : Place) (first second : List Go.Tree) :
    sideBySide place (first ++ second) =
      sideBySide place first ++ sideBySide (place.after (Go.Tree.textOfAll first)) second := by
  induction first generalizing place with
  | nil => rfl
  | cons tree rest ih => simp [sideBySide, ih, Go.Tree.textOfAll]

theorem tree_mem_of_mem_sideBySide {place : Place} {trees : List Go.Tree} {located : Located}
    (inside : located ∈ sideBySide place trees) : located.tree ∈ trees := by
  induction trees generalizing place with
  | nil => cases inside
  | cons tree rest ih =>
    rcases List.mem_cons.1 inside with rfl | later
    · exact List.mem_cons_self
    · exact List.mem_cons_of_mem tree (ih later)

theorem bounds_of_mem_sideBySide {place : Place} {trees : List Go.Tree} {located : Located}
    (inside : located ∈ sideBySide place trees) :
    place.offset ≤ located.start.offset ∧ located.start.offset ≤ located.stop.offset ∧
      located.stop.offset ≤ place.offset + (Go.Tree.textOfAll trees).length := by
  induction trees generalizing place with
  | nil => cases inside
  | cons tree rest ih =>
    rw [Go.Tree.textOfAll, List.length_append]
    rcases List.mem_cons.1 inside with rfl | later
    · simp only [Place.offset_after]
      omega
    · have bounds := ih later
      rw [Place.offset_after] at bounds
      omega

theorem sideBySide_ordered (place : Place) (trees : List Go.Tree) :
    (sideBySide place trees).Pairwise fun one other => one.stop.offset ≤ other.start.offset := by
  induction trees generalizing place with
  | nil => exact List.Pairwise.nil
  | cons tree rest ih =>
    refine List.pairwise_cons.2 ⟨?_, ih (place.after tree.text)⟩
    intro other later
    exact (bounds_of_mem_sideBySide later).1

theorem sideBySide_standsIn {source front back : Text} {trees : List Go.Tree}
    (parts : source = front ++ Go.Tree.textOfAll trees ++ back) :
    ∀ located ∈ sideBySide (Place.after {} front) trees, located.StandsIn source := by
  induction trees generalizing front with
  | nil => intro located inside; cases inside
  | cons tree rest ih =>
    intro located inside
    rw [Go.Tree.textOfAll] at parts
    rcases List.mem_cons.1 inside with rfl | later
    · exact ⟨front, Go.Tree.textOfAll rest ++ back, by simp [parts, text], rfl, rfl⟩
    · rw [Place.after_after] at later
      exact ih (by simp [parts]) located later

theorem exists_node_of_mem_children {parent child : Located} (inside : child ∈ parent.children) :
    ∃ kind trees, parent.tree = .node kind trees ∧ child ∈ sideBySide parent.start trees := by
  rw [children] at inside
  split at inside
  next kind trees same => exact ⟨kind, trees, same, inside⟩
  next => cases inside

theorem StandsIn.child {source : Text} {parent child : Located} (stands : parent.StandsIn source)
    (inside : child ∈ parent.children) : child.StandsIn source := by
  obtain ⟨kind, trees, same, held⟩ := exists_node_of_mem_children inside
  obtain ⟨front, back, parts, start, _⟩ := stands
  rw [text, same, Go.Tree.text] at parts
  rw [start] at held
  exact sideBySide_standsIn parts child held

theorem StandsIn.child_bounds {source : Text} {parent child : Located}
    (stands : parent.StandsIn source) (inside : child ∈ parent.children) :
    parent.start.offset ≤ child.start.offset ∧ child.start.offset ≤ child.stop.offset ∧
      child.stop.offset ≤ parent.stop.offset := by
  obtain ⟨kind, trees, same, held⟩ := exists_node_of_mem_children inside
  have bounds := bounds_of_mem_sideBySide held
  rw [stands.stop_eq, text, same, Go.Tree.text]
  exact bounds

theorem children_ordered (parent : Located) :
    parent.children.Pairwise fun one other => one.stop.offset ≤ other.start.offset := by
  rw [children]
  split
  · exact sideBySide_ordered _ _
  · exact List.Pairwise.nil

theorem isNode_iff {kind : Go.NodeKind} {located : Located} :
    located.isNode kind ↔ ∃ trees, located.tree = .node kind trees := by
  rw [isNode]
  cases located.tree with
  | leaf => simp
  | node other trees => simp

theorem mem_of_node? {kind : Go.NodeKind} {parent child : Located}
    (found : parent.node? kind = some child) : child ∈ parent.children ∧ child.isNode kind :=
  ⟨List.mem_of_find?_eq_some found, List.find?_some found⟩

/-- A tree that occurs among trees, at a place where the source has its text. -/
structure PartOf (source : Text) (trees : List Go.Tree) (located : Located) : Prop where
  stands : located.StandsIn source
  occurs : located.tree.Occurs trees

theorem PartOf.child {source : Text} {trees : List Go.Tree} {parent child : Located}
    (part : parent.PartOf source trees) (inside : child ∈ parent.children) :
    child.PartOf source trees := by
  obtain ⟨kind, children, same, held⟩ := exists_node_of_mem_children inside
  have occurs := part.occurs
  rw [same] at occurs
  exact ⟨part.stands.child inside, occurs.child (tree_mem_of_mem_sideBySide held)⟩

theorem partOf_roots {source : Text} {trees : List Go.Tree} (parsed : Go.parse? source = some trees) :
    ∀ root ∈ sideBySide {} trees, root.PartOf source trees := by
  intro root inside
  have parts : source = [] ++ Go.Tree.textOfAll trees ++ [] := by
    simp [Go.parse?_spelled parsed]
  exact ⟨sideBySide_standsIn parts root inside, .among (tree_mem_of_mem_sideBySide inside)⟩

end Located

end GoGraft
