import GoGraft.Proofs.BodyFields
import GoGraft.Proofs.Comments
import GoGraft.Proofs.DirectiveTraces

/-! Comments in bodies that are written again. A line that is kept as it is keeps its comments, since
only tags change in it. A line that is written from its field keeps the comment behind the field and
those that the type of the field is copied with. -/

namespace GoGraft

open Go (Tree)
open Text (InOrder Scattered)

/-! ### Structs with more fields and other tags -/

/-- A struct that got further fields at its end, and other tags. -/
structure StructDeclaration.Grown (before after : StructDeclaration) : Prop where
  body : ∃ extra, after.body = { before.body with lines := before.body.lines ++ extra }
  fields : ∃ more, after.fields.map Field.untagged = before.fields.map Field.untagged ++ more
  numbered : before.Numbered → after.Numbered

namespace StructDeclaration.Grown

theorem refl (struct : StructDeclaration) : struct.Grown struct :=
  ⟨⟨[], by simp⟩, ⟨[], by simp⟩, id⟩

theorem trans {first second third : StructDeclaration} (left : first.Grown second)
    (right : second.Grown third) : first.Grown third := by
  obtain ⟨⟨extra, body⟩, ⟨more, fields⟩, numbered⟩ := left
  obtain ⟨⟨extra', body'⟩, ⟨more', fields'⟩, numbered'⟩ := right
  refine ⟨⟨extra ++ extra', ?_⟩, ⟨more ++ more', ?_⟩, fun held => numbered' (numbered held)⟩
  · rw [body', body, List.append_assoc]
  · rw [fields', fields, List.append_assoc]

theorem addField (struct : StructDeclaration) (field : Field) :
    struct.Grown (struct.addField field) :=
  ⟨⟨[.field struct.fields.length none], rfl⟩, ⟨[field.untagged], by simp [StructDeclaration.addField]⟩,
    fun numbered => numbered.addField field⟩

theorem grow (struct : StructDeclaration) (text : Text) : struct.Grown (struct.grow text) := by
  rw [StructDeclaration.grow]
  split
  · exact refl struct
  · split
    · exact refl struct
    · exact addField struct _

theorem growAll (entry : Declaration) (struct : StructDeclaration) :
    struct.Grown (struct.growAll entry) := by
  have each (texts : List Text) : struct.Grown (texts.foldl StructDeclaration.grow struct) := by
    induction texts generalizing struct with
    | nil => exact refl struct
    | cons text rest ih => exact (grow struct text).trans (ih (struct.grow text))
  exact each _

theorem tagAll (entry : Declaration) (struct : StructDeclaration) :
    struct.Grown (struct.tagAll entry) := by
  refine ⟨⟨[], by simp [StructDeclaration.tagAll]⟩, ⟨[], ?_⟩, fun numbered => ?_⟩
  · rw [map_untagged_tagAll, List.append_nil]
  · simpa [StructDeclaration.Numbered, StructDeclaration.tagAll] using numbered

theorem settle (registry : Registry) (struct : StructDeclaration) :
    struct.Grown (registry.settle struct) := by
  rw [Registry.settle, Registry.onStruct]
  split
  · exact (growAll _ struct).trans (tagAll _ _)
  · exact refl struct

/-- A field that was there is there, but for its tag. -/
theorem field {before after : StructDeclaration} (grown : before.Grown after) {index : Nat}
    {field : Field} (found : before.fields[index]? = some field) :
    ∃ kept, after.fields[index]? = some kept ∧ kept.untagged = field.untagged := by
  obtain ⟨more, fields⟩ := grown.fields
  have same : (after.fields.map Field.untagged)[index]? = some field.untagged := by
    obtain ⟨bound, _⟩ := List.getElem?_eq_some_iff.1 found
    rw [fields, List.getElem?_append_left (by simpa using bound), List.getElem?_map, found]
    rfl
  rw [List.getElem?_map] at same
  obtain ⟨kept, held, untagged⟩ := Option.map_eq_some_iff.1 same
  exact ⟨kept, held, untagged⟩

end StructDeclaration.Grown

/-! ### Lines written from a field -/

/-- Whether a field that is written from its parts brings a comment of it along. The type of a field
with names is copied as it stands; that of an embedded field is copied, with what stands before it,
without blanks. -/
def Located.Copies (field comment : Located) : Prop :=
  ∃ type, field.node? .fieldType = some type ∧
    if (field.nodes .fieldName).isEmpty then
      comment.stop.offset ≤ type.stop.offset ∧ ∀ c ∈ comment.text, !Text.isBlank c
    else comment ∈ type.comments

theorem sideBySide_split {place : Place} {trees : List Tree} {before after : List Located}
    {item : Located} (parts : Located.sideBySide place trees = before ++ item :: after) :
    (∃ rest, Tree.textOfAll trees = before.flatMap Located.text ++ item.text ++ rest) ∧
      item.stop.offset = place.offset + (before.flatMap Located.text ++ item.text).length := by
  induction before generalizing place trees with
  | nil =>
    cases trees with
    | nil => cases parts
    | cons tree rest =>
      cases parts
      exact ⟨⟨Tree.textOfAll rest, rfl⟩, rfl⟩
  | cons first before ih =>
    cases trees with
    | nil => cases parts
    | cons tree trees =>
      obtain ⟨rfl, others⟩ := List.cons.inj parts
      obtain ⟨⟨rest, texts⟩, stop⟩ := ih others
      refine ⟨⟨rest, ?_⟩, ?_⟩
      · rw [Tree.textOfAll, texts]
        simp [Located.text]
      · rw [stop, Place.offset_after]
        simp [Located.text, Nat.add_assoc]

/-- The comments that a field brings along stand in its type, without the blanks at their ends. -/
theorem inOrder_type {field : Located} {trees : List Tree}
    (same : field.tree = .node .field trees) {kept : List Located}
    (part : kept.Sublist field.comments) (copied : ∀ comment ∈ kept, field.Copies comment) :
    InOrder (kept.map Located.trimmed) (Field.ofNode field).type := by
  cases found : field.node? .fieldType with
  | none =>
    cases kept with
    | nil => trivial
    | cons comment rest =>
      obtain ⟨type, held, _⟩ := copied comment List.mem_cons_self
      rw [found] at held
      cases held
  | some type =>
    have ordered := field.comments_ordered.sublist part
    have copies : ∀ comment ∈ kept, if (field.nodes .fieldName).isEmpty then
        comment.stop.offset ≤ type.stop.offset ∧ ∀ c ∈ comment.text, !Text.isBlank c
        else comment ∈ type.comments := by
      intro comment inside
      obtain ⟨other, held, rule⟩ := copied comment inside
      rw [found] at held
      cases held
      exact rule
    simp only [Field.ofNode, found, Option.map_some, Option.getD_some, List.isEmpty_map]
    split
    next embedded =>
      simp only [embedded, if_true] at copies
      obtain ⟨kind, before, after, parts, apart⟩ := List.find?_eq_some_iff_append.1 found
      have front : field.children.takeWhile (fun child => !child.isNode .fieldType) = before := by
        rw [parts, List.takeWhile_append_of_pos apart, List.takeWhile_cons_of_neg (by simp [kind]),
          List.append_nil]
      rw [front]
      rw [Located.children, same] at parts
      obtain ⟨⟨rest, texts⟩, stop⟩ := sideBySide_split parts
      have stand : ∀ comment ∈ kept, comment.StandsAt field.start.offset
          (before.flatMap Located.text ++ type.text) := by
        intro comment inside
        have stands := Located.standsAt_of_mem_leaves
          (Located.mem_comments.1 (part.subset inside)).1
        rw [Located.text, same, Tree.text, texts] at stands
        exact stands.front (stop ▸ (copies comment inside).1)
      have held := (Located.inOrder_of_ordered stand ordered).filter fun text inside => by
        obtain ⟨comment, among, rfl⟩ := List.mem_map.1 inside
        exact (copies comment among).2
      have shortened := held.beginnings Text.trimEnd_prefix
      rwa [List.map_map] at shortened
    next named =>
      simp only [named] at copies
      refine @Located.trimmed_inOrder type.start.offset _ _ ?_ ordered
      intro comment inside
      exact Located.standsAt_of_mem_leaves (Located.mem_comments.1 (copies comment inside)).1

theorem cells_eq (field : Field) (comment : Option Text) :
    ∃ front middle, field.cells comment = front ++ field.type :: (middle ++ comment.toList) := by
  refine ⟨if field.isEmbedded then [] else [Text.join ", ".toList field.names], ?_⟩
  cases tag : field.tag with
  | some text => exact ⟨[text], by cases comment <;> simp [Field.cells, tag]⟩
  | none =>
    cases comment with
    | none => exact ⟨[], by simp [Field.cells, tag]⟩
    | some text =>
      exact ⟨List.replicate (if field.isEmbedded then 2 else 1) [], by simp [Field.cells, tag]⟩

theorem Layout.Spaced.split {first second : List Text} {text : Text}
    (spaced : Layout.Spaced (first ++ second) text) :
    ∃ front back, text = front ++ back ∧ Layout.Spaced second back := by
  induction first generalizing text with
  | nil => exact ⟨[], text, rfl, spaced⟩
  | cons cell cells ih =>
    cases spaced with
    | cons _ spaces others =>
      obtain ⟨front, back, rfl, later⟩ := ih others
      exact ⟨cell ++ List.replicate spaces ' ' ++ front, back, by simp, later⟩

/-- What stands in the type of a field and behind the field stands in the line of the field. -/
theorem inOrder_cells {field : Field} {comment : Option Text} {text : Text}
    (spaced : Layout.Spaced (field.cells comment) text) {inner behind : List Text}
    (first : InOrder inner field.type) (last : InOrder behind (comment.getD [])) :
    InOrder (inner ++ behind) text := by
  obtain ⟨front, middle, cells⟩ := cells_eq field comment
  rw [cells] at spaced
  obtain ⟨names, _, rfl, later⟩ := spaced.split
  cases later with
  | cons _ spaces others =>
    obtain ⟨between, rest, rfl, ending⟩ := others.split
    apply InOrder.prepend
    refine (first.extend _).append (InOrder.prepend ?_ between)
    cases comment with
    | none =>
      cases ending
      exact last
    | some comment =>
      cases ending with
      | cons _ _ nothing => exact (last.extend _).extend _

/-- The items of a line stand in the source in their order. -/
structure ItemLine.Placed (trees : List Tree) (line : ItemLine) : Prop where
  within : ∀ item ∈ line.items, Located.Within (Located.sideBySide {} trees) item
  ordered : line.items.Pairwise fun one other => one.stop.offset ≤ other.start.offset

def ItemLine.comments (line : ItemLine) : List Located :=
  line.items.flatMap Located.comments

namespace ItemLine

theorem placed_of_mem_divide {trees : List Tree} {list : Located}
    (within : Located.Within (Located.sideBySide {} trees) list) {keep : Located → Bool}
    {line : ItemLine} (held : line ∈ divide (list.children.filter keep)) : line.Placed trees :=
  ⟨fun _ among => within.child (List.mem_filter.1 (items_subset held among)).1,
    items_ordered (list.children_ordered.filter _) held⟩

/-- In a node whose nodes are all of one kind, the comments are those of its lines. -/
theorem comments_of_lines {list : Located} {trees : List Tree} {outer kind : Go.NodeKind}
    (same : list.tree = .node outer trees)
    (only : ∀ other children, Go.Tree.node other children ∈ trees → other = kind) :
    list.comments = (divide (list.children.filter fun item =>
      item.isNode kind || item.isComment)).flatMap comments := by
  rw [Located.comments_of_items same only]
  conv => lhs; rw [← items_divide (list.children.filter _)]
  exact List.flatMap_assoc

namespace Placed

variable {trees : List Tree} {line : ItemLine} (placed : line.Placed trees)
include placed

theorem proper : line.Proper := by
  refine proper_of_ordered placed.ordered fun item inside => ?_
  rw [(placed.within item inside).stop_eq, Place.offset_after]
  exact Nat.le_add_right _ _

theorem comment_inside {comment : Located} (held : comment ∈ line.comments) :
    comment ∈ commentsOf trees ∧ ∃ item ∈ line.items, comment.span.Inside item.span := by
  obtain ⟨item, present, own⟩ := List.mem_flatMap.1 held
  have within := placed.within item present
  exact ⟨within.comments_sublist.subset own, item, present,
    Located.bounds_of_mem_leaves within.stop_eq (Located.mem_comments.1 own).1⟩

theorem comments_ordered :
    line.comments.Pairwise fun one other => one.stop.offset ≤ other.start.offset := by
  refine List.pairwise_flatMap.2 ⟨fun item _ => item.comments_ordered, ?_⟩
  refine placed.ordered.imp_of_mem fun first second apart one held other held' => ?_
  have left := Located.bounds_of_mem_leaves (placed.within _ first).stop_eq
    (Located.mem_comments.1 held).1
  have right := Located.bounds_of_mem_leaves (placed.within _ second).stop_eq
    (Located.mem_comments.1 held').1
  simp only [Span.Inside, Located.span] at left right
  omega

end Placed

end ItemLine

/-- A line that is written keeps the comments of it that are copied. -/
theorem written_scattered {source : Text} {trees : List Tree} {line : ItemLine} (placed : line.Placed trees)
    {before after : StructDeclaration} (grown : before.Grown after) {index : Nat} {comment : Option Text}
    (held : line.KeptBy before.fields (.field index comment)) {text : Text}
    (written : after.Writes source (.field index comment) text) {kept : List Located}
    (part : kept.Sublist line.comments)
    (copied : ∀ comment ∈ kept, comment ∈ line.first.comments → line.first.Copies comment) :
    Scattered (kept.map Located.trimmed) text := by
  obtain ⟨single, found, texts⟩ := held
  obtain ⟨kind, behind, rest, comments⟩ := ItemLine.of_isFieldLine single
  obtain ⟨children, same⟩ := Located.isNode_iff.1 kind
  obtain ⟨field, cells, present, spaced, layout⟩ := written
  -- The type is the one that the source has.
  have type : field.type = (Field.ofNode line.first).type := by
    obtain ⟨held, there, untagged⟩ := grown.field found
    rw [present] at there
    cases there
    exact (congrArg Field.type untagged :)
  rw [ItemLine.comments, ItemLine.items, List.flatMap_cons] at part
  obtain ⟨inner, outer, rfl, own, others⟩ := List.sublist_append_iff.1 part
  have first : InOrder (inner.map Located.trimmed) field.type := by
    rw [type]
    refine inOrder_type same own fun comment inside => ?_
    exact copied comment (List.mem_append_left outer inside) (own.subset inside)
  have last : InOrder (outer.map Located.trimmed) (comment.getD []) := by
    cases behind with
    | none =>
      rw [rest] at others
      cases List.eq_nil_of_sublist_nil others
      trivial
    | some item =>
      have inside : item ∈ line.items := by simp [ItemLine.items, rest]
      have itself := Located.comments_of_isComment (comments item rfl) (placed.within item inside).stop_eq
      rw [rest, Option.toList_some, List.flatMap_singleton, itself] at others
      have shown : comment = some item.text := by
        rw [rest] at texts
        cases comment with
        | none => cases texts
        | some text => exact congrArg some (List.cons.inj texts).1.symm
      rw [shown]
      exact ((InOrder.singleton item.text).beginnings Text.trimEnd_prefix).sublist (others.map _)
  have both := inOrder_cells spaced first last
  rw [← List.map_append] at both
  rcases layout with rfl | rfl
  · exact .of_inOrder (both.prepend _)
  · refine .of_inOrder (InOrder.prepend (both.trimEnd fun part inside => ?_) _)
    obtain ⟨comment, _, rfl⟩ := List.mem_map.1 inside
    exact Text.trimEnd_trimEnd _

/-! ### Lines that are kept -/

namespace Located

/-- The source between two places has the trees that stand there. -/
theorem StandsIn.standsAt_slice {source : Text} {located : Located} (stands : located.StandsIn source)
    {span : Span} (inside : located.span.Inside span) :
    located.StandsAt span.start (Text.slice source span) := by
  obtain ⟨first, order, last⟩ := inside
  have bound := stands.stop_le
  simp only [Located.span] at first order last
  have whole := StandsAt.of_standsIn stands
  have length : (source.take span.start).length = span.start := by
    rw [List.length_take]
    omega
  rw [← List.take_append_drop span.start source] at whole
  have behind := whole.back (by omega)
  rw [Nat.zero_add, length, ← List.take_append_drop (span.stop - span.start) (source.drop span.start)]
    at behind
  apply behind.front
  have stop := stands.stop_eq
  rw [List.length_take, List.length_drop]
  omega

end Located

/-- What holds for each field and what it became holds for the fields of some numbers. -/
theorem StructDeclaration.fields_at {before after : StructDeclaration} {became : Field → Field → Prop}
    (each : ∀ {index : Nat} {field : Field}, before.fields[index]? = some field →
      ∃ kept, after.fields[index]? = some kept ∧ became field kept)
    {nodes : List Located} {indices : List Nat}
    (same : indices.map (before.fields[·]?) = (nodes.map Field.ofNode).map some) :
    ∃ fields, List.Forall₂ (fun node field => became (Field.ofNode node) field) nodes fields ∧
      indices.map (after.fields[·]?) = fields.map some := by
  induction nodes generalizing indices with
  | nil => exact ⟨[], .nil, by simp_all⟩
  | cons node nodes ih =>
    cases indices with
    | nil => cases same
    | cons index indices =>
      obtain ⟨here, others⟩ := List.cons.inj same
      obtain ⟨kept, found, known⟩ := each here
      obtain ⟨fields, later, rest⟩ := ih others
      exact ⟨kept :: fields, .cons known later, by simp [found, rest]⟩

theorem tagEdits_of_fields {struct : StructDeclaration} {indices : List Nat} {fields : List Field}
    (found : indices.map (struct.fields[·]?) = fields.map some) :
    (indices.filterMap fun index => struct.fields[index]?.bind Field.tagEdit?) =
      fields.filterMap Field.tagEdit? := by
  calc _ = (indices.map (struct.fields[·]?)).filterMap (·.bind Field.tagEdit?) := by
        rw [List.filterMap_map]
        rfl
    _ = _ := by
        rw [found, List.filterMap_map]
        rfl

/-- The tag of a field is changed where it stands, or put behind the type. -/
theorem tagEdit?_span {node : Located} {field : Field} {edit : Edit}
    (same : field.untagged = (Field.ofNode node).untagged) (made : field.tagEdit? = some edit) :
    (∃ tag, node.node? .fieldTag = some tag ∧ edit.span = tag.span) ∨
      (∃ type, node.node? .fieldType = some type ∧
        edit.span = ⟨type.stop.offset, type.stop.offset⟩) ∨
      edit.span = ⟨node.stop.offset, node.stop.offset⟩ := by
  have origin : field.untagged.origin = _ := congrArg Field.origin same
  simp only [Field.untagged, Field.ofNode] at origin
  rw [Field.tagEdit?, origin] at made
  cases literal : field.tag with
  | none => simp [literal] at made
  | some text =>
    simp only [literal] at made
    split at made
    · cases made
    · cases tagged : node.node? .fieldTag with
      | some tag =>
        simp only [tagged, Option.map_some] at made
        cases made
        exact .inl ⟨tag, rfl, rfl⟩
      | none =>
        simp only [tagged, Option.map_none] at made
        cases made
        right
        cases typed : node.node? .fieldType with
        | none => exact .inr rfl
        | some type => exact .inl ⟨type, rfl, rfl⟩

section Parsed

variable {source : Text} {trees : List Tree} (parsed : Go.parse? source = some trees)
include parsed

/-- No change of a tag touches a comment. -/
theorem tagEdit?_apart {node : Located} (within : Located.Within (Located.sideBySide {} trees) node)
    {field : Field} {edit : Edit} (same : field.untagged = (Field.ofNode node).untagged)
    (made : field.tagEdit? = some edit) :
    edit.span.Inside node.span ∧ ∀ comment ∈ commentsOf trees,
      comment.stop.offset ≤ edit.span.start ∨ edit.span.stop ≤ comment.start.offset := by
  have bounds {child : Located} (inside : child ∈ node.children) : child.span.Inside node.span :=
    (within.partOf parsed).stands.child_inside inside
  -- An empty span at the end of a tree is never inside a comment.
  have at_end {located : Located} (held : Located.Within (Located.sideBySide {} trees) located)
      {comment : Located} (among : comment ∈ commentsOf trees) :
      comment.stop.offset ≤ located.stop.offset ∨ located.stop.offset ≤ comment.start.offset := by
    rcases held.mem_comments among with before | own | behind
    · have stop := (held.partOf parsed).stands.stop_eq
      exact .inl (by omega)
    · exact .inl (Located.bounds_of_mem_leaves held.stop_eq (Located.mem_comments.1 own).1).2.2
    · exact .inr behind
  rcases tagEdit?_span same made with ⟨tag, found, span⟩ | ⟨type, found, span⟩ | span
  · obtain ⟨inside, kind⟩ := Located.mem_of_node? found
    rw [span]
    refine ⟨bounds inside, fun comment among => ?_⟩
    have tagWithin := within.child inside
    rcases tagWithin.mem_comments among with before | own | behind
    · exact .inl before
    · obtain ⟨children, tree⟩ := Located.isNode_iff.1 kind
      obtain ⟨literal, rfl⟩ := Go.fieldTag_children parsed (tree ▸ (tagWithin.partOf parsed).occurs)
      obtain ⟨leaf, comment⟩ := Located.mem_comments.1 own
      rw [Located.leaves, tree] at leaf
      cases List.mem_singleton.1 leaf
      cases comment
    · exact .inr behind
  · obtain ⟨inside, _⟩ := Located.mem_of_node? found
    have held := bounds inside
    simp only [Span.Inside, Located.span] at held
    rw [span]
    refine ⟨⟨by simp only [Located.span]; omega, Nat.le_refl _, held.2.2⟩, fun comment among => ?_⟩
    exact at_end (within.child inside) among
  · have stop := (within.partOf parsed).stands.stop_eq
    rw [span]
    refine ⟨⟨by simp only [Located.span]; omega, Nat.le_refl _, Nat.le_refl _⟩, fun comment among => ?_⟩
    exact at_end within among

/-- The edits of tags on a line stand in order, and touch no comment. -/
theorem tagEdits_fit {nodes : List Located} {fields : List Field}
    (same : List.Forall₂ (fun node field => field.untagged = (Field.ofNode node).untagged) nodes fields)
    (within : ∀ node ∈ nodes, Located.Within (Located.sideBySide {} trees) node)
    (ordered : nodes.Pairwise fun one other => one.stop.offset ≤ other.start.offset)
    {place stop : Nat} (bound : place ≤ stop)
    (inside : ∀ node ∈ nodes, place ≤ node.start.offset ∧ node.stop.offset ≤ stop) :
    Edit.Fit place stop (fields.filterMap Field.tagEdit?) ∧
      ∀ edit ∈ fields.filterMap Field.tagEdit?, ∀ comment ∈ commentsOf trees,
        comment.stop.offset ≤ edit.span.start ∨ edit.span.stop ≤ comment.start.offset := by
  induction same generalizing place with
  | nil => exact ⟨bound, fun edit held => nomatch held⟩
  | @cons node field nodes fields first _ ih =>
    obtain ⟨behind, others⟩ := List.pairwise_cons.1 ordered
    have laterWithin := fun other held => within other (List.mem_cons_of_mem node held)
    obtain ⟨start, last⟩ := inside node List.mem_cons_self
    cases made : field.tagEdit? with
    | none =>
      rw [List.filterMap_cons_none made]
      exact ih laterWithin others bound fun other held => inside other (List.mem_cons_of_mem node held)
    | some edit =>
      obtain ⟨held, apart⟩ := tagEdit?_apart parsed (within node List.mem_cons_self) first made
      simp only [Span.Inside, Located.span] at held
      rw [List.filterMap_cons_some made]
      have later := @ih laterWithin others edit.span.stop (by omega) fun other held' => by
        have apart := behind other held'
        have bounds := inside other (List.mem_cons_of_mem node held')
        omega
      refine ⟨⟨by omega, held.2.1, later.1⟩, fun other among => ?_⟩
      rcases List.mem_cons.1 among with rfl | among
      · exact apart
      · exact later.2 other among

/-- The edits of tags in a line that is kept stand in the line, and touch no comment. -/
theorem verbatimEdits_fit {line : ItemLine} (placed : line.Placed trees)
    {before after : StructDeclaration} (grown : before.Grown after) {span : Span} {indices : List Nat}
    (kept : line.KeptBy before.fields (.verbatim span indices)) :
    let edits := indices.filterMap fun index => after.fields[index]?.bind Field.tagEdit?
    Edit.Fit span.start (span.start + (Text.slice source span).length) edits ∧
      ∀ edit ∈ edits, ∀ comment ∈ commentsOf trees,
        comment.stop.offset ≤ edit.span.start ∨ edit.span.stop ≤ comment.start.offset := by
  obtain ⟨known, inside⟩ := kept
  obtain ⟨fields, same, found⟩ := StructDeclaration.fields_at grown.field known
  rw [tagEdits_of_fields found]
  refine tagEdits_fit parsed same (fun node held => placed.within node (List.mem_filter.1 held).1)
    (placed.ordered.sublist List.filter_sublist) (Nat.le_add_right span.start _) ?_
  intro node held
  have among := (List.mem_filter.1 held).1
  have bounds := inside node among
  have stop := ((placed.within node among).partOf parsed).stands.stop_le
  simp only [Span.Inside, Located.span] at bounds
  rw [Text.slice, List.length_take, List.length_drop]
  omega

/-- A line that is kept keeps its comments. -/
theorem renderVerbatim_scattered {line : ItemLine} (placed : line.Placed trees)
    {before after : StructDeclaration} (grown : before.Grown after) {span : Span} {indices : List Nat}
    (kept : line.KeptBy before.fields (.verbatim span indices)) :
    Scattered (line.comments.map Located.trimmed) (after.renderVerbatim source span indices) := by
  obtain ⟨fit, apart⟩ := verbatimEdits_fit parsed placed grown kept
  have among : ∀ comment ∈ line.comments, comment ∈ commentsOf trees ∧ comment.span.Inside span := by
    intro comment held
    obtain ⟨known, item, present, inner⟩ := placed.comment_inside held
    exact ⟨known, inner.trans (kept.2 item present)⟩
  refine (Edit.replaceAll_spliced_at fit).scattered ?_ placed.comments_ordered ?_
  · intro comment held
    exact (standsIn_of_mem_commentsOf parsed (among comment held).1).standsAt_slice (among comment held).2
  · intro edit made
    exact Edit.keeps_of_apart (fun comment held => comment_proper parsed (among comment held).1)
      fun comment held => apart edit made comment (among comment held).1

/-- A line of a body has the comments of its items, but for those that its field does not copy. -/
theorem line_scattered {line : ItemLine} (placed : line.Placed trees)
    {before after : StructDeclaration} (grown : before.Grown after) {body : BodyLine}
    (held : line.KeptBy before.fields body) {text : Text} (written : after.Writes source body text)
    {kept : List Located} (part : kept.Sublist line.comments)
    (copied : line.isFieldLine → ∀ comment ∈ kept, comment ∈ line.first.comments →
      line.first.Copies comment) :
    Scattered (kept.map Located.trimmed) text := by
  cases body with
  | blank => cases held
  | field index comment => exact written_scattered placed grown held written part (copied held.1)
  | verbatim span indices =>
    cases written
    exact (renderVerbatim_scattered parsed placed grown held).sublist (part.map _)

/-- Line by line, what is written has the comments of the lines. -/
theorem lines_scattered {before after : StructDeclaration} (grown : before.Grown after)
    {lines : List ItemLine} (placed : ∀ line ∈ lines, line.Placed trees) {bodies extra : List BodyLine}
    (held : List.Forall₂ (ItemLine.KeptBy before.fields) lines (bodies.filter (· ≠ .blank)))
    {written : List Text} (writes : List.Forall₂ (after.Writes source) (bodies ++ extra) written)
    {kept : List Located} (part : kept.Sublist (lines.flatMap ItemLine.comments))
    (copied : ∀ line ∈ lines, line.isFieldLine → ∀ comment ∈ kept, comment ∈ line.first.comments →
      line.first.Copies comment) :
    ∃ groups, List.Forall₂ Scattered groups written ∧ groups.flatten = kept.map Located.trimmed := by
  induction bodies generalizing lines written kept with
  | nil =>
    cases held
    cases List.eq_nil_of_sublist_nil part
    refine ⟨written.map fun _ => [], ?_, by simp⟩
    rw [List.forall₂_map_left_iff, List.forall₂_same]
    exact fun text _ => .nil text
  | cons body bodies ih =>
    cases writes with
    | @cons _ text _ written here below =>
      by_cases blank : body = .blank
      · rw [List.filter_cons_of_neg (by simp [blank])] at held
        obtain ⟨groups, scattered, all⟩ := ih placed held below part copied
        exact ⟨[] :: groups, .cons (.nil text) scattered, all⟩
      · rw [List.filter_cons_of_pos (by simp [blank])] at held
        cases held with
        | @cons line _ lines _ own others =>
          obtain ⟨first, rest, rfl, inner, outer⟩ := List.sublist_append_iff.1 part
          obtain ⟨groups, scattered, all⟩ :=
            ih (fun other inside => placed other (List.mem_cons_of_mem line inside)) others below outer
              fun other inside single comment among => copied other (List.mem_cons_of_mem line inside)
                single comment (List.mem_append_right first among)
          refine ⟨first.map Located.trimmed :: groups, .cons ?_ scattered, by simp [all]⟩
          exact line_scattered parsed (placed line List.mem_cons_self) grown own here inner
            fun single comment among => copied line List.mem_cons_self single comment
              (List.mem_append_left rest among)

end Parsed

/-- Empty lines at the two ends hold nothing. -/
theorem scattered_shown {groups : List (List Text)} {written shown : List Text} {top bottom : Nat}
    (scattered : List.Forall₂ Scattered groups written)
    (ends : written = List.replicate top [] ++ shown ++ List.replicate bottom []) (separator : Text) :
    Scattered groups.flatten (Text.join separator shown) := by
  have empty {groups : List (List Text)} {count : Nat}
      (held : List.Forall₂ Scattered groups (List.replicate count [])) :
      Scattered groups.flatten [] := by
    induction count generalizing groups with
    | zero =>
      cases held
      exact .nil []
    | succ count ih =>
      cases held with
      | cons first others => exact first.append (ih others)
  subst ends
  have front := List.forall₂_take_append _ _ _ scattered
  have back := List.forall₂_drop_append _ _ _ scattered
  have top := List.forall₂_take_append _ _ _ front
  have middle := List.forall₂_drop_append _ _ _ front
  have all := ((empty top).append (Scattered.join middle separator)).append (empty back)
  rw [← List.flatten_append, List.take_append_drop, ← List.flatten_append, List.take_append_drop,
    List.nil_append, List.append_nil] at all
  exact all

/-! ### Bodies in the source -/

theorem exists_left_of_forall₂ {α β : Type} {related : α → β → Prop} {lefts : List α}
    {rights : List β} (all : List.Forall₂ related lefts rights) :
    ∀ right ∈ rights, ∃ left ∈ lefts, related left right := by
  induction all with
  | nil =>
    intro right inside
    cases inside
  | cons here _ later =>
    intro right inside
    rcases List.mem_cons.1 inside with rfl | inside
    · exact ⟨_, List.mem_cons_self, here⟩
    · obtain ⟨left, held, known⟩ := later right inside
      exact ⟨left, List.mem_cons_of_mem _ held, known⟩

/-- A struct as it was read from the node of its type and the list of its fields. -/
structure StructDeclaration.ReadFrom (trees : List Tree) (struct : StructDeclaration)
    (type list : Located) : Prop where
  within : Located.Within (Located.sideBySide {} trees) type
  isStruct : type.isNode .struct
  listed : type.node? .fieldList = some list
  keywordEnd : struct.body.keywordEnd = type.start.offset + "struct".length
  opening : struct.body.opening = list.start.offset + 1
  closing : struct.body.closing = list.stop.offset - 1
  numbered : struct.Numbered
  lines : List.Forall₂ (ItemLine.KeptBy struct.fields) (ItemLine.divide (fieldItems list))
    (struct.body.lines.filter (· ≠ .blank))

theorem within_of_mem_typeSpecs {trees : List Tree} {spec : Located}
    (inside : spec ∈ typeSpecs (Located.sideBySide {} trees)) :
    Located.Within (Located.sideBySide {} trees) spec := by
  obtain ⟨declaration, among, child⟩ := List.mem_flatMap.1 inside
  exact (Located.Within.root (List.mem_filter.1 among).1).child (List.mem_filter.1 child).1

theorem ofSpec?_readFrom {source : Text} {trees : List Tree} {spec : Located}
    (inside : spec ∈ typeSpecs (Located.sideBySide {} trees)) {struct : StructDeclaration}
    (read : StructDeclaration.ofSpec? source spec = some struct) :
    ∃ type list, structNode? spec = some type ∧ struct.ReadFrom trees type list := by
  have numbered := (ofSpec?_keepsItems read).1
  simp only [StructDeclaration.ofSpec?, Option.bind_eq_bind, Option.bind_eq_some_iff] at read
  obtain ⟨name, _, type, found, list, listed, made⟩ := read
  cases made
  obtain ⟨holder, outer, inner, isStruct⟩ := structNode?_eq_some found
  have within := ((within_of_mem_typeSpecs inside).child outer).child inner
  exact ⟨type, list, found, within, isStruct, listed, rfl, rfl, rfl, numbered,
    fieldLines_keep source list⟩

namespace StructDeclaration.ReadFrom

variable {source : Text} {trees : List Tree} (parsed : Go.parse? source = some trees)
  {struct : StructDeclaration} {type list : Located} (read : struct.ReadFrom trees type list)
include read

theorem list_within : Located.Within (Located.sideBySide {} trees) list :=
  read.within.child (Located.mem_of_node? read.listed).1

include parsed

theorem list_shape :
    ∃ middle, list.tree = .node .fieldList
      (.leaf .token ['\x7b'] :: (middle ++ [.leaf .token ['\x7d']])) := by
  obtain ⟨children, same⟩ := Located.isNode_iff.1 (Located.mem_of_node? read.listed).2
  obtain ⟨middle, rfl⟩ :=
    Go.fieldList_children parsed (same ▸ (read.list_within.partOf parsed).occurs)
  exact ⟨middle, same⟩

/-- The comments of a body are those of its lines. -/
theorem comments_eq :
    list.comments = (ItemLine.divide (fieldItems list)).flatMap ItemLine.comments := by
  obtain ⟨middle, same⟩ := read.list_shape parsed
  refine ItemLine.comments_of_lines same fun kind inner inside => ?_
  exact Go.fieldList_nodes parsed (same ▸ (read.list_within.partOf parsed).occurs) inside

/-- Between the word `struct` and the brace no comment starts before the word ends. -/
theorem behind_keyword {comment : Located} (among : comment ∈ commentsOf trees)
    (before : comment.stop.offset ≤ list.start.offset) :
    comment.stop.offset ≤ struct.body.keywordEnd ∨
      struct.body.keywordEnd ≤ comment.start.offset := by
  have proper := comment_proper parsed among
  obtain ⟨children, same⟩ := Located.isNode_iff.1 read.isStruct
  obtain ⟨between, fields, _, rfl⟩ :=
    Go.struct_children parsed (same ▸ (read.within.partOf parsed).occurs)
  have bounds := (read.within.partOf parsed).stands.child_bounds (Located.mem_of_node? read.listed).1
  rw [read.keywordEnd]
  rcases read.within.mem_comments among with first | own | last
  · exact .inl (by omega)
  · exact .inr (Located.behind_first_token same own)
  · omega

/-- The edit of a body has the comments of the body in its span, and cuts no other. -/
theorem bodyEdit_covers {after : StructDeclaration} (grown : struct.Grown after) {comment : Located}
    (among : comment ∈ commentsOf trees) :
    comment.stop.offset ≤ (after.bodyEdit source).span.start ∨
      (after.bodyEdit source).span.stop ≤ comment.start.offset ∨
      comment ∈ list.comments ∧ (after.bodyEdit source).covers comment := by
  have proper := comment_proper parsed among
  obtain ⟨middle, same⟩ := read.list_shape parsed
  obtain ⟨extra, body⟩ := grown.body
  have places : after.body.keywordEnd = struct.body.keywordEnd ∧
      after.body.opening = list.start.offset + 1 ∧ after.body.closing = list.stop.offset - 1 := by
    rw [body]
    exact ⟨rfl, read.opening, read.closing⟩
  obtain ⟨keywordEnd, opening, closing⟩ := places
  have keyword : struct.body.keywordEnd ≤ list.start.offset := by
    rw [read.keywordEnd]
    exact (text_of_struct parsed (read.within.partOf parsed) read.isStruct read.listed).2
  have stop : (after.bodyEdit source).span.stop = list.stop.offset - 1 := by
    rw [StructDeclaration.bodyEdit]
    split <;> exact closing
  have start : (after.bodyEdit source).span.start ≤ list.start.offset + 1 := by
    rw [StructDeclaration.bodyEdit]
    split
    · simp only
      omega
    · exact Nat.le_of_eq opening
  rcases read.list_within.mem_comments among with before | own | behind
  · left
    rw [StructDeclaration.bodyEdit]
    split
    next blank =>
      dsimp only
      rcases read.behind_keyword parsed among before with first | inner
      · omega
      · -- A comment is not blank, so there is none in a gap of blanks.
        obtain ⟨rest, text⟩ := comment_starts parsed among
        have held : comment.span.Inside ⟨after.body.keywordEnd, after.body.opening - 1⟩ := by
          simp only [Span.Inside, Located.span]
          omega
        obtain ⟨front, back, parts, _⟩ :=
          (standsIn_of_mem_commentsOf parsed among).standsAt_slice held
        have all := blank.2
        rw [parts, text] at all
        simp [Text.isBlank] at all
    next =>
      dsimp only
      omega
  · have first := Located.behind_first_token same own
    rw [← List.cons_append] at same
    have last := Located.before_last_token same read.list_within.stop_eq own
    simp only [List.length_singleton] at first last
    refine .inr (.inr ⟨own, Edit.covers_iff.2 ⟨?_, ?_⟩⟩)
    · omega
    · omega
  · right
    left
    omega

/-- A body that is written again has the comments of its lines, but for those that a field does not
copy. -/
theorem bodyEdit_scattered {after : StructDeclaration} (grown : struct.Grown after)
    {kept : List Located} (part : kept.Sublist list.comments)
    (copied : ∀ line ∈ ItemLine.divide (fieldItems list), line.isFieldLine →
      ∀ comment ∈ kept, comment ∈ line.first.comments → line.first.Copies comment) :
    Scattered (kept.map Located.trimmed) (after.bodyEdit source).text := by
  obtain ⟨written, shown, top, bottom, writes, ends, front, whole⟩ :=
    ((grown.numbered read.numbered).writesFields source).lines
  obtain ⟨extra, body⟩ := grown.body
  rw [body] at writes
  rw [read.comments_eq parsed] at part
  obtain ⟨groups, scattered, all⟩ :=
    lines_scattered parsed grown
      (fun _ => ItemLine.placed_of_mem_divide read.list_within) read.lines writes part copied
  rw [← all, ← whole]
  apply Scattered.prepend
  exact (((scattered_shown scattered ends _).prepend _).extend _).extend _

end StructDeclaration.ReadFrom

end GoGraft
