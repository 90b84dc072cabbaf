import GoGraft.Proofs.Places
import GoGraft.Source.Render
import Mathlib.Data.List.SplitBy

/-! Where the parts of a file stand that changes are made in. The body of a struct lies between the
word `struct` and the closing brace, the bodies follow one another, and the place for new imports
is in the first import declaration or, if there is none, at the end of a line. -/

namespace GoGraft

/-- A span that starts before it stops and does not leave another. -/
def Span.Inside (inner outer : Span) : Prop :=
  outer.start ≤ inner.start ∧ inner.start ≤ inner.stop ∧ inner.stop ≤ outer.stop

theorem Span.Inside.trans {one two three : Span} (first : one.Inside two)
    (second : two.Inside three) : one.Inside three := by
  simp only [Span.Inside] at *
  omega

theorem Located.StandsIn.child_inside {source : Text} {parent child : Located}
    (stands : parent.StandsIn source) (inside : child ∈ parent.children) :
    child.span.Inside parent.span :=
  stands.child_bounds inside

/-! ### Lines of items -/

namespace ItemLine

theorem items_divide (items : List Located) : (divide items).flatMap ItemLine.items = items := by
  refine Eq.trans ?_ (List.flatten_splitBy (fun one next => one.stop.row == next.start.row) items)
  unfold divide
  generalize List.splitBy _ items = groups
  induction groups with
  | nil => rfl
  | cons group rest ih =>
    cases group with
    | nil => simpa using ih
    | cons first others => simpa [ItemLine.items] using ih

theorem last_mem_items (line : ItemLine) : line.last ∈ line.items :=
  List.getLastD_mem_cons

theorem items_subset {items : List Located} {line : ItemLine} (inside : line ∈ divide items) :
    line.items ⊆ items := by
  intro item held
  rw [← items_divide items]
  exact List.mem_flatMap.2 ⟨line, inside, held⟩

section Ordered

variable {items : List Located}
  (ordered : items.Pairwise fun one other => one.stop.offset ≤ other.start.offset)
include ordered

theorem divide_ordered :
    (divide items).Pairwise fun one other => one.span.stop ≤ other.span.start := by
  rw [← items_divide items, List.pairwise_flatMap] at ordered
  refine ordered.2.imp ?_
  intro one other apart
  exact apart one.last one.last_mem_items other.first List.mem_cons_self

theorem items_ordered {line : ItemLine} (inside : line ∈ divide items) :
    line.items.Pairwise fun one other => one.stop.offset ≤ other.start.offset := by
  rw [← items_divide items, List.pairwise_flatMap] at ordered
  exact ordered.1 line inside

theorem span_divide (proper : ∀ item ∈ items, item.start.offset ≤ item.stop.offset)
    {line : ItemLine} (inside : line ∈ divide items) : line.span.start ≤ line.span.stop := by
  have own := items_ordered ordered inside
  have first := proper line.first (items_subset inside List.mem_cons_self)
  have last := proper line.last (items_subset inside line.last_mem_items)
  simp only [ItemLine.span]
  rcases List.mem_cons.1 line.last_mem_items with same | later
  · rwa [same]
  · have apart := (List.pairwise_cons.1 own).1 line.last later
    omega

end Ordered

end ItemLine

/-! ### Bodies -/

/-- Where a body stands: the ends of the word `struct` and of the opening brace, and the closing
brace. -/
structure BodyPlaces where
  keywordEnd : Nat
  opening : Nat
  closing : Nat

def StructBody.places (body : StructBody) : BodyPlaces :=
  ⟨body.keywordEnd, body.opening, body.closing⟩

/-- The source has the word and the braces of a body at their places. -/
structure BodyPlaces.StandIn (source : Text) (places : BodyPlaces) : Prop where
  keyword : ∃ front back, source = front ++ "struct".toList ++ back ∧
    places.keywordEnd = front.length + "struct".length
  opened : places.keywordEnd < places.opening
  ordered : places.opening ≤ places.closing
  openingBrace : source[places.opening - 1]? = some '\x7b'
  closingBrace : source[places.closing]? = some '\x7d'

theorem structNode?_eq_some {spec type : Located} (found : structNode? spec = some type) :
    ∃ holder ∈ spec.children, type ∈ holder.children ∧ type.isNode .struct := by
  rw [structNode?] at found
  split at found
  next other holding =>
    obtain ⟨holder, held, same⟩ := Option.map_eq_some_iff.1 holding
    split at found
    next struct =>
      cases found
      exact ⟨holder, (Located.mem_of_node? held).1, by simp [same], struct⟩
    next => cases found
  next => cases found

theorem text_of_list {source : Text} {trees : List Go.Tree} {list : Located}
    (part : list.PartOf source trees) {kind : Go.NodeKind} {opening closing : Char}
    (node : list.isNode kind)
    (shape : ∀ children, (Go.Tree.node kind children).Occurs trees →
      ∃ middle, children = .leaf .token [opening] :: (middle ++ [.leaf .token [closing]])) :
    ∃ middle, list.text = opening :: (middle ++ [closing]) := by
  obtain ⟨children, same⟩ := Located.isNode_iff.1 node
  obtain ⟨middle, rfl⟩ := shape children (same ▸ part.occurs)
  refine ⟨Go.Tree.textOfAll middle, ?_⟩
  simp [Located.text, same, Go.Tree.text, Go.Tree.textOfAll]

/-- The type specifications at the top level. -/
def typeSpecs (roots : List Located) : List Located :=
  (roots.filter (Located.isNode .typeDeclaration)).flatMap fun declaration =>
    declaration.nodes .typeSpec

section Parsed

variable {source : Text} {trees : List Go.Tree} (parsed : Go.parse? source = some trees)
include parsed

theorem text_of_struct {type : Located} (part : type.PartOf source trees)
    (struct : type.isNode .struct) {list : Located} (found : type.node? .fieldList = some list) :
    (∃ rest, type.text = "struct".toList ++ rest) ∧
      type.start.offset + "struct".length ≤ list.start.offset := by
  obtain ⟨children, same⟩ := Located.isNode_iff.1 struct
  obtain ⟨between, fields, _, rfl⟩ := Go.struct_children parsed (same ▸ part.occurs)
  obtain ⟨inside, kind⟩ := Located.mem_of_node? found
  constructor
  · exact ⟨Go.Tree.textOfAll (between ++ [.node .fieldList fields]), by
      rw [Located.text, same, Go.Tree.text, Go.Tree.textOfAll, Go.Tree.text]⟩
  · rw [Located.children, same] at inside
    rcases List.mem_cons.1 inside with rfl | later
    · cases kind
    · exact (Located.bounds_of_mem_sideBySide later).1

theorem places_ofSpec? {spec : Located} (part : spec.PartOf source trees)
    {struct : StructDeclaration} (read : StructDeclaration.ofSpec? source spec = some struct) :
    struct.body.places.StandIn source ∧ spec.start.offset < struct.body.places.keywordEnd ∧
      struct.body.places.closing < spec.stop.offset := by
  simp only [StructDeclaration.ofSpec?, Option.bind_eq_bind, Option.bind_eq_some_iff] at read
  obtain ⟨name, _, type, found, list, listed, made⟩ := read
  cases made
  obtain ⟨holder, outer, inner, struct⟩ := structNode?_eq_some found
  have held := part.child outer
  have typePart := held.child inner
  obtain ⟨inside, kind⟩ := Located.mem_of_node? listed
  have listPart := typePart.child inside
  obtain ⟨⟨rest, typeText⟩, behind⟩ := text_of_struct parsed typePart struct listed
  obtain ⟨middle, listText⟩ := text_of_list listPart kind
    fun _ occurs => Go.fieldList_children parsed occurs
  have length : list.text.length = middle.length + 2 := by simp [listText]
  have outerBounds := part.stands.child_bounds outer
  have innerBounds := held.stands.child_bounds inner
  have listBounds := typePart.stands.child_bounds inside
  have stop := listPart.stands.stop_eq
  have closing : list.stop.offset - 1 = list.start.offset + (middle.length + 1) := by omega
  refine ⟨⟨?_, ?_, ?_, ?_, ?_⟩, ?_, ?_⟩
  · obtain ⟨front, back, parts, start, _⟩ := typePart.stands
    refine ⟨front, rest ++ back, by simp [parts, typeText], ?_⟩
    simp [StructBody.places, start, Place.after]
  · simp only [StructBody.places]
    omega
  · simp only [StructBody.places]
    omega
  · simp only [StructBody.places, Nat.add_sub_cancel]
    have first := @Located.StandsIn.getElem?_eq source list listPart.stands 0 (by omega)
    simpa [listText] using first
  · simp only [StructBody.places]
    rw [closing, listPart.stands.getElem?_eq (by omega)]
    simp [listText]
  · simp only [StructBody.places]
    have : "struct".length = 6 := rfl
    omega
  · simp only [StructBody.places]
    omega

theorem spec_partOf {spec : Located} (inside : spec ∈ typeSpecs (Located.sideBySide {} trees)) :
    spec.PartOf source trees ∧
      ∃ declaration ∈ Located.sideBySide {} trees, declaration.isNode .typeDeclaration ∧
        spec.span.Inside declaration.span := by
  obtain ⟨declaration, among, child⟩ := List.mem_flatMap.1 inside
  obtain ⟨root, kind⟩ := List.mem_filter.1 among
  have part := Located.partOf_roots parsed declaration root
  have held := (List.mem_filter.1 child).1
  exact ⟨part.child held, declaration, root, kind, part.stands.child_bounds held⟩

theorem typeSpecs_ordered :
    (typeSpecs (Located.sideBySide {} trees)).Pairwise fun one other =>
      one.stop.offset ≤ other.start.offset := by
  have part := Located.partOf_roots parsed
  refine List.pairwise_flatMap.2 ⟨?_, ?_⟩
  · intro declaration _
    exact declaration.children_ordered.filter _
  · refine ((Located.sideBySide_ordered {} trees).filter _).imp_of_mem ?_
    intro one other among inside before spec held next later
    have first := part one (List.mem_filter.1 among).1
    have second := part other (List.mem_filter.1 inside).1
    have bounds := first.stands.child_bounds (List.mem_filter.1 held).1
    have others := second.stands.child_bounds (List.mem_filter.1 later).1
    omega

theorem structs_stand {struct : StructDeclaration}
    (inside : struct ∈ structsOfRoots source (Located.sideBySide {} trees)) :
    struct.body.places.StandIn source ∧
      ∃ declaration ∈ Located.sideBySide {} trees, declaration.isNode .typeDeclaration ∧
        declaration.start.offset < struct.body.places.keywordEnd ∧
        struct.body.places.closing < declaration.stop.offset := by
  obtain ⟨spec, held, read⟩ := List.mem_filterMap.1 inside
  obtain ⟨part, declaration, root, kind, bounds⟩ := spec_partOf parsed held
  obtain ⟨stand, start, stop⟩ := places_ofSpec? parsed part read
  simp only [Span.Inside, Located.span] at bounds
  exact ⟨stand, declaration, root, kind, by omega, by omega⟩

theorem structs_ordered :
    (structsOfRoots source (Located.sideBySide {} trees)).Pairwise fun one other =>
      one.body.places.closing < other.body.places.keywordEnd := by
  refine List.pairwise_filterMap.2 ((typeSpecs_ordered parsed).imp_of_mem ?_)
  intro one other among inside before struct read next readNext
  have first := places_ofSpec? parsed (spec_partOf parsed among).1 read
  have second := places_ofSpec? parsed (spec_partOf parsed inside).1 readNext
  omega

end Parsed

/-! ### Imports -/

/-- Where edits for imports are made: in the first import declaration, or at the place for one. -/
def importRange (source : Text) (roots : List Located) : Span :=
  match roots.find? (Located.isNode .importDeclaration) with
  | some declaration => declaration.span
  | none => ⟨importPlace source roots, importPlace source roots⟩

theorem lastRun_suffix (lines : List ImportLine) : ImportLine.lastRun lines <:+ lines := by
  fun_induction ImportLine.lastRun lines with
  | case1 one other rest run whole ih =>
    have same : run = other :: rest := ih.eq_of_length whole.1
    exact same ▸ List.suffix_refl _
  | case2 one other rest run whole ih => exact ih.trans (List.suffix_cons _ _)
  | case3 => exact List.suffix_refl _

theorem groupEdit_inside {source : Text} {opening closing : Nat} {indent : Text}
    {lines : List ImportLine} {added : List ImportEntry} {bounds : Span}
    (brackets : Span.Inside ⟨opening, closing⟩ bounds)
    (ordered : lines.Pairwise fun one other => one.span.stop ≤ other.span.start)
    (inside : ∀ line ∈ lines, line.span.Inside bounds) :
    (groupEdit source opening closing indent lines added).span.Inside bounds := by
  rw [groupEdit]
  split
  next => exact brackets
  next first rest run =>
    have suffix : first :: rest <:+ lines := run ▸ lastRun_suffix lines
    have last_mem : rest.getLastD first ∈ first :: rest := List.getLastD_mem_cons
    have firstInside := inside first (suffix.subset List.mem_cons_self)
    have lastInside := inside _ (suffix.subset last_mem)
    have order : first.span.start ≤ (rest.getLastD first).span.stop := by
      rcases List.mem_cons.1 last_mem with same | later
      · rw [same]
        exact firstInside.2.1
      · have apart := (List.pairwise_cons.1 (ordered.sublist suffix.sublist)).1 _ later
        simp only [Span.Inside] at firstInside lastInside
        omega
    simp only [Span.Inside] at firstInside lastInside ⊢
    split
    · dsimp only
      omega
    · dsimp only
      omega

theorem ofDeclaration?_eq_some {source : Text} {declaration : Located} {anchor : ImportAnchor}
    (found : ImportAnchor.ofDeclaration? source declaration = some anchor) :
    (∃ spec ∈ declaration.children, spec.isNode .importSpec ∧
      anchor = .single declaration.span spec.text ((importPath? spec).getD [])) ∨
      ∃ list ∈ declaration.children, list.isNode .importList ∧ anchor = .ofGroup source list := by
  obtain ⟨child, inside, offered⟩ := List.exists_of_findSome?_eq_some found
  split at offered
  next kind =>
    cases offered
    exact .inl ⟨child, inside, kind, rfl⟩
  · split at offered
    next kind =>
      cases offered
      exact .inr ⟨child, inside, kind, rfl⟩
    next => cases offered

section Anchor

variable {source : Text} {trees : List Go.Tree} (parsed : Go.parse? source = some trees)
include parsed

/-- Every import declaration offers a place. -/
theorem ofDeclaration?_isSome {declaration : Located} (part : declaration.PartOf source trees)
    (kind : declaration.isNode .importDeclaration) :
    (ImportAnchor.ofDeclaration? source declaration).isSome := by
  obtain ⟨children, same⟩ := Located.isNode_iff.1 kind
  obtain ⟨between, kind, inner, either, _, rfl⟩ :=
    Go.importDeclaration_children parsed (same ▸ part.occurs)
  rw [ImportAnchor.ofDeclaration?, List.findSome?_isSome_iff]
  have last : ∃ child ∈ declaration.children, child.tree = .node kind inner := by
    rw [Located.children, same, ← List.cons_append]
    simp only [Located.sideBySide_append]
    exact ⟨_, List.mem_append_right _ List.mem_cons_self, rfl⟩
  obtain ⟨child, inside, tree⟩ := last
  refine ⟨child, inside, ?_⟩
  rcases either with rfl | rfl
  · simp [Located.isNode, tree]
  · simp [Located.isNode, tree]

omit parsed in
/-- The lines of a group stand in the group. -/
theorem groupLines_inside {list : Located} (part : list.PartOf source trees) :
    ∀ line ∈ (ItemLine.divide (importItems list)).map ImportLine.ofItems,
      line.span.Inside list.span := by
  have child {item : Located} (inside : item ∈ importItems list) : item.span.Inside list.span :=
    part.stands.child_inside (List.mem_filter.1 inside).1
  intro line inside
  obtain ⟨items, held, rfl⟩ := List.mem_map.1 inside
  have first := child (ItemLine.items_subset held List.mem_cons_self)
  have last := child (ItemLine.items_subset held items.last_mem_items)
  have order := ItemLine.span_divide (list.children_ordered.filter _)
    (fun item among => (child among).2.1) held
  exact ⟨first.1, order, last.2.2⟩

theorem ofGroup_inside {list : Located} (part : list.PartOf source trees)
    (kind : list.isNode .importList) {imports : ImportSection}
    (anchored : imports.anchor = .ofGroup source list) {edit : Edit}
    (made : imports.edit? source = some edit) : edit.span.Inside list.span := by
  rw [ImportSection.edit?, anchored, ImportAnchor.ofGroup] at made
  dsimp only at made
  split at made
  · cases made
  · cases made
    apply groupEdit_inside
    · obtain ⟨middle, text⟩ := text_of_list part kind
        fun _ occurs => Go.importList_children parsed occurs
      have stop := part.stands.stop_eq
      simp only [text, List.length_cons, List.length_append, List.length_nil] at stop
      simp only [Span.Inside, Located.span]
      omega
    · exact List.pairwise_map.2 (ItemLine.divide_ordered (list.children_ordered.filter _))
    · exact groupLines_inside part

/-- The place for imports: in the first import declaration, or behind the package clause. -/
theorem anchor_ofRoots :
    match (Located.sideBySide {} trees).find? (Located.isNode .importDeclaration) with
    | none => (ImportSection.ofRoots source (Located.sideBySide {} trees)).anchor =
        .absent (importPlace source (Located.sideBySide {} trees))
    | some declaration => ImportAnchor.ofDeclaration? source declaration =
        some (ImportSection.ofRoots source (Located.sideBySide {} trees)).anchor := by
  simp only [ImportSection.ofRoots]
  split
  next found =>
    have nothing : (Located.sideBySide {} trees).filter (Located.isNode .importDeclaration) = [] := by
      rw [List.filter_eq_nil_iff]
      exact List.find?_eq_none.1 found
    rw [nothing]
    rfl
  next declaration found =>
    have part := Located.partOf_roots parsed declaration (List.mem_of_find?_eq_some found)
    obtain ⟨anchor, offered⟩ :=
      Option.isSome_iff_exists.1 (ofDeclaration?_isSome parsed part (List.find?_some found))
    -- The first declaration already offers a place, so the anchor is looked for no further.
    rw [← List.head?_filter, List.head?_eq_some_iff] at found
    obtain ⟨rest, filtered⟩ := found
    rw [filtered, List.findSome?_cons, offered]
    rfl

theorem importEdit_inside {imports : ImportSection}
    (anchored : imports.anchor =
      (ImportSection.ofRoots source (Located.sideBySide {} trees)).anchor) {edit : Edit}
    (made : imports.edit? source = some edit) :
    edit.span.Inside (importRange source (Located.sideBySide {} trees)) := by
  have offered := anchor_ofRoots parsed
  rw [← anchored] at offered
  rw [importRange]
  cases found : (Located.sideBySide {} trees).find? (Located.isNode .importDeclaration) with
  | none =>
    rw [found] at offered
    rw [ImportSection.edit?, offered] at made
    dsimp only at made
    split at made
    · cases made
    · cases made
      exact ⟨Nat.le_refl _, Nat.le_refl _, Nat.le_refl _⟩
  | some declaration =>
    rw [found] at offered
    have part := Located.partOf_roots parsed declaration (List.mem_of_find?_eq_some found)
    rcases ofDeclaration?_eq_some offered with ⟨spec, _, _, single⟩ | ⟨list, inside, kind, group⟩
    · rw [ImportSection.edit?, single] at made
      dsimp only at made
      split at made
      · cases made
      · cases made
        have stop := part.stands.stop_eq
        exact ⟨Nat.le_refl _, by simp only [Located.span]; omega, Nat.le_refl _⟩
    · have held := ofGroup_inside parsed (part.child inside) kind group made
      exact held.trans (part.stands.child_inside inside)

end Anchor

end GoGraft
