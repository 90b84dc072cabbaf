import GoGraft.Proofs.CommentSurvival
import GoGraft.Proofs.FilePreamble
import GoGraft.Proofs.ImportLines

/-! Groups of imports with lines added to them. The items of a group are cut into lines, and new lines
go to the last run of lines: what is written there is read with the paths that the group had and with
the new ones. -/

namespace GoGraft

open Go (Tree Laid Slot ImportTree IsLine EndsList Closes isTail isBlank isLegalPath pass_blanks)
open Go.Lexeme (isLineComment isSpace)

/-! ### Stretches of trees -/

theorem filter_eq_append_cons {α : Type} {keep : α → Bool} {items front back : List α} {item : α}
    (parts : items.filter keep = front ++ item :: back) :
    ∃ before behind, items = before ++ item :: behind ∧ before.filter keep = front ∧
      behind.filter keep = back := by
  obtain ⟨one, two, rfl, first, later⟩ := List.filter_eq_append_iff.1 parts
  obtain ⟨gap, behind, rfl, dropped, _, last⟩ := List.filter_eq_cons_iff.1 later
  refine ⟨one ++ gap, behind, by simp, ?_, last⟩
  rw [List.filter_append, first, List.filter_eq_nil_iff.2 dropped, List.append_nil]

/-- Neighbours among the kept items are the kept ones of a stretch that starts and stops with them. -/
theorem exists_stretch {α : Type} {keep : α → Bool} {items front middle back : List α}
    (parts : items.filter keep = front ++ middle ++ back) (filled : middle ≠ []) :
    ∃ before stretch behind, items = before ++ stretch ++ behind ∧ before.filter keep = front ∧
      stretch.filter keep = middle ∧ behind.filter keep = back ∧
      stretch.head? = middle.head? ∧ stretch.getLast? = middle.getLast? := by
  obtain ⟨first, rest, rfl⟩ := List.exists_cons_of_ne_nil filled
  have ends := List.dropLast_append_getLast filled
  generalize (first :: rest).getLast filled = last, (first :: rest).dropLast = init at ends
  rw [← ends, ← List.append_assoc, List.append_assoc _ [last], List.singleton_append] at parts
  obtain ⟨upTo, behind, rfl, kept, later⟩ := filter_eq_append_cons parts
  have own : keep last := by
    have held : last ∈ (upTo ++ last :: behind).filter keep := by simp [parts]
    exact (List.mem_filter.1 held).2
  have most : (upTo ++ [last]).filter keep = front ++ first :: rest := by
    rw [List.filter_append, kept, List.append_assoc, ← ends]
    simp [own]
  obtain ⟨before, inner, split, outer, inside⟩ := filter_eq_append_cons most
  have lead : keep first := by
    have held : first ∈ (upTo ++ [last]).filter keep := by simp [most]
    exact (List.mem_filter.1 held).2
  refine ⟨before, first :: inner, behind, ?_, outer, ?_, later, rfl, ?_⟩
  · rw [← split]
    simp
  · rw [List.filter_cons_of_pos lead, inside]
  · have whole := congrArg List.getLast? split
    rw [List.getLast?_concat, List.getLast?_append_of_ne_nil _ (List.cons_ne_nil _ _)] at whole
    rw [← whole, ← ends, List.getLast?_concat]

namespace Located

theorem sideBySide_eq_append {place : Place} {trees : List Tree} {first second : List Located}
    (same : sideBySide place trees = first ++ second) :
    ∃ one two, trees = one ++ two ∧ first = sideBySide place one ∧
      second = sideBySide (place.after (Tree.textOfAll one)) two := by
  induction first generalizing place trees with
  | nil => exact ⟨[], trees, rfl, rfl, by simpa [Place.after, Tree.textOfAll] using same.symm⟩
  | cons located first ih =>
    cases trees with
    | nil => cases same
    | cons tree trees =>
      obtain ⟨rfl, rest⟩ := List.cons.inj same
      obtain ⟨one, two, rfl, rfl, rfl⟩ := ih rest
      exact ⟨tree :: one, two, rfl, rfl, by simp [Tree.textOfAll]⟩

theorem start_of_head? {place : Place} {trees : List Tree} {first : Located}
    (found : (sideBySide place trees).head? = some first) :
    first.start = place ∧ trees.head? = some first.tree := by
  cases trees with
  | nil => cases found
  | cons tree rest =>
    cases found
    exact ⟨rfl, rfl⟩

theorem stop_of_getLast? {place : Place} {trees : List Tree} {last : Located}
    (found : (sideBySide place trees).getLast? = some last) :
    last.stop = place.after (Tree.textOfAll trees) ∧ trees.getLast? = some last.tree := by
  cases trees using List.reverseRecOn with
  | nil => cases found
  | append_singleton trees tree =>
    rw [sideBySide_append, sideBySide, sideBySide, List.getLast?_concat] at found
    cases found
    exact ⟨by simp [Tree.textOfAll_append, Tree.textOfAll], List.getLast?_concat⟩

end Located

/-! ### Items of a group -/

/-- An import or a comment. -/
def Located.isImportItem (located : Located) : Bool :=
  located.isNode .importSpec || located.isComment

theorem Located.isNode_eq (kind : Go.NodeKind) (located : Located) :
    located.isNode kind = located.tree.isNode kind := by
  rw [Located.isNode]
  cases located.tree <;> rfl

theorem Located.find?_sideBySide (kind : Go.NodeKind) (place : Place) (trees : List Tree) :
    ((sideBySide place trees).find? (isNode kind)).map Located.tree =
      trees.find? (Tree.isNode kind) := by
  induction trees generalizing place with
  | nil => rfl
  | cons tree rest ih =>
    rw [sideBySide, List.find?_cons, List.find?_cons, isNode_eq]
    cases tree.isNode kind with
    | true => rfl
    | false => exact ih _

theorem importPath?_eq {spec : Located} (kind : spec.isNode .importSpec) :
    importPath? spec = spec.tree.importPath? := by
  obtain ⟨children, same⟩ := Located.isNode_iff.1 kind
  rw [importPath?, Located.node?, Located.children, same, Tree.importPath?,
    ← Located.find?_sideBySide _ spec.start, Option.map_map]
  rfl

theorem Located.isNode_of_path {located : Located} {path : Text}
    (known : located.tree.importPath? = some path) : located.isNode .importSpec := by
  rw [isNode]
  generalize located.tree = tree at known
  fun_cases Tree.importPath? tree with
  | case1 => rfl
  | case2 => rw [Tree.importPath?] at known <;> simp_all

/-- All paths are in the imports. -/
theorem filter_paths {keep : Located → Bool}
    (kept : ∀ located, located.isNode .importSpec → keep located) (place : Place)
    (trees : List Tree) :
    ((Located.sideBySide place trees).filter keep).filterMap (fun item => item.tree.importPath?) =
      Tree.specPaths trees := by
  unfold Tree.specPaths
  induction trees generalizing place with
  | nil => rfl
  | cons tree rest ih =>
    have rests := ih (place.after tree.text)
    rw [Located.sideBySide]
    cases item : keep ⟨tree, place, place.after tree.text⟩ with
    | true =>
      rw [List.filter_cons_of_pos item, List.filterMap_cons, rests, List.filterMap_cons]
    | false =>
      have none : tree.importPath? = none := by
        by_contra known
        obtain ⟨path, known⟩ := Option.ne_none_iff_exists'.1 known
        have spec := @Located.isNode_of_path ⟨tree, place, place.after tree.text⟩ path known
        rw [kept _ spec] at item
        cases item
      rw [List.filter_cons_of_neg (by simp [item]), rests, List.filterMap_cons, none]

theorem Located.isImportItem_of_spec (located : Located) (spec : located.isNode .importSpec) :
    located.isImportItem :=
  Bool.or_eq_true_iff.2 (.inl spec)

theorem specPaths_items (place : Place) (trees : List Tree) :
    ((Located.sideBySide place trees).filter Located.isImportItem).filterMap
      (fun item => item.tree.importPath?) = Tree.specPaths trees :=
  filter_paths Located.isImportItem_of_spec place trees

/-- A line whose path is known holds one import, and comments behind it. -/
theorem line_paths {line : ItemLine} {path : Text}
    (known : (ImportLine.ofItems line).path = some path) :
    line.first.isNode .importSpec ∧
      line.items.filterMap (fun item => item.tree.importPath?) = [path] := by
  simp only [ImportLine.ofItems] at known
  split at known
  next alone =>
    obtain ⟨_, spec, comments⟩ := alone
    refine ⟨spec, ?_⟩
    have none : line.rest.filterMap (fun item => item.tree.importPath?) = [] := by
      rw [List.filterMap_eq_nil_iff]
      intro item held
      have comment := List.all_eq_true.1 comments item held
      rw [Located.isComment] at comment
      split at comment
      next same => rw [same]; rfl
      next => cases comment
    rw [importPath?_eq spec] at known
    rw [ItemLine.items, List.filterMap_cons, known, none]
  next => cases known

theorem ImportTree.isImportItem {tree : Tree} {after : Text} (spec : ImportTree tree after)
    (start stop : Place) : Located.isImportItem ⟨tree, start, stop⟩ := by
  obtain ⟨path, known, _⟩ := spec
  exact Located.isImportItem_of_spec _ (@Located.isNode_of_path ⟨tree, start, stop⟩ path known)

/-- Without imports and comments there are only blanks and terminators. -/
theorem tail_of_laid {slot last : Slot} {trees : List Tree} {after : Text} {place : Place}
    (laid : Laid ImportTree slot trees after last)
    (none : (Located.sideBySide place trees).filter Located.isImportItem = []) :
    (∀ c ∈ Tree.textOfAll trees, isTail c) ∧
      ((∀ text, Tree.leaf .terminator text ∈ trees → text = ['\n']) →
        ∀ c ∈ Tree.textOfAll trees, isSpace c) := by
  induction laid generalizing place with
  | nil => exact ⟨List.forall_mem_nil _, fun _ => List.forall_mem_nil _⟩
  | @blank slot _ text _ _ blank _ ih =>
    rw [Located.sideBySide, List.filter_cons_of_neg Bool.false_ne_true] at none
    obtain ⟨tails, calm⟩ := ih none
    have space : ∀ c ∈ text, isSpace c :=
      fun c held => (Bool.and_eq_true_iff.1 (blank c held)).1
    rw [Tree.textOfAll, Tree.text]
    refine ⟨List.forall_mem_append.2 ⟨fun c held => ?_, tails⟩, fun lines =>
      List.forall_mem_append.2 ⟨space, calm fun text held => lines text (.tail _ held)⟩⟩
    exact Bool.or_eq_true_iff.2 (.inl (space c held))
  | comment => cases none
  | @terminator _ c _ _ ends _ ih =>
    rw [Located.sideBySide, List.filter_cons_of_neg Bool.false_ne_true] at none
    obtain ⟨tails, calm⟩ := ih none
    rw [Tree.textOfAll, Tree.text]
    refine ⟨List.forall_mem_append.2 ⟨List.forall_mem_singleton.2 ?_, tails⟩, fun lines =>
      List.forall_mem_append.2 ⟨?_, calm fun text held => lines text (.tail _ held)⟩⟩
    · exact Bool.or_eq_true_iff.2 (.inr ends)
    · rw [lines [c] List.mem_cons_self]
      exact List.forall_mem_singleton.2 rfl
  | @item _ kind children _ _ item _ _ =>
    rw [Located.sideBySide, List.filter_cons_of_pos (ImportTree.isImportItem item _ _)] at none
    cases none

/-- New lines may be put in front of the bracket of a list: no item stands on its row, or no comment
goes on to the end of its line and the new paths are strings. -/
def HasRoom (list : Located) (paths : List Text) : Prop :=
  (∀ item ∈ importItems list, item.stop.row < list.stop.row) ∨
    (∀ item ∈ importItems list, item.isComment → isLineComment item.text = false) ∧
      ∀ path ∈ paths, isLegalPath path

instance (list : Located) (paths : List Text) : Decidable (HasRoom list paths) :=
  inferInstanceAs (Decidable (_ ∨ _))

/-- In front of an import newlines are white space, and what is laid out there stays so if another
text is put in the place of the import. -/
theorem laid_before_spec {slot last : Slot} {before trees : List Tree} {after : Text}
    (laid : Laid ImportTree slot (before ++ trees) after last) {spec : Located}
    (kind : spec.isNode .importSpec) (head : trees.head? = some spec.tree) :
    (∀ other, Laid ImportTree slot before other .before) ∧
      Laid ImportTree .before trees after last := by
  obtain ⟨children, same⟩ := Located.isNode_iff.1 kind
  obtain ⟨more, rfl⟩ := List.head?_eq_some_iff.1 head
  rw [same] at laid ⊢
  obtain ⟨middle, front, back⟩ := laid.split
  cases back with
  | item item later =>
    refine ⟨fun other => ?_, .item item later⟩
    obtain ⟨_, _, whole⟩ := item
    obtain ⟨c, text, spelled, opens⟩ := whole.opens
    rw [Tree.textOfAll, spelled] at front
    refine front.changeCode ?_ other
    rintro rfl
    cases opens

theorem ItemLine.items_getLast? (line : ItemLine) : line.items.getLast? = some line.last := by
  rw [items, List.getLast?_cons, last, List.getLastD_eq_getLast?]

theorem flatMap_items_ne_nil (first : ItemLine) (rest : List ItemLine) :
    (first :: rest).flatMap ItemLine.items ≠ [] := by
  rw [List.flatMap_cons, ItemLine.items]
  exact List.cons_ne_nil _ _

theorem getLast?_items (first : ItemLine) (rest : List ItemLine) :
    ((first :: rest).flatMap ItemLine.items).getLast? = some (rest.getLastD first).last := by
  induction rest generalizing first with
  | nil => rw [List.flatMap_singleton, first.items_getLast?, List.getLastD_nil]
  | cons next rest ih =>
    rw [List.flatMap_cons, List.getLast?_append_of_ne_nil _ (flatMap_items_ne_nil next rest), ih,
      List.getLastD_cons]

theorem importItems_of_divide {list : Located} {lines rest : List ItemLine}
    (parts : ItemLine.divide (importItems list) = lines ++ rest) :
    importItems list = lines.flatMap ItemLine.items ++ rest.flatMap ItemLine.items := by
  rw [← ItemLine.items_divide (importItems list), parts, List.flatMap_append]

/-- A list of imports between brackets, where it stands in a source. -/
structure ImportGroup (source : Text) (list : Located) (inner : List Tree) : Prop where
  tree_eq : list.tree =
    .node .importList (.leaf .token ['('] :: (inner ++ [.leaf .token [')']]))
  stands : list.StandsIn source
  laid : ∃ rest last, Laid ImportTree .before inner (')' :: rest) last

/-- Neighbours among the items of a list, and the trees from the first to the last of them. -/
structure Stretch (place : Place) (inner before trees behind : List Tree)
    (front middle back : List Located) : Prop where
  whole : inner = before ++ trees ++ behind
  front_eq : front = (Located.sideBySide place before).filter Located.isImportItem
  middle_eq : middle = (Located.sideBySide (place.after (Tree.textOfAll before)) trees).filter
    Located.isImportItem
  back_eq : back = (Located.sideBySide (place.after (Tree.textOfAll before ++ Tree.textOfAll trees))
    behind).filter Located.isImportItem
  first : ∀ item ∈ middle.head?,
    item.start = place.after (Tree.textOfAll before) ∧ trees.head? = some item.tree
  last : ∀ item ∈ middle.getLast?,
    item.stop = place.after (Tree.textOfAll before ++ Tree.textOfAll trees) ∧
      trees.getLast? = some item.tree

theorem Stretch.paths_behind {place : Place} {inner before trees behind : List Tree}
    {front middle : List Located}
    (stretch : Stretch place inner before trees behind front middle []) :
    Tree.specPaths behind = [] := by
  rw [← specPaths_items, ← stretch.back_eq]
  rfl

theorem slice_append (front middle back : Text) :
    Text.slice (front ++ (middle ++ back)) ⟨front.length, front.length + middle.length⟩ =
      middle := by
  simp [Text.slice]

theorem Located.exists_of_mem {trees : List Tree} {tree : Tree} (place : Place)
    (inside : tree ∈ trees) : ∃ located ∈ sideBySide place trees, located.tree = tree := by
  induction trees generalizing place with
  | nil => cases inside
  | cons first rest ih =>
    rcases List.mem_cons.1 inside with rfl | later
    · exact ⟨_, List.mem_cons_self, rfl⟩
    · obtain ⟨located, held, same⟩ := ih (place.after first.text) later
      exact ⟨located, List.mem_cons_of_mem _ held, same⟩

namespace ImportGroup

variable {source : Text} {list : Located} {inner : List Tree}
  (group : ImportGroup source list inner)
include group

theorem items_eq : importItems list =
    (Located.sideBySide (list.start.after ['(']) inner).filter Located.isImportItem := by
  rw [importItems, Located.children, group.tree_eq]
  change List.filter Located.isImportItem (_ :: Located.sideBySide _ (inner ++ _)) = _
  rw [Located.sideBySide_append]
  rw [List.filter_cons_of_neg Bool.false_ne_true, List.filter_append]
  exact List.append_nil _

theorem stop_eq : list.stop =
    (list.start.after ['(']).after (Tree.textOfAll inner ++ [')']) := by
  obtain ⟨_, _, _, _, stop⟩ := group.stands
  rw [stop, Located.text, group.tree_eq, Place.after_after]
  simp [Tree.text, Tree.textOfAll, Tree.textOfAll_append]

theorem exists_stretch {front middle back : List Located}
    (parts : importItems list = front ++ middle ++ back) (filled : middle ≠ []) :
    ∃ before trees behind,
      Stretch (list.start.after ['(']) inner before trees behind front middle back := by
  rw [group.items_eq] at parts
  obtain ⟨one, two, three, whole, rfl, rfl, rfl, head, last⟩ :=
    GoGraft.exists_stretch parts filled
  obtain ⟨most, behind, rfl, both, rfl⟩ := Located.sideBySide_eq_append whole
  obtain ⟨before, trees, rfl, rfl, rfl⟩ := Located.sideBySide_eq_append both.symm
  refine ⟨before, trees, behind, rfl, rfl, rfl, ?_, ?_, ?_⟩
  · rw [Tree.textOfAll_append]
  · intro item found
    exact Located.start_of_head? (head.trans found)
  · intro item found
    obtain ⟨stop, ends⟩ := Located.stop_of_getLast? (last.trans found)
    exact ⟨by rw [stop, Place.after_after], ends⟩

/-- The lines from one of a group to its last are a stretch of its trees. -/
theorem exists_lastLines {lines rest : List ItemLine} {first : ItemLine}
    (parts : ItemLine.divide (importItems list) = lines ++ first :: rest) :
    ∃ before trees behind, Stretch (list.start.after ['(']) inner before trees behind
      (lines.flatMap ItemLine.items) ((first :: rest).flatMap ItemLine.items) [] :=
  group.exists_stretch ((importItems_of_divide parts).trans (List.append_nil _).symm)
    (flatMap_items_ne_nil first rest)

/-- A line that starts with an import is a stretch of trees that may stand behind white space. -/
theorem exists_line {line : ItemLine} (inside : line ∈ ItemLine.divide (importItems list))
    (spec : line.first.isNode .importSpec) :
    ∃ before trees behind front back last,
      Stretch (list.start.after ['(']) inner before trees behind front line.items back ∧
        ∃ after, Laid ImportTree .before trees after last := by
  obtain ⟨lines, others, split⟩ := List.append_of_mem inside
  have parts : importItems list = lines.flatMap ItemLine.items ++ line.items ++
      others.flatMap ItemLine.items := by
    rw [importItems_of_divide split, List.flatMap_cons, List.append_assoc]
  obtain ⟨before, trees, behind, stretch⟩ := group.exists_stretch parts (List.cons_ne_nil _ _)
  obtain ⟨rest, last, laid⟩ := group.laid
  rw [stretch.whole] at laid
  obtain ⟨slot, laid, -⟩ := laid.split
  obtain ⟨-, laid⟩ := laid_before_spec laid spec (stretch.first line.first rfl).2
  exact ⟨before, trees, behind, _, _, slot, stretch, _, laid⟩

theorem slice_eq {before trees behind : List Tree} (whole : inner = before ++ trees ++ behind) :
    Text.slice source ⟨((list.start.after ['(']).after (Tree.textOfAll before)).offset,
      ((list.start.after ['(']).after (Tree.textOfAll before ++ Tree.textOfAll trees)).offset⟩ =
        Tree.textOfAll trees := by
  obtain ⟨front, back, parts, start, _⟩ := group.stands
  have spelled : source = (front ++ ['('] ++ Tree.textOfAll before) ++ (Tree.textOfAll trees ++
      (Tree.textOfAll behind ++ [')'] ++ back)) := by
    rw [parts, Located.text, group.tree_eq, whole]
    simp [Tree.text, Tree.textOfAll, Tree.textOfAll_append]
  have offset : ((list.start.after ['(']).after (Tree.textOfAll before)).offset =
      (front ++ ['('] ++ Tree.textOfAll before).length := by
    simp only [start, Place.after, List.length_append]
    omega
  rw [← Place.after_after, Place.offset_after _ (Tree.textOfAll trees), offset, spelled]
  exact slice_append _ _ _

/-- A line with a known path is a stretch of trees with this path. -/
theorem line_laid {line : ItemLine} (inside : line ∈ ItemLine.divide (importItems list))
    {path : Text} (known : (ImportLine.ofItems line).path = some path) :
    ∃ trees after last, Tree.textOfAll trees = Text.slice source line.span ∧
      Laid ImportTree .before trees after last ∧ Tree.specPaths trees = [path] ∧
      ∀ text, Tree.leaf .comment text ∈ trees →
        ∃ item ∈ importItems list, item.isComment ∧ item.text = text := by
  obtain ⟨spec, paths⟩ := line_paths known
  obtain ⟨before, trees, behind, _, _, last, stretch, after, laid⟩ := group.exists_line inside spec
  obtain ⟨start, -⟩ := stretch.first line.first rfl
  obtain ⟨stop, -⟩ := stretch.last line.last line.items_getLast?
  refine ⟨trees, after, last, ?_, laid, ?_, ?_⟩
  · rw [ItemLine.span, start, stop, group.slice_eq stretch.whole]
  · rw [← paths, stretch.middle_eq, specPaths_items]
  · intro text held
    obtain ⟨item, among, same⟩ := Located.exists_of_mem
      ((list.start.after ['(']).after (Tree.textOfAll before)) held
    have comment : item.isComment := by
      rw [Located.isComment, same]
      rfl
    have kept : item ∈ line.items := by
      rw [stretch.middle_eq]
      exact List.mem_filter.2 ⟨among, Bool.or_eq_true_iff.2 (.inr comment)⟩
    refine ⟨item, ItemLine.items_subset inside kept, comment, ?_⟩
    rw [Located.text, same]
    rfl

/-- Behind the last item of a list there is room for lines. -/
theorem room {before trees behind : List Tree} {front middle : List Located} (filled : middle ≠ [])
    (parts : importItems list = front ++ middle)
    (stretch : Stretch (list.start.after ['(']) inner before trees behind front middle [])
    {paths : List Text} (room : HasRoom list paths) :
    '\n' ∈ Tree.textOfAll behind ∨
      (∀ item ∈ importItems list, item.isComment → isLineComment item.text = false) ∧
        ∀ path ∈ paths, isLegalPath path := by
  refine room.imp_left fun later => ?_
  have held : middle.getLast filled ∈ importItems list := by
    rw [parts]
    exact List.mem_append_right _ (List.getLast_mem filled)
  have row := later _ held
  rw [(stretch.last _ (List.getLast?_eq_some_getLast filled)).1, group.stop_eq, stretch.whole,
    Tree.textOfAll_append, Tree.textOfAll_append, List.append_assoc, ← Place.after_after] at row
  have counted : 0 < (Tree.textOfAll behind).countP (· == '\n') := by
    have bracket : [')'].countP (· == '\n') = 0 := rfl
    simp only [Place.after, List.countP_append] at row
    omega
  obtain ⟨c, inside, line⟩ := List.countP_pos_iff.1 counted
  rwa [← eq_of_beq line]

end ImportGroup

/-! ### Edits of a group -/

theorem isLine_added {added : List Text} (plain : ∀ path ∈ added, ∀ c ∈ path, c ≠ '\x22') :
    ∀ entry ∈ added.map ImportEntry.ofPath,
      IsLine (∀ path ∈ added, isLegalPath path) entry.text entry.path := by
  rw [List.forall_mem_map]
  intro path held
  exact (Go.isLine_ofPath (plain path held)).weaken fun legal => legal path held

theorem endsList_added {added : List Text} (plain : ∀ path ∈ added, ∀ c ∈ path, c ≠ '\x22')
    {tail : Text} (tails : ∀ c ∈ tail, isTail c)
    (room : '\n' ∈ tail ∨ ∀ path ∈ added, isLegalPath path) :
    ∀ entry ∈ added.map ImportEntry.ofPath,
      EndsList (∀ path ∈ added, isLegalPath path) entry.text entry.path tail := by
  rcases room with broken | legal
  · intro entry held
    exact (isLine_added plain entry held).endsList tails broken
  · rw [List.forall_mem_map]
    intro path held
    exact (Go.endsList_ofPath (legal path held) tails).weaken fun _ => trivial

/-- The paths of written lines. -/
theorem mem_sorted_paths {entries : List ImportEntry} {path : Text} :
    path ∈ (sortBy ImportEntry.before entries).map ImportEntry.path ↔
      path ∈ entries.map ImportEntry.path :=
  ((sortBy_perm ImportEntry.before entries).map ImportEntry.path).mem_iff

theorem paths_added (added : List Text) :
    (added.map ImportEntry.ofPath).map ImportEntry.path = added := by
  rw [List.map_map]
  exact List.map_id added

theorem flatMap_lines {entries : List ImportEntry} {indent : Text} (filled : entries ≠ []) :
    (entries.flatMap fun entry => "\n".toList ++ indent ++ entry.text) =
      '\n' :: Text.join "\n".toList (entries.map fun entry => indent ++ entry.text) := by
  induction entries with
  | nil => exact absurd rfl filled
  | cons entry rest ih =>
    cases rest with
    | nil => simp [Text.join]
    | cons next rest =>
      rw [List.flatMap_cons, ih (List.cons_ne_nil _ _)]
      simp [Text.join]

theorem renderSorted_indent (indent : Text) {entries : List ImportEntry} (filled : entries ≠ []) :
    ImportEntry.renderSorted indent entries =
      indent ++ (ImportEntry.renderSorted indent entries).drop indent.length := by
  have perm := sortBy_perm ImportEntry.before entries
  rw [ImportEntry.renderSorted]
  cases sorted : sortBy ImportEntry.before entries with
  | nil =>
    rw [sorted] at perm
    exact absurd perm.nil_eq.symm filled
  | cons entry others =>
    cases others with
    | nil => simp [Text.join]
    | cons next rest => simp [Text.join]

/-- An edit in a text that starts at a place: it cuts the text in three and replaces the middle. -/
structure Edit.Cuts (edit : Edit) (place : Nat) (text front old back : Text) : Prop where
  whole : text = front ++ old ++ back
  start : edit.span.start = place + front.length
  stop : edit.span.stop = edit.span.start + old.length

namespace Stretch

variable {place : Place} {inner before trees behind : List Tree} {front middle back : List Located}
  (stretch : Stretch place inner before trees behind front middle back)
include stretch

/-- An edit from the first item of a stretch to its last one. -/
theorem cuts {first last : Located} (starts : middle.head? = some first)
    (ends : middle.getLast? = some last) (text : Text) :
    Edit.Cuts ⟨⟨first.start.offset, last.stop.offset⟩, text⟩ place.offset (Tree.textOfAll inner)
      (Tree.textOfAll before) (Tree.textOfAll trees) (Tree.textOfAll behind) := by
  obtain ⟨start, -⟩ := stretch.first first starts
  obtain ⟨stop, -⟩ := stretch.last last ends
  rw [start, stop, Place.offset_after, Place.offset_after, List.length_append, ← Nat.add_assoc]
  exact ⟨by rw [stretch.whole, Tree.textOfAll_append, Tree.textOfAll_append], rfl, rfl⟩

/-- An edit behind the last item of a stretch. -/
theorem cuts_behind {last : Located} (ends : middle.getLast? = some last) (text : Text) :
    Edit.Cuts ⟨⟨last.stop.offset, last.stop.offset⟩, text⟩ place.offset (Tree.textOfAll inner)
      (Tree.textOfAll (before ++ trees)) [] (Tree.textOfAll behind) := by
  obtain ⟨stop, -⟩ := stretch.last last ends
  rw [stop, ← Tree.textOfAll_append, Place.offset_after]
  exact ⟨by rw [stretch.whole, List.append_nil, Tree.textOfAll_append (before ++ trees)], rfl, rfl⟩

end Stretch

/-- An edit between the brackets of a list that adds paths to it. If it is not `sure`, there may be no
list any more. -/
structure AddsInside (sure : Prop) (opening : Nat) (inner : List Tree) (added : List Text)
    (edit : Edit) (front old back : Text) (paths : List Text) : Prop where
  cuts : edit.Cuts opening (Tree.textOfAll inner) front old back
  kept : Tree.specPaths inner ⊆ paths
  held : added ⊆ paths
  closes : ∀ rest, Closes sure .before (front ++ (edit.text ++ (back ++ ')' :: rest))) paths rest

/-- New paths that are strings, and a list with a newline behind each of its imports. -/
structure CanTake (added : List Text) (inner : List Tree) : Prop where
  legal : ∀ path ∈ added, isLegalPath path
  lines : ∀ text, Tree.leaf .terminator text ∈ inner → text = ['\n']

namespace ImportGroup

variable {source : Text} {list : Located} {inner : List Tree}
  (group : ImportGroup source list inner) {added : List Text} (filled : added ≠ [])
  (plain : ∀ path ∈ added, ∀ c ∈ path, c ≠ '\x22') {indent : Text}
  (blank : ∀ c ∈ indent, isBlank true c)
include group filled plain blank

theorem adds_empty (empty : importItems list = []) :
    ∃ front old back paths, AddsInside (CanTake added inner) (list.start.offset + 1) inner added
      ⟨⟨list.start.offset + 1, list.stop.offset - 1⟩, "\n".toList ++
        ImportEntry.renderSorted indent (added.map ImportEntry.ofPath) ++ "\n".toList⟩
      front old back paths := by
  have none : Tree.specPaths inner = [] := by
    rw [← specPaths_items (list.start.after ['(']), ← group.items_eq, empty]
    rfl
  refine ⟨[], Tree.textOfAll inner, [], (sortBy ImportEntry.before
    (added.map ImportEntry.ofPath)).map ImportEntry.path, ⟨⟨by simp, rfl, ?_⟩, ?_, ?_, ?_⟩⟩
  · dsimp only
    rw [group.stop_eq]
    simp only [Place.offset_after, List.length_append, List.length_singleton]
    omega
  · rw [none]
    exact List.nil_subset _
  · intro path held
    rwa [mem_sorted_paths, paths_added]
  · intro rest
    have closed := Go.closes_block (isLine_added plain) (by simpa using filled) blank rest
    have taken := closed.weaken (@CanTake.legal added inner)
    simpa using taken

/-- New lines behind the last of the items. -/
theorem adds_appended (room : HasRoom list added) {front : List Located} {last : Located}
    (parts : importItems list = front ++ [last]) :
    ∃ front old back paths, AddsInside (CanTake added inner) (list.start.offset + 1) inner added
      ⟨⟨last.stop.offset, last.stop.offset⟩, (added.map ImportEntry.ofPath).flatMap
        fun entry => "\n".toList ++ indent ++ entry.text⟩ front old back paths := by
  have ends : importItems list = front ++ [last] ++ [] := by
    rw [parts, List.append_nil]
  obtain ⟨before, trees, behind, stretch⟩ := group.exists_stretch ends (List.cons_ne_nil _ _)
  obtain ⟨rest, slot, laid⟩ := group.laid
  rw [stretch.whole] at laid
  obtain ⟨middle, laid, later⟩ := laid.split
  obtain ⟨tails, calm⟩ := tail_of_laid later stretch.back_eq.symm
  have inside := (group.room (List.cons_ne_nil _ _) parts stretch room).imp_right And.right
  refine ⟨Tree.textOfAll (before ++ trees), [], Tree.textOfAll behind,
    Tree.specPaths (before ++ trees) ++ added, ⟨stretch.cuts_behind rfl _, ?_, ?_, fun rest => ?_⟩⟩
  · rw [stretch.whole, Go.specPaths_append, stretch.paths_behind, List.append_nil]
    exact List.subset_append_left _ _
  · exact List.subset_append_right _ _
  · have filled : added.map ImportEntry.ofPath ≠ [] := by simpa using filled
    dsimp only
    rw [flatMap_lines filled]
    have added_lines (left : Text) (passed : Go.pass middle.newlines left = _) :=
      @Go.closes_appended _ _ _ (isLine_added plain) (endsList_added plain tails inside) filled
        indent blank middle left rest passed
    have read := Closes.laid (laid.change (fun _ _ _ spec _ => spec) (.inl rfl)) rfl added_lines
    rw [paths_added] at read
    refine read.weaken fun can => ⟨can.legal, calm fun text held => can.lines text ?_⟩
    rw [stretch.whole]
    exact List.mem_append_right _ held

omit filled plain blank in
/-- The lines of a run with their paths, as the source has them. -/
theorem entries_of_run {run : List ItemLine} (inside : run ⊆ ItemLine.divide (importItems list))
    {entries : List ImportEntry}
    (all : List.Forall₂ (fun line entry => ImportLine.toEntry? source (.ofItems line) = some entry)
      run entries) :
    (run.flatMap ItemLine.items).filterMap (fun item => item.tree.importPath?) =
        entries.map ImportEntry.path ∧
      ∀ entry ∈ entries, ∃ trees after last, Tree.textOfAll trees = entry.text ∧
        Laid ImportTree .before trees after last ∧ Tree.specPaths trees = [entry.path] ∧
        ∀ text, Tree.leaf .comment text ∈ trees →
          ∃ item ∈ importItems list, item.isComment ∧ item.text = text := by
  induction all with
  | nil => exact ⟨rfl, List.forall_mem_nil _⟩
  | @cons line entry run entries found _ ih =>
    obtain ⟨paths, others⟩ := ih (List.Subset.trans (List.subset_cons_self _ _) inside)
    obtain ⟨path, known, same⟩ := Option.map_eq_some_iff.1 found
    cases same
    refine ⟨?_, List.forall_mem_cons.2 ⟨?_, others⟩⟩
    · rw [List.flatMap_cons, List.filterMap_append, (line_paths known).2, paths]
      rfl
    · exact group.line_laid (inside List.mem_cons_self) known

/-- New lines sorted into the last run of lines. -/
theorem adds_sorted (room : HasRoom list added) {lines rest : List ItemLine} {first : ItemLine}
    (parts : ItemLine.divide (importItems list) = lines ++ first :: rest)
    {entries : List ImportEntry}
    (all : List.Forall₂ (fun line entry => ImportLine.toEntry? source (.ofItems line) = some entry)
      (first :: rest) entries) :
    ∃ front old back paths, AddsInside (CanTake added inner) (list.start.offset + 1) inner added
      ⟨⟨first.span.start, (rest.getLastD first).span.stop⟩, (ImportEntry.renderSorted indent
        (entries ++ added.map ImportEntry.ofPath)).drop indent.length⟩ front old back paths := by
  have run : first :: rest ⊆ ItemLine.divide (importItems list) := by
    rw [parts]
    exact List.subset_append_right _ _
  obtain ⟨before, trees, behind, stretch⟩ := group.exists_lastLines parts
  obtain ⟨paths, whole⟩ := group.entries_of_run run all
  obtain ⟨tail, slot, laid⟩ := group.laid
  rw [stretch.whole] at laid
  obtain ⟨middle, laid, later⟩ := laid.split
  obtain ⟨tails, calm⟩ := tail_of_laid later stretch.back_eq.symm
  have spec : first.first.isNode .importSpec := by
    cases all with
    | cons found _ =>
      obtain ⟨path, known, _⟩ := Option.map_eq_some_iff.1 found
      exact (line_paths known).1
  obtain ⟨front, _⟩ := laid_before_spec laid spec (stretch.first first.first rfl).2
  have inside :=
    group.room (flatMap_items_ne_nil first rest) (importItems_of_divide parts) stretch room
  have isLine : ∀ entry ∈ entries ++ added.map ImportEntry.ofPath,
      IsLine (∀ path ∈ added, isLegalPath path) entry.text entry.path := by
    refine List.forall_mem_append.2 ⟨fun entry held => ?_, isLine_added plain⟩
    obtain ⟨trees, after, last, spelled, laid, only, _⟩ := whole entry held
    rw [← spelled]
    exact (Go.isLine_laid laid only).weaken fun _ => trivial
  have endsList : ∀ entry ∈ entries ++ added.map ImportEntry.ofPath,
      EndsList (∀ path ∈ added, isLegalPath path) entry.text entry.path
        (Tree.textOfAll behind) := by
    refine List.forall_mem_append.2
      ⟨fun entry held => ?_, endsList_added plain tails (inside.imp_right And.right)⟩
    rcases inside with broken | ⟨closed, _⟩
    · exact (isLine entry (List.mem_append_left _ held)).endsList tails broken
    · obtain ⟨trees, after, last, spelled, laid, only, comments⟩ := whole entry held
      rw [← spelled]
      refine (Go.endsList_laid laid only (fun text among => ?_) tails).weaken fun _ => trivial
      obtain ⟨item, present, comment, same⟩ := comments text among
      exact same ▸ closed item present comment
  have some_entry : entries ++ added.map ImportEntry.ofPath ≠ [] :=
    List.append_ne_nil_of_right_ne_nil _ (by simpa using filled)
  have mem_paths {path : Text} (held : path ∈ entries.map ImportEntry.path ++ added) :
      path ∈ Tree.specPaths before ++ (sortBy ImportEntry.before
        (entries ++ added.map ImportEntry.ofPath)).map ImportEntry.path := by
    refine List.mem_append_right _ (mem_sorted_paths.2 ?_)
    rwa [List.map_append, paths_added]
  refine ⟨Tree.textOfAll before, Tree.textOfAll trees, Tree.textOfAll behind,
    Tree.specPaths before ++ (sortBy ImportEntry.before
      (entries ++ added.map ImportEntry.ofPath)).map ImportEntry.path,
    stretch.cuts rfl (getLast?_items first rest) _, ?_, ?_, ?_⟩
  · rw [stretch.whole, Go.specPaths_append, Go.specPaths_append, stretch.paths_behind,
      List.append_nil, ← specPaths_items _ trees, ← stretch.middle_eq, paths]
    refine List.append_subset.2 ⟨List.subset_append_left _ _, fun path held => ?_⟩
    exact mem_paths (List.mem_append_left _ held)
  · exact fun path held => mem_paths (List.mem_append_right _ held)
  · intro rest
    have sorted (left : Text) (passed : Go.pass true left = _) :=
      @Go.closes_renderSorted _ _ _ isLine endsList some_entry indent blank left rest passed
    refine (Closes.laid (front _) rfl fun left passed => sorted left ?_).weaken fun can =>
      ⟨can.legal, calm fun text held => can.lines text ?_⟩
    · rw [renderSorted_indent indent some_entry, List.append_assoc, pass_blanks blank]
      exact passed
    · rw [stretch.whole]
      exact List.mem_append_right _ held

theorem adds (room : HasRoom list added) :
    ∃ front old back paths, AddsInside (CanTake added inner) (list.start.offset + 1) inner added
      (groupEdit source (list.start.offset + 1) (list.stop.offset - 1) indent
        ((ItemLine.divide (importItems list)).map ImportLine.ofItems)
        (added.map ImportEntry.ofPath)) front old back paths := by
  obtain ⟨others, whole⟩ :=
    lastRun_suffix ((ItemLine.divide (importItems list)).map ImportLine.ofItems)
  obtain ⟨lines, run, parts, _, spelled⟩ := List.map_eq_append_iff.1 whole.symm
  rw [groupEdit, ← spelled]
  cases run with
  | nil =>
    have none : ItemLine.divide (importItems list) = [] :=
      List.map_eq_nil_iff.1 (lastRun_eq_nil spelled.symm)
    refine group.adds_empty filled plain blank ?_
    rw [← ItemLine.items_divide (importItems list), none]
    rfl
  | cons first rest =>
    have last : (rest.map ImportLine.ofItems).getLastD (.ofItems first) =
        ImportLine.ofItems (rest.getLastD first) := by
      rw [List.getLastD_eq_getLast?, List.getLastD_eq_getLast?, List.getLast?_map, Option.getD_map]
    rw [List.map_cons]
    dsimp only
    rw [last]
    split
    next entries all =>
      rw [← List.map_cons] at all
      exact group.adds_sorted filled plain blank room parts
        (List.forall₂_map_left_iff.1 (forall₂_of_mapM all))
    next =>
      -- The last item of the last line is the last item of the group.
      have ends : (importItems list).getLast? = some (rest.getLastD first).last := by
        rw [importItems_of_divide parts, List.getLast?_append, getLast?_items]
        rfl
      obtain ⟨front, items⟩ := List.getLast?_eq_some_iff.1 ends
      exact group.adds_appended filled plain blank room items

end ImportGroup

end GoGraft
