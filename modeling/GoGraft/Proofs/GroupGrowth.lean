import GoGraft.Proofs.LastRuns
import GoGraft.Proofs.ListEndings

/-! Groups of imports that grow. A group to which legal paths are added is read with the paths that it
had and the new ones, unless the line that is sorted to its end cannot stand in front of the bracket. -/

namespace GoGraft

open Go (Tree Slot Laid ImportTree ReadsLast IsEnding IsLine isLegalPath isBlank listPaths pass)
open Go.Lexeme (isSpace isLineComment)

/-! ### The import that is sorted to the end -/

/-- An import that comes last when a list is sorted: none has a greater path, and behind it none has
the same. -/
def IsLast (entries : List ImportEntry) (last : ImportEntry) : Prop :=
  ∃ front back, entries = front ++ last :: back ∧ (∀ entry ∈ front, ¬ last.path < entry.path) ∧
    ∀ entry ∈ back, entry.path < last.path

namespace ImportEntry

/-- A new entry goes behind all others, or the last of them stays last. -/
theorem insertSorted_concat {entry last : ImportEntry} {init : List ImportEntry}
    (ordered : (init ++ [last]).Pairwise fun one other => ¬ other.path < one.path) :
    (¬ last.path < entry.path ∧
        ∃ others, insertSorted before entry (init ++ [last]) = others ++ [last]) ∨
      last.path < entry.path ∧
        insertSorted before entry (init ++ [last]) = init ++ [last] ++ [entry] := by
  induction init with
  | nil =>
    rw [List.nil_append, insertSorted]
    split
    next holds => exact .inl ⟨before_iff.1 holds, [entry], rfl⟩
    next fails => exact .inr ⟨not_not.1 fun holds => fails (before_iff.2 holds), rfl⟩
  | cons first init ih =>
    obtain ⟨least, later⟩ := List.pairwise_cons.1 ordered
    rw [List.cons_append, insertSorted]
    split
    next holds =>
      have upper := least last (List.mem_append_right _ List.mem_cons_self)
      exact .inl ⟨before_trans (before_iff.1 holds) upper, entry :: first :: init, rfl⟩
    next =>
      rcases ih later with ⟨holds, others, same⟩ | ⟨fails, same⟩
      · exact .inl ⟨holds, first :: others, by rw [same]; rfl⟩
      · exact .inr ⟨fails, by rw [same]; rfl⟩

theorem isLast_of_sortBy {entries init : List ImportEntry} {last : ImportEntry}
    (sorted : sortBy before entries = init ++ [last]) : IsLast entries last := by
  induction entries generalizing init last with
  | nil => cases init <;> cases sorted
  | cons entry rest ih =>
    change insertSorted before entry (sortBy before rest) = _ at sorted
    have perm := sortBy_perm before rest
    have ordered := (stablySorted_sortBy rest).ordered
    rcases List.eq_nil_or_concat' (sortBy before rest) with none | ⟨others, final, ends⟩
    · rw [none] at sorted perm
      obtain ⟨-, same⟩ := List.append_inj' (sorted.symm.trans (List.nil_append [entry]).symm) rfl
      cases same
      exact ⟨[], rest, rfl, List.forall_mem_nil _, by rw [← perm.nil_eq]; exact List.forall_mem_nil _⟩
    · rw [ends] at sorted ordered perm
      rcases @insertSorted_concat entry _ _ ordered with ⟨holds, more, same⟩ | ⟨fails, same⟩
      · obtain ⟨-, final_eq⟩ := List.append_inj' (sorted.symm.trans same) rfl
        cases final_eq
        obtain ⟨front, back, rfl, upTo, behind⟩ := ih ends
        exact ⟨entry :: front, back, rfl, List.forall_mem_cons.2 ⟨holds, upTo⟩, behind⟩
      · obtain ⟨-, entry_eq⟩ := List.append_inj' (sorted.symm.trans same) rfl
        cases entry_eq
        refine ⟨[], rest, rfl, List.forall_mem_nil _, fun other held => ?_⟩
        have among := perm.mem_iff.2 held
        rcases List.mem_append.1 among with early | own
        · have upper := (List.pairwise_append.1 ordered).2.2 other early final List.mem_cons_self
          exact List.lt_of_le_of_lt (List.not_lt.1 upper) fails
        · rw [List.mem_singleton.1 own]
          exact fails

end ImportEntry

/-- Only one import is sorted to the end. -/
theorem IsLast.unique {entries : List ImportEntry} {one other : ImportEntry}
    (first : IsLast entries one) (second : IsLast entries other) : one = other := by
  obtain ⟨front, back, rfl, upTo, behind⟩ := first
  obtain ⟨lead, rest, whole, otherUpTo, otherBehind⟩ := second
  rcases List.append_eq_append_iff.1 whole with ⟨more, rfl, tail⟩ | ⟨more, rfl, tail⟩
  · cases more with
    | nil => exact (List.cons.inj tail).1
    | cons head more =>
      obtain ⟨rfl, rfl⟩ := List.cons.inj tail
      have upper := otherUpTo one (List.mem_append_right _ List.mem_cons_self)
      have lower := behind other (List.mem_append_right _ List.mem_cons_self)
      exact absurd lower upper
  · cases more with
    | nil => exact (List.cons.inj tail).1.symm
    | cons head more =>
      obtain ⟨rfl, rfl⟩ := List.cons.inj tail
      have upper := upTo other (List.mem_append_right _ List.mem_cons_self)
      have lower := otherBehind one (List.mem_append_right _ List.mem_cons_self)
      exact absurd lower upper

/-! ### Lines of a group -/

namespace Located

def isTerminator (located : Located) : Bool :=
  match located.tree with
  | .leaf kind _ => kind == .terminator
  | .node _ _ => false

theorem isTerminator_iff {located : Located} :
    located.isTerminator ↔ ∃ text, located.tree = .leaf .terminator text := by
  rw [isTerminator]
  cases located.tree with
  | leaf kind text => simp
  | node => simp

end Located

namespace ItemLine

/-- The last item of a line is a comment that goes on to the end of the line. -/
def EndsInComment (line : ItemLine) : Prop :=
  line.last.isComment ∧ isLineComment line.last.text

/-- The terminator of the import on a line stands between the items of the line. -/
def IsEnded (list : Located) (line : ItemLine) : Prop :=
  ∃ mark ∈ list.children, mark.isTerminator ∧ line.span.start ≤ mark.start.offset ∧
    mark.stop.offset ≤ line.span.stop

instance (line : ItemLine) : Decidable line.EndsInComment :=
  inferInstanceAs (Decidable (_ ∧ _))

instance (list : Located) (line : ItemLine) : Decidable (line.IsEnded list) :=
  inferInstanceAs (Decidable (∃ mark ∈ list.children, _))

end ItemLine

theorem Laid.terminator_of_mem {Item : Tree → Text → Prop} {slot last : Slot} {trees : List Tree}
    {after text : Text} (laid : Laid Item slot trees after last)
    (inside : Go.Tree.leaf .terminator text ∈ trees) : text ≠ [] := by
  induction laid with
  | nil => cases inside
  | blank _ _ ih | comment _ _ ih | item _ _ ih =>
    rcases List.mem_cons.1 inside with same | later
    · cases same
    · exact ih later
  | terminator _ _ ih =>
    rcases List.mem_cons.1 inside with same | later
    · cases same
      exact List.cons_ne_nil _ _
    · exact ih later

namespace ImportGroup

variable {source : Text} {list : Located} {inner : List Tree}
  (group : ImportGroup source list inner)
include group

/-- The brackets of a group are no terminators. -/
theorem mem_children_iff {mark : Located} (terminator : mark.isTerminator) :
    mark ∈ list.children ↔ mark ∈ Located.sideBySide (list.start.after ['(']) inner := by
  rw [Located.children, group.tree_eq]
  change mark ∈ _ :: Located.sideBySide _ (inner ++ _) ↔ _
  rw [Located.sideBySide_append, List.mem_cons, List.mem_append]
  constructor
  · rintro (rfl | inside | closing)
    · cases terminator
    · exact inside
    · cases List.mem_singleton.1 closing
      cases terminator
  · exact fun inside => .inr (.inl inside)

/-- The terminators between the items of a line are among its trees. -/
theorem isEnded_iff {line : ItemLine} {before trees behind : List Tree}
    (whole : inner = before ++ trees ++ behind)
    (start : line.first.start = (list.start.after ['(']).after (Tree.textOfAll before))
    (stop : line.last.stop = (list.start.after ['(']).after
      (Tree.textOfAll before ++ Tree.textOfAll trees)) :
    line.IsEnded list ↔ ∃ text, Go.Tree.leaf .terminator text ∈ trees := by
  have first : line.span.start = (list.start.after ['(']).offset +
      (Tree.textOfAll before).length := by
    rw [ItemLine.span, start, Place.offset_after]
  have last : line.span.stop = (list.start.after ['(']).offset +
      (Tree.textOfAll before).length + (Tree.textOfAll trees).length := by
    rw [ItemLine.span, stop, Place.offset_after, List.length_append, Nat.add_assoc]
  have located : Located.sideBySide (list.start.after ['(']) inner =
      Located.sideBySide (list.start.after ['(']) before ++
        Located.sideBySide ((list.start.after ['(']).after (Tree.textOfAll before)) trees ++
          Located.sideBySide ((list.start.after ['(']).after
            (Tree.textOfAll (before ++ trees))) behind := by
    rw [whole, Located.sideBySide_append, Located.sideBySide_append]
  constructor
  · rintro ⟨mark, held, terminator, lower, upper⟩
    obtain ⟨text, same⟩ := Located.isTerminator_iff.1 terminator
    have inside := (group.mem_children_iff terminator).1 held
    have filled : 0 < mark.text.length := by
      obtain ⟨_, _, laid⟩ := group.laid
      have among := Located.tree_mem_of_mem_sideBySide inside
      rw [same] at among
      rw [Located.text, same]
      exact List.length_pos_iff.2 (Laid.terminator_of_mem laid among)
    have size := (group.stands.child held).stop_eq
    rw [located, List.mem_append, List.mem_append] at inside
    rcases inside with (early | own) | later
    · have bounds := Located.bounds_of_mem_sideBySide early
      omega
    · exact ⟨text, same ▸ Located.tree_mem_of_mem_sideBySide own⟩
    · have bounds := Located.bounds_of_mem_sideBySide later
      rw [Place.offset_after, Tree.textOfAll_append, List.length_append] at bounds
      omega
  · rintro ⟨text, held⟩
    obtain ⟨mark, among, same⟩ := Located.exists_of_mem
      ((list.start.after ['(']).after (Tree.textOfAll before)) held
    have terminator := Located.isTerminator_iff.2 ⟨text, same⟩
    have bounds := Located.bounds_of_mem_sideBySide among
    rw [Place.offset_after] at bounds
    refine ⟨mark, (group.mem_children_iff terminator).2 ?_, terminator, by omega, by omega⟩
    rw [located]
    exact List.mem_append_left _ (List.mem_append_right _ among)

omit group in
/-- The comments behind the import of a line are leaves. -/
theorem leaves_of_spec {line : ItemLine} (spec : line.IsSpec) {place : Place} {tree : Tree}
    {more : List Tree} {after : Text} {slot last : Slot}
    (items : line.items = (Located.sideBySide place (tree :: more)).filter Located.isImportItem)
    (first : Located.isImportItem ⟨tree, place, place.after tree.text⟩)
    (laid : Laid ImportTree slot more after last) (kind : Go.NodeKind) (children : List Tree) :
    Go.Tree.node kind children ∉ more := by
  intro held
  rw [Located.sideBySide, List.filter_cons_of_pos first] at items
  have rest := (List.cons.inj items).2
  obtain ⟨item, among, same⟩ := Located.exists_of_mem (place.after tree.text) held
  obtain ⟨_, import_tree⟩ := Laid.item_of_mem laid held
  have kept : item ∈ line.rest := by
    rw [rest]
    refine List.mem_filter.2 ⟨among, ?_⟩
    have own := ImportTree.isImportItem import_tree item.start item.stop
    rw [← same] at own
    exact own
  have comment := spec.2.2 item kept
  rw [Located.isComment, same] at comment
  cases comment

end ImportGroup

/-- The trees of a line with one import, and whether its terminator is among them. -/
structure LineTrees (source : Text) (list : Located) (line : ItemLine) (trees : List Tree)
    (last : Slot) : Prop where
  laid : ∃ after, Laid ImportTree .before trees after last
  spelled : Tree.textOfAll trees = (line.toEntry source).text
  only : Tree.specPaths trees = [(line.toEntry source).path]
  final : trees.getLast? = some line.last.tree
  plain : '\n' ∉ Tree.textOfAll trees
  ended : last = .before ↔ line.IsEnded list

/-- A line that ends in no comment up to its end has none. -/
theorem LineTrees.closed {source : Text} {list : Located} {line : ItemLine} {trees : List Tree}
    {last : Slot} (held : LineTrees source list line trees last) (spec : line.IsSpec)
    (other : ¬ line.EndsInComment) (text : Text) (inside : Go.Tree.leaf .comment text ∈ trees) :
    isLineComment text = false := by
  obtain ⟨after, laid⟩ := held.laid
  obtain ⟨init, rfl⟩ := List.getLast?_eq_some_iff.1 held.final
  rcases List.mem_append.1 inside with early | own
  · have item : line.last.isImportItem := by
      rcases List.mem_cons.1 line.last_mem_items with same | later
      · rw [same]
        exact Located.isImportItem_of_spec _ spec.2.1
      · exact Bool.or_eq_true_iff.2 (.inr (spec.2.2 _ later))
    exact laid.init_closed (laid.last_filled item) held.plain text early
  · have same := (List.mem_singleton.1 own).symm
    by_contra line_comment
    refine other ⟨Located.isComment_iff.2 ⟨text, same⟩, ?_⟩
    rw [Located.text, same]
    exact Bool.of_not_eq_false line_comment

namespace ImportGroup

variable {source : Text} {list : Located} {inner : List Tree}
  (group : ImportGroup source list inner)
include group

theorem exists_lineTrees {line : ItemLine} (inside : line ∈ ItemLine.divide (importItems list))
    (spec : line.IsSpec) : ∃ trees last, LineTrees source list line trees last := by
  obtain ⟨before, trees, behind, _, _, last, stretch, _, laid⟩ := group.exists_line inside spec.2.1
  obtain ⟨start, head⟩ := stretch.first line.first rfl
  obtain ⟨stop, final⟩ := stretch.last line.last line.items_getLast?
  obtain ⟨path, known⟩ := Option.isSome_iff_exists.1 ((group.path_isSome_iff inside).2 spec)
  have path_eq : line.importPath = path := by
    rw [ItemLine.importPath, path_ofItems known]
    rfl
  refine ⟨trees, last, ⟨_, laid⟩, ?_, ?_, final, ?_, ?_⟩
  · rw [ItemLine.toEntry, ItemLine.span, start, stop, group.slice_eq stretch.whole]
  · rw [ItemLine.toEntry, path_eq, ← (line_paths known).2, stretch.middle_eq, specPaths_items]
  · -- The line is on one row, so its text has no newline.
    have row := spec.1
    rw [ItemLine.startRow, ItemLine.stopRow, start, stop, ← Place.after_after] at row
    simp only [Place.after] at row
    have count : (Tree.textOfAll trees).countP (· == '\n') = 0 := by omega
    intro held
    have none := List.countP_eq_zero.1 count _ held
    exact none rfl
  · rw [group.isEnded_iff stretch.whole start stop]
    obtain ⟨more, rfl⟩ := List.head?_eq_some_iff.1 head
    obtain ⟨children, same⟩ := Located.isNode_iff.1 spec.2.1
    have items := stretch.middle_eq
    rw [same] at laid items ⊢
    cases laid with
    | item item behind =>
      have leaves := leaves_of_spec spec items (ImportTree.isImportItem item _ _) behind
      rw [(behind.last_iff leaves).2 rfl]
      simp

/-- Whether a line may come last, in front of what is between the last item and the bracket. -/
theorem readsLast {line : ItemLine} (inside : line ∈ ItemLine.divide (importItems list))
    (spec : line.IsSpec) {tail : Text} (ending : IsEnding tail) :
    ((line.EndsInComment → '\n' ∈ tail) →
      (¬ line.EndsInComment → line.IsEnded list → ∀ c ∈ tail, isSpace c) →
        ReadsLast (line.toEntry source) tail (some [line.importPath])) ∧
      (¬ line.EndsInComment → line.IsEnded list → (∃ c ∈ tail, isSpace c = false) →
        ReadsLast (line.toEntry source) tail none) := by
  obtain ⟨trees, last, held⟩ := group.exists_lineTrees inside spec
  obtain ⟨after, laid⟩ := held.laid
  refine ⟨fun broken free => ?_, fun other ended more => ?_⟩
  · by_cases comment : line.EndsInComment
    · obtain ⟨text, same⟩ := Located.isComment_iff.1 comment.1
      have line_comment := comment.2
      rw [Located.text, same] at line_comment
      exact Go.readsLast_of_comment laid held.spelled held.only line_comment (same ▸ held.final)
        ending (broken comment)
    · have closed := held.closed spec comment
      by_cases ended : line.IsEnded list
      · exact Go.readsLast_of_spaces laid held.spelled held.only closed (free comment ended)
      · refine Go.readsLast_of_open laid held.spelled held.only closed ending ?_
        cases last with
        | before => exact absurd (held.ended.1 rfl) ended
        | behind => rfl
  · exact Go.readsLast_of_doubled laid held.spelled held.only (held.closed spec other) ending.isTail
      more (held.ended.2 ended)

end ImportGroup

/-! ### Edits of a group -/

/-- What stands between the last item of a group, or its opening bracket, and the closing one. -/
def groupTail (source : Text) (list : Located) : Text :=
  let last := (importItems list).getLast?.map fun item => item.stop.offset
  Text.slice source ⟨last.getD (list.start.offset + 1), list.stop.offset - 1⟩

/-- An edit between the brackets of a list, and the paths with which the list is then read; if there
are none, it is no list any more. -/
structure Grows (opening : Nat) (inner : List Tree) (edit : Edit) (front old back : Text)
    (paths : Option (List Text)) : Prop where
  cuts : edit.Cuts opening (Tree.textOfAll inner) front old back
  read : ∀ rest, listPaths .before (front ++ (edit.text ++ (back ++ ')' :: rest))) =
    paths.map fun paths => (paths, rest)

namespace ImportGroup

variable {source : Text} {list : Located} {inner : List Tree}
  (group : ImportGroup source list inner)
include group

theorem groupTail_eq {before behind : List Tree} (whole : inner = before ++ behind) {item : Located}
    (last : (importItems list).getLast? = some item)
    (stop : item.stop = (list.start.after ['(']).after (Tree.textOfAll before)) :
    groupTail source list = Tree.textOfAll behind := by
  have closing : list.stop.offset - 1 = ((list.start.after ['(']).after
      (Tree.textOfAll before ++ Tree.textOfAll behind)).offset := by
    rw [group.stop_eq, whole, Tree.textOfAll_append]
    simp only [Place.offset_after, List.length_append, List.length_singleton]
    omega
  rw [groupTail, last]
  dsimp only [Option.map_some, Option.getD_some]
  rw [stop, closing, group.slice_eq (whole.trans (List.append_nil _).symm)]

/-- The line that is sorted to the end decides how a sorted group is read. -/
theorem grows_sorted {lines rest : List ItemLine} {first : ItemLine}
    (parts : ItemLine.divide (importItems list) = lines ++ first :: rest)
    (specs : ∀ line ∈ first :: rest, line.IsSpec) {added : List Text}
    (legal : ∀ path ∈ added, isLegalPath path) {indent : Text}
    (blank : ∀ c ∈ indent, isBlank true c) {init : List ImportEntry} {last : ImportEntry}
    (sorted : sortBy ImportEntry.before ((first :: rest).map (ItemLine.toEntry source) ++
      added.map ImportEntry.ofPath) = init ++ [last])
    {paths : Option (List Text)} (final : ReadsLast last (groupTail source list) paths) :
    ∃ front old back earlier, Grows (list.start.offset + 1) inner
      ⟨⟨first.span.start, (rest.getLastD first).span.stop⟩, (ImportEntry.renderSorted indent
        ((first :: rest).map (ItemLine.toEntry source) ++
          added.map ImportEntry.ofPath)).drop indent.length⟩ front old back
        (paths.map fun more => earlier ++ (init.map ImportEntry.path ++ more)) ∧
      Tree.specPaths inner = earlier ++ (first :: rest).map ItemLine.importPath := by
  have run : first :: rest ⊆ ItemLine.divide (importItems list) := by
    rw [parts]
    exact List.subset_append_right _ _
  obtain ⟨before, trees, behind, stretch⟩ := group.exists_lastLines parts
  obtain ⟨path_eq, written⟩ := group.entries_of_run run
    (List.forall₂_map_left_iff.1 (forall₂_of_mapM (group.mapM_toEntry?_specs run specs)))
  have ends := getLast?_items first rest
  have tail : groupTail source list = Tree.textOfAll behind := by
    obtain ⟨stop, -⟩ := stretch.last (rest.getLastD first).last ends
    refine group.groupTail_eq stretch.whole ?_ (by rw [stop, Tree.textOfAll_append])
    rw [importItems_of_divide parts, List.getLast?_append_of_ne_nil _ (flatMap_items_ne_nil _ _), ends]
  rw [tail] at final
  obtain ⟨_, slot, laid⟩ := group.laid
  rw [stretch.whole] at laid
  obtain ⟨middle, laid, -⟩ := laid.split
  obtain ⟨front, -⟩ := laid_before_spec laid (specs first List.mem_cons_self).2.1
    (stretch.first first.first rfl).2
  have isLine : ∀ entry ∈ init, IsLine True entry.text entry.path := by
    intro entry early
    have among := (sortBy_perm ImportEntry.before _).mem_iff.1
      (sorted ▸ List.mem_append_left [last] early)
    rcases List.mem_append.1 among with own | new
    · obtain ⟨trees, after, last, spelled, laid, only, -⟩ := written entry own
      exact spelled ▸ Go.isLine_laid laid only
    · obtain ⟨path, asked, rfl⟩ := List.mem_map.1 new
      exact Go.isLine_legal (legal path asked)
  generalize entries_eq : (first :: rest).map (ItemLine.toEntry source) = entries at *
  have filled : entries ++ added.map ImportEntry.ofPath ≠ [] := by
    rw [← entries_eq]
    exact List.cons_ne_nil _ _
  refine ⟨Tree.textOfAll before, Tree.textOfAll trees, Tree.textOfAll behind,
    Tree.specPaths before, ⟨stretch.cuts rfl ends _, fun other => ?_⟩, ?_⟩
  · dsimp only
    obtain ⟨left, passed, read⟩ := Go.listPaths_laid (front ((ImportEntry.renderSorted indent
      (entries ++ added.map ImportEntry.ofPath)).drop indent.length ++
        (Tree.textOfAll behind ++ ')' :: other))) rfl
    have joined : pass true left = pass true (Text.join "\n".toList
        ((init ++ [last]).map fun entry => indent ++ entry.text) ++
          (Tree.textOfAll behind ++ ')' :: other)) := by
      rw [← sorted]
      change _ = pass true (ImportEntry.renderSorted indent _ ++ _)
      rw [renderSorted_indent indent filled, List.append_assoc, Go.pass_blanks blank]
      exact passed
    rw [read, Go.listPaths_lines isLine final blank joined]
    cases paths <;> rfl
  · rw [stretch.whole, Go.specPaths_append, Go.specPaths_append, stretch.paths_behind,
      List.append_nil, ← specPaths_items _ trees, ← stretch.middle_eq, path_eq, ← entries_eq,
      List.map_map]
    rfl

section Added

variable {added : List Text} (filled : added ≠ []) (legal : ∀ path ∈ added, isLegalPath path)
  {indent : Text} (blank : ∀ c ∈ indent, isBlank true c)
include filled legal blank

/-- New lines behind the last item never do harm. -/
theorem grows_appended {items : List Located} {last : Located}
    (parts : importItems list = items ++ [last]) :
    ∃ front old back, Grows (list.start.offset + 1) inner
      ⟨⟨last.stop.offset, last.stop.offset⟩, (added.map ImportEntry.ofPath).flatMap
        fun entry => "\n".toList ++ indent ++ entry.text⟩ front old back
        (some (Tree.specPaths inner ++ added)) := by
  have ends : importItems list = items ++ [last] ++ [] := by
    rw [parts, List.append_nil]
  obtain ⟨before, trees, behind, stretch⟩ := group.exists_stretch ends (List.cons_ne_nil _ _)
  obtain ⟨rest, slot, laid⟩ := group.laid
  rw [stretch.whole] at laid
  obtain ⟨middle, laid, later⟩ := laid.split
  have ending := (Go.ending_of_laid later stretch.back_eq.symm).1
  obtain ⟨init, final, rfl⟩ := (List.eq_nil_or_concat' added).resolve_left filled
  obtain ⟨early, own⟩ := List.forall_mem_append.1 legal
  have isLine : ∀ entry ∈ init.map ImportEntry.ofPath, IsLine True entry.text entry.path :=
    List.forall_mem_map.2 fun path held => Go.isLine_legal (early path held)
  have moved (more : Text) : Laid ImportTree .before (before ++ trees) ('\n' :: more) middle :=
    laid.change (fun _ _ _ spec _ => spec) (.inl rfl)
  have lastLine := Go.readsLast_ofPath (own final List.mem_cons_self) ending
  refine ⟨Tree.textOfAll (before ++ trees), [], Tree.textOfAll behind,
    stretch.cuts_behind rfl _, fun other => ?_⟩
  dsimp only
  rw [flatMap_lines (by simp), List.map_append, List.map_singleton, List.cons_append]
  obtain ⟨left, passed, read⟩ := Go.listPaths_laid (moved (Text.join "\n".toList
    ((init.map ImportEntry.ofPath ++ [ImportEntry.ofPath final]).map fun entry =>
      indent ++ entry.text) ++ (Tree.textOfAll behind ++ ')' :: other))) rfl
  rcases @Go.ReadOn.line _ left _ [] (List.forall_mem_nil _) passed with
    ⟨next, onward, more⟩ | ⟨_, unsure⟩
  · rw [read, more, Go.listPaths_lines isLine lastLine blank onward, stretch.whole,
      Go.specPaths_append (before ++ trees), stretch.paths_behind, paths_added]
    simp
  · exact absurd (List.forall_mem_nil _) unsure

/-- In an empty group the new lines stand alone. -/
theorem grows_empty (empty : importItems list = []) :
    ∃ front old back paths, Grows (list.start.offset + 1) inner
      ⟨⟨list.start.offset + 1, list.stop.offset - 1⟩, "\n".toList ++
        ImportEntry.renderSorted indent (added.map ImportEntry.ofPath) ++ "\n".toList⟩
      front old back (some paths) ∧ paths.Perm (Tree.specPaths inner ++ added) := by
  have none : Tree.specPaths inner = [] := by
    rw [← specPaths_items (list.start.after ['(']), ← group.items_eq, empty]
    rfl
  have perm := sortBy_perm ImportEntry.before (added.map ImportEntry.ofPath)
  have nonempty : sortBy ImportEntry.before (added.map ImportEntry.ofPath) ≠ [] := by
    intro nothing
    rw [nothing] at perm
    exact filled (List.map_eq_nil_iff.1 perm.nil_eq.symm)
  obtain ⟨init, final, sorted⟩ := (List.eq_nil_or_concat' _).resolve_left nonempty
  have ofPath : ∀ entry ∈ init ++ [final], ∃ path, isLegalPath path ∧ entry = .ofPath path := by
    intro entry held
    rw [← sorted, perm.mem_iff] at held
    obtain ⟨path, asked, rfl⟩ := List.mem_map.1 held
    exact ⟨path, legal path asked, rfl⟩
  have isLine : ∀ entry ∈ init, IsLine True entry.text entry.path := by
    intro entry held
    obtain ⟨path, allowed, rfl⟩ := ofPath entry (List.mem_append_left _ held)
    exact Go.isLine_legal allowed
  have lastLine : ReadsLast final ['\n'] (some [final.path]) := by
    obtain ⟨path, allowed, rfl⟩ := ofPath final (List.mem_append_right _ List.mem_cons_self)
    exact Go.readsLast_ofPath allowed (.spaces (List.forall_mem_singleton.2 rfl))
  refine ⟨[], Tree.textOfAll inner, [], (init ++ [final]).map ImportEntry.path,
    ⟨⟨by simp, rfl, ?_⟩, fun rest => ?_⟩, ?_⟩
  · dsimp only
    rw [group.stop_eq]
    simp only [Place.offset_after, List.length_append, List.length_singleton]
    omega
  · have joined : pass true ('\n' :: (ImportEntry.renderSorted indent
        (added.map ImportEntry.ofPath) ++ (['\n'] ++ ')' :: rest))) =
          pass true (Text.join "\n".toList ((init ++ [final]).map fun entry =>
            indent ++ entry.text) ++ (['\n'] ++ ')' :: rest)) := by
      rw [Go.pass_blank rfl, ImportEntry.renderSorted, sorted]
    have read := Go.listPaths_lines isLine lastLine blank joined
    simpa using read
  · rw [none, List.nil_append, ← sorted]
    have paths := perm.map ImportEntry.path
    rwa [paths_added] at paths

end Added

end ImportGroup

/-! ### The line that is written last -/

/-- The line that is sorted to the end of a group when new imports join its last run. -/
structure WrittenLast (run : List ItemLine) (added : List Text) (line : ItemLine) : Prop where
  specs : ∀ other ∈ run, other.IsSpec
  place : ∃ front back, run = front ++ line :: back ∧
    (∀ other ∈ front, ¬ line.importPath < other.importPath) ∧
    ∀ other ∈ back, other.importPath < line.importPath
  above : ∀ path ∈ added, path < line.importPath

/-- The bracket of a group comes to stand in the comment of the line in front of it. -/
def SwallowsBracket (source : Text) (list : Located) (run : List ItemLine) (added : List Text) : Prop :=
  ∃ line, WrittenLast run added line ∧ line.EndsInComment ∧ '\n' ∉ groupTail source list

/-- Two terminators come to stand behind the last import of a group. -/
def DoublesTerminator (source : Text) (list : Located) (run : List ItemLine) (added : List Text) :
    Prop :=
  ∃ line, WrittenLast run added line ∧ ¬ line.EndsInComment ∧ line.IsEnded list ∧
    ∃ c ∈ groupTail source list, isSpace c = false

theorem WrittenLast.isLast {run : List ItemLine} {added : List Text} {line : ItemLine}
    (written : WrittenLast run added line) (source : Text) :
    IsLast (run.map (ItemLine.toEntry source) ++ added.map ImportEntry.ofPath)
      (line.toEntry source) := by
  obtain ⟨front, back, rfl, upTo, behind⟩ := written.place
  refine ⟨front.map (ItemLine.toEntry source),
    back.map (ItemLine.toEntry source) ++ added.map ImportEntry.ofPath, by simp, ?_, ?_⟩
  · exact List.forall_mem_map.2 upTo
  · exact List.forall_mem_append.2 ⟨List.forall_mem_map.2 behind, List.forall_mem_map.2 written.above⟩

/-- What is sorted to the end is a new path or the line that is written last. -/
theorem IsLast.cases {source : Text} {run : List ItemLine} {added : List Text} {last : ImportEntry}
    (specs : ∀ other ∈ run, other.IsSpec)
    (held : IsLast (run.map (ItemLine.toEntry source) ++ added.map ImportEntry.ofPath) last) :
    (∃ path ∈ added, last = .ofPath path) ∨
      ∃ line ∈ run, WrittenLast run added line ∧ last = line.toEntry source := by
  obtain ⟨front, back, whole, upTo, behind⟩ := held
  rcases List.append_eq_append_iff.1 whole with ⟨more, rfl, tail⟩ | ⟨more, split, tail⟩
  · have new : last ∈ added.map ImportEntry.ofPath :=
      tail ▸ List.mem_append_right _ List.mem_cons_self
    obtain ⟨path, asked, same⟩ := List.mem_map.1 new
    exact .inl ⟨path, asked, same.symm⟩
  · cases more with
    | nil =>
      have new : last ∈ added.map ImportEntry.ofPath := by
        rw [List.nil_append] at tail
        exact tail ▸ List.mem_cons_self
      obtain ⟨path, asked, same⟩ := List.mem_map.1 new
      exact .inl ⟨path, asked, same.symm⟩
    | cons other more =>
      obtain ⟨rfl, rfl⟩ := List.cons.inj tail
      obtain ⟨lead, rest, rfl, rfl, later⟩ := List.map_eq_append_iff.1 split
      obtain ⟨line, others, rfl, rfl, rfl⟩ := List.map_eq_cons_iff.1 later
      obtain ⟨own, new⟩ := List.forall_mem_append.1 behind
      refine .inr ⟨line, by simp, ⟨specs, ⟨lead, others, rfl, ?_, ?_⟩, ?_⟩, rfl⟩
      · exact fun other early => upTo _ (List.mem_map_of_mem early)
      · exact List.forall_mem_map.1 own
      · exact List.forall_mem_map.1 new

theorem exists_sorted (source : Text) (first : ItemLine) (rest : List ItemLine)
    (added : List Text) : ∃ init final, sortBy ImportEntry.before
      ((first :: rest).map (ItemLine.toEntry source) ++ added.map ImportEntry.ofPath) =
        init ++ [final] := by
  refine (List.eq_nil_or_concat' _).resolve_left fun none => ?_
  have perm := sortBy_perm ImportEntry.before
    ((first :: rest).map (ItemLine.toEntry source) ++ added.map ImportEntry.ofPath)
  rw [none] at perm
  cases perm.nil_eq

theorem LastRun.subset {lines earlier run : List ItemLine} (last : LastRun lines earlier run) :
    run ⊆ lines := by
  rw [last.parts]
  exact List.subset_append_right _ _

namespace ImportGroup

variable {source : Text} {list : Located} {inner : List Tree}
  (group : ImportGroup source list inner) {added : List Text}
  (legal : ∀ path ∈ added, isLegalPath path) {indent : Text}
  (blank : ∀ c ∈ indent, isBlank true c)
include group

theorem groupTail_ending {items : List Located} {last : Located}
    (parts : importItems list = items ++ [last]) : IsEnding (groupTail source list) := by
  have ends : importItems list = items ++ [last] ++ [] := by
    rw [parts, List.append_nil]
  obtain ⟨before, trees, behind, stretch⟩ := group.exists_stretch ends (List.cons_ne_nil _ _)
  obtain ⟨stop, -⟩ := stretch.last last rfl
  have tail := group.groupTail_eq stretch.whole (by rw [parts, List.getLast?_concat])
    (by rw [stop, Tree.textOfAll_append])
  obtain ⟨_, _, laid⟩ := group.laid
  rw [stretch.whole] at laid
  obtain ⟨_, -, later⟩ := laid.split
  rw [tail]
  exact (Go.ending_of_laid later stretch.back_eq.symm).1

omit group in
theorem exists_last_item {earlier rest : List ItemLine} {first : ItemLine}
    (parts : ItemLine.divide (importItems list) = earlier ++ first :: rest) :
    ∃ items, importItems list = items ++ [(rest.getLastD first).last] := by
  apply List.getLast?_eq_some_iff.1
  rw [← ItemLine.items_divide (importItems list), parts, List.flatMap_append, List.getLast?_append,
    getLast?_items]
  rfl

variable {earlier run : List ItemLine}
  (last : LastRun (ItemLine.divide (importItems list)) earlier run)
  (found : ImportLine.lastRun ((ItemLine.divide (importItems list)).map .ofItems) =
    run.map .ofItems)
include legal blank last found

/-- A group takes new imports if the line that is written last can stand in front of the bracket. -/
theorem grows_of_fit (filled : added ≠ []) (whole : ¬ SwallowsBracket source list run added)
    (single : ¬ DoublesTerminator source list run added) :
    ∃ front old back paths, Grows (list.start.offset + 1) inner
      (groupEdit source (list.start.offset + 1) (list.stop.offset - 1) indent
        ((ItemLine.divide (importItems list)).map .ofItems) (added.map ImportEntry.ofPath))
      front old back (some paths) ∧ paths.Perm (Tree.specPaths inner ++ added) := by
  cases run with
  | nil =>
    have none : importItems list = [] := by
      rw [← ItemLine.items_divide (importItems list), last.filled rfl]
      rfl
    rw [groupEdit, found]
    exact group.grows_empty filled legal blank none
  | cons first rest =>
    obtain ⟨items, parts⟩ := exists_last_item last.parts
    by_cases specs : ∀ line ∈ first :: rest, line.IsSpec
    · rw [group.groupEdit_specs last.parts found _ _ indent specs]
      have ending := group.groupTail_ending parts
      obtain ⟨init, final, sorted⟩ := exists_sorted source first rest added
      have lastLine : ReadsLast final (groupTail source list) (some [final.path]) := by
        rcases (ImportEntry.isLast_of_sortBy sorted).cases specs with
          ⟨path, asked, rfl⟩ | ⟨line, inside, written, rfl⟩
        · exact Go.readsLast_ofPath (legal path asked) ending
        · refine (group.readsLast (last.subset inside) (specs line inside) ending).1 ?_ ?_
          · intro comment
            by_contra unbroken
            exact whole ⟨line, written, comment, unbroken⟩
          · intro calm ended c held
            by_contra mark
            exact single ⟨line, written, calm, ended, c, held, Bool.eq_false_iff.2 mark⟩
      obtain ⟨front, old, back, before, grows, paths⟩ :=
        group.grows_sorted last.parts specs legal blank sorted lastLine
      refine ⟨front, old, back, _, grows, ?_⟩
      have perm := (sortBy_perm ImportEntry.before ((first :: rest).map (ItemLine.toEntry source) ++
        added.map ImportEntry.ofPath)).map ImportEntry.path
      rw [sorted, List.map_append, List.map_append, paths_added, List.map_map] at perm
      rw [paths, List.append_assoc]
      exact perm.append_left before
    · rw [group.groupEdit_other last.parts found _ _ indent specs]
      obtain ⟨front, old, back, grows⟩ := group.grows_appended filled legal blank parts
      exact ⟨front, old, back, _, grows, List.Perm.refl _⟩

/-- A group is none any more if two terminators come together at its end. -/
theorem grows_of_doubled (doubled : DoublesTerminator source list run added) :
    ∃ front old back, Grows (list.start.offset + 1) inner
      (groupEdit source (list.start.offset + 1) (list.stop.offset - 1) indent
        ((ItemLine.divide (importItems list)).map .ofItems) (added.map ImportEntry.ofPath))
      front old back none := by
  obtain ⟨line, written, calm, ended, more⟩ := doubled
  obtain ⟨lead, others, parts, -, -⟩ := written.place
  have inside : line ∈ run := by
    rw [parts]
    exact List.mem_append_right _ List.mem_cons_self
  cases run with
  | nil => cases inside
  | cons first rest =>
    obtain ⟨items, parts⟩ := exists_last_item last.parts
    obtain ⟨init, final, sorted⟩ := exists_sorted source first rest added
    obtain rfl := (ImportEntry.isLast_of_sortBy sorted).unique (written.isLast source)
    have lastLine := (group.readsLast (last.subset inside) (written.specs line inside)
      (group.groupTail_ending parts)).2 calm ended more
    obtain ⟨front, old, back, before, grows, -⟩ :=
      group.grows_sorted last.parts written.specs legal blank sorted lastLine
    rw [group.groupEdit_specs last.parts found _ _ indent written.specs]
    exact ⟨front, old, back, grows⟩

end ImportGroup

end GoGraft
