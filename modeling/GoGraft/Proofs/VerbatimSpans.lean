import GoGraft.Proofs.BodyFields
import GoGraft.Proofs.LineBraces
import GoGraft.Transform
import Mathlib.Data.List.TakeWhile

/-! Where the lines of a body stand that are kept as they are. Each is taken from the start of its
source line on. Two such lines never share a source line, so they stand apart and in order, and all
of them end in front of the closing brace. The first may share its source line with the opening
brace, and then it starts in front of the body. -/

namespace GoGraft

/-! ### Rows and starts of lines -/

namespace Text

/-- The row of an offset. -/
def rowAt (source : Text) (offset : Nat) : Nat :=
  breaks (source.take offset)

theorem rowAt_add (source : Text) (low length : Nat) :
    rowAt source (low + length) = rowAt source low + breaks ((source.drop low).take length) := by
  rw [rowAt, List.take_add, breaks, List.countP_append]
  rfl

theorem rowAt_mono (source : Text) {low high : Nat} (order : low ≤ high) :
    rowAt source low ≤ rowAt source high := by
  obtain ⟨length, rfl⟩ := Nat.exists_eq_add_of_le order
  rw [rowAt_add]
  exact Nat.le_add_right _ _

theorem lineStart_le (source : Text) (offset : Nat) : lineStart source offset ≤ offset :=
  Nat.sub_le _ _

/-- A line starts behind an earlier offset exactly if a newline stands between them. -/
theorem lt_lineStart_iff {source : Text} {low high : Nat} (order : low ≤ high)
    (inside : high ≤ source.length) :
    low < lineStart source high ↔ rowAt source low < rowAt source high := by
  obtain ⟨length, rfl⟩ := Nat.exists_eq_add_of_le order
  rw [rowAt_add, lineStart, List.take_add, List.reverse_append, List.takeWhile_append]
  have size : ((source.drop low).take length).reverse.length = length := by
    rw [List.length_reverse, List.length_take, List.length_drop]
    omega
  have turned : breaks ((source.drop low).take length) =
      breaks ((source.drop low).take length).reverse := (List.countP_reverse).symm
  rw [turned]
  generalize ((source.drop low).take length).reverse = between at size
  have front := List.takeWhile_prefix (· != '\n') (l := between)
  have short := front.length_le
  have unbroken : breaks between = 0 ↔ between.takeWhile (· != '\n') = between := by
    rw [breaks, List.countP_eq_zero, List.takeWhile_eq_self_iff]
    simp
  split
  next whole =>
    have none_broken := unbroken.2 (front.eq_of_length whole)
    rw [List.length_append]
    omega
  next cut =>
    have broken : breaks between ≠ 0 := fun none_broken =>
      cut (congrArg List.length (unbroken.1 none_broken))
    omega

/-- Offsets on one row have one start of their line. -/
theorem lineStart_eq_of_rowAt {source : Text} {low high : Nat} (order : low ≤ high)
    (inside : high ≤ source.length) (same : rowAt source low = rowAt source high) :
    lineStart source high = lineStart source low := by
  have alike {offset : Nat} (before : offset ≤ low) :
      offset < lineStart source high ↔ offset < lineStart source low := by
    rw [lt_lineStart_iff (before.trans order) inside, lt_lineStart_iff before (order.trans inside),
      same]
  have above : lineStart source high ≤ low := by
    have none_between := (lt_lineStart_iff order inside).not.2 (by omega)
    omega
  have first := alike above
  have second := alike (lineStart_le source low)
  omega

end Text

namespace Located.StandsIn

variable {source : Text} {located : Located} (stands : located.StandsIn source)
include stands

theorem start_row : located.start.row = Text.rowAt source located.start.offset := by
  obtain ⟨front, back, rfl, start, _⟩ := stands
  simp [start, Place.after, Text.rowAt, Text.breaks]

theorem stop_row : located.stop.row = Text.rowAt source located.stop.offset := by
  obtain ⟨front, back, rfl, start, stop⟩ := stands
  have length : front.length + located.text.length = (front ++ located.text).length :=
    List.length_append.symm
  simp only [stop, start, Place.after, Text.rowAt, Text.breaks, Nat.zero_add, length,
    List.take_left, List.countP_append]

end Located.StandsIn

/-! ### Lines of items -/

namespace ItemLine

/-- A line of items ends on another row than the next one starts on. -/
theorem divide_isChain (items : List Located) :
    (divide items).IsChain fun one other => one.stopRow ≠ other.startRow := by
  have apart := List.isChain_getLast_head_splitBy
    (fun one next : Located => one.stop.row == next.start.row) items
  have filled := List.nil_notMem_splitBy
    (fun one next : Located => one.stop.row == next.start.row) items
  unfold divide
  generalize List.splitBy _ items = groups at apart filled
  induction groups with
  | nil => exact List.isChain_nil
  | cons group rest ih =>
    obtain ⟨this, later⟩ := not_or.1 (List.mem_cons.not.1 filled)
    obtain ⟨next, others⟩ := List.isChain_cons.1 apart
    obtain ⟨first, more, rfl⟩ := List.exists_cons_of_ne_nil (Ne.symm this)
    simp only [List.filterMap_cons, List.isChain_cons]
    refine ⟨?_, ih others later⟩
    cases rest with
    | nil => intro line none; cases none
    | cons group rest =>
      have filled := (not_or.1 (List.mem_cons.not.1 later)).1
      obtain ⟨head, tail, rfl⟩ := List.exists_cons_of_ne_nil (Ne.symm filled)
      obtain ⟨_, _, different⟩ := next _ rfl
      simp only [List.filterMap_cons]
      rintro line ⟨⟩
      have rows : ItemLine.last ⟨first, more⟩ = (first :: more).getLast (List.cons_ne_nil _ _) := by
        rw [ItemLine.last, List.getLast_eq_getLastD]
      rw [ItemLine.stopRow, ItemLine.startRow, rows]
      simpa using different

variable {source : Text} {items : List Located} (stand : ∀ item ∈ items, item.StandsIn source)
include stand

theorem startRow_eq {line : ItemLine} (inside : line ∈ divide items) :
    line.startRow = Text.rowAt source line.span.start :=
  (stand _ (items_subset inside List.mem_cons_self)).start_row

theorem stopRow_eq {line : ItemLine} (inside : line ∈ divide items) :
    line.stopRow = Text.rowAt source line.span.stop :=
  (stand _ (items_subset inside line.last_mem_items)).stop_row

theorem rows_increase
    (ordered : items.Pairwise fun one other => one.stop.offset ≤ other.start.offset) :
    (divide items).Pairwise fun one other =>
      Text.rowAt source one.span.stop < Text.rowAt source other.span.start := by
  have proper : ∀ line ∈ divide items, line.span.start ≤ line.span.stop := by
    refine fun line inside => span_divide ordered (fun item held => ?_) inside
    have stop := (stand item held).stop_eq
    omega
  have chain : (divide items).IsChain fun one other =>
      Text.rowAt source one.span.stop ≠ Text.rowAt source other.span.start := by
    refine (divide_isChain items).imp_of_mem_imp fun one other first second rows => ?_
    rwa [← stopRow_eq stand first, ← startRow_eq stand second]
  have order := divide_ordered ordered
  generalize divide items = lines at proper chain order
  induction lines with
  | nil => exact List.Pairwise.nil
  | cons line rest ih =>
    obtain ⟨next_row, rows⟩ := List.isChain_cons.1 chain
    obtain ⟨behind, later⟩ := List.pairwise_cons.1 order
    have others := fun other inside => proper other (List.mem_cons_of_mem line inside)
    refine List.pairwise_cons.2 ⟨fun other inside => ?_, ih others rows later⟩
    cases rest with
    | nil => cases inside
    | cons next rest =>
      have start := Text.rowAt_mono source (behind next List.mem_cons_self)
      have different := next_row next rfl
      rcases List.mem_cons.1 inside with rfl | beyond
      · omega
      · have size := Text.rowAt_mono source (others next List.mem_cons_self)
        have after := Text.rowAt_mono source ((List.pairwise_cons.1 later).1 other beyond)
        omega

/-- A line of items ends in front of the source line on which a later one starts. -/
theorem divide_apart
    (ordered : items.Pairwise fun one other => one.stop.offset ≤ other.start.offset) :
    (divide items).Pairwise fun one other =>
      one.span.stop < Text.lineStart source other.span.start := by
  refine ((divide_ordered ordered).and (rows_increase stand ordered)).imp_of_mem ?_
  rintro one other _ second ⟨order, rows⟩
  refine (Text.lt_lineStart_iff order ?_).2 rows
  have stop := (stand _ (items_subset second List.mem_cons_self)).stop_eq
  have bound := (stand _ (items_subset second List.mem_cons_self)).stop_le
  simp only [ItemLine.span]
  omega

/-- The span of a line that is kept as it is. -/
def verbatimSpan? (source : Text) (line : ItemLine) : Option Span :=
  if line.isFieldLine then none else some ⟨Text.lineStart source line.span.start, line.span.stop⟩

omit stand in
theorem verbatimSpan?_eq_some {line : ItemLine} {span : Span} :
    line.verbatimSpan? source = some span ↔
      ¬ line.isFieldLine ∧ span = ⟨Text.lineStart source line.span.start, line.span.stop⟩ := by
  rw [verbatimSpan?]
  split
  next field => simp [field]
  next kept => simp [kept, eq_comm]

end ItemLine

/-! ### Bodies -/

def BodyLine.verbatimSpan? : BodyLine → Option Span
  | .verbatim span _ => some span
  | _ => none

/-- The spans of the lines of a body that are kept as they are. -/
def StructBody.verbatimSpans (body : StructBody) : List Span :=
  body.lines.filterMap BodyLine.verbatimSpan?

theorem verbatimSpans_bodyLines (source : Text) (number : Nat) (above : Option Nat)
    (lines : List ItemLine) :
    (bodyLines source number above lines).filterMap BodyLine.verbatimSpan? =
      lines.filterMap (ItemLine.verbatimSpan? source) := by
  induction lines generalizing number above with
  | nil => rfl
  | cons line rest ih =>
    have gap (above : Option Nat) : (if above.any fun row => row + 1 < line.startRow then
        [BodyLine.blank] else []).filterMap BodyLine.verbatimSpan? = [] := by
      split <;> rfl
    have own : (line.toBodyLine source number).verbatimSpan? = line.verbatimSpan? source := by
      rw [ItemLine.toBodyLine, ItemLine.verbatimSpan?]
      split <;> rfl
    rw [bodyLines, List.filterMap_append, gap, List.nil_append, List.filterMap_cons,
      List.filterMap_cons, own, ih]

theorem head?_bodyLines (source : Text) (number : Nat) (lines : List ItemLine) :
    (bodyLines source number none lines).head? =
      lines.head?.map (ItemLine.toBodyLine source number) := by
  cases lines <;> rfl

/-- The lines of a body that are kept as they are: they stand apart and in order, and end in the
body. Each starts in the body too, unless it is the first line and shares the line of the opening
brace: then it starts where that line starts. -/
structure StructBody.VerbatimInOrder (source : Text) (body : StructBody) : Prop where
  ordered : body.verbatimSpans.Pairwise fun one other => one.stop < other.start
  ends : ∀ span ∈ body.verbatimSpans, span.start ≤ span.stop ∧ span.stop ≤ body.closing
  starts : ∀ span ∈ body.verbatimSpans, body.opening < span.start ∨
    span.start = Text.lineStart source body.opening ∧
      ∃ held, body.lines.head? = some (.verbatim span held)

section List

variable {source : Text} {list : Located} (stands : list.StandsIn source) {middle : List Go.Tree}
  (shape : list.tree =
    .node .fieldList (.leaf .token ['\x7b'] :: (middle ++ [.leaf .token ['\x7d']])))
include stands shape

/-- The items of a list stand between its braces. -/
theorem fieldItems_between : ∀ item ∈ fieldItems list,
    list.start.offset + 1 ≤ item.start.offset ∧ item.stop.offset ≤ list.stop.offset - 1 := by
  intro item inside
  obtain ⟨child, kind⟩ := List.mem_filter.1 inside
  have stop := stands.stop_eq
  simp only [Located.children, shape, Located.sideBySide, Located.sideBySide_append] at child
  simp only [Located.text, shape, Go.Tree.text, Go.Tree.textOfAll, Go.Tree.textOfAll_append,
    List.length_append, List.length_cons, List.length_nil] at stop
  rcases List.mem_cons.1 child with rfl | later
  · cases kind
  · rcases List.mem_append.1 later with held | last
    · have bounds := Located.bounds_of_mem_sideBySide held
      simp only [Place.offset_after, Go.Tree.text, List.length_singleton] at bounds
      omega
    · cases List.mem_singleton.1 last
      cases kind

/-- The opening brace and what stands right behind it are on one row. -/
theorem rowAt_opening : Text.rowAt source (list.start.offset + 1) = list.start.row := by
  have brace := @Located.StandsIn.getElem?_eq source list stands 0
  simp only [Located.text, shape, Go.Tree.text, Go.Tree.textOfAll, List.cons_append,
    List.length_cons, Nat.zero_lt_succ, List.getElem?_cons_zero, forall_true_left, Nat.add_zero] at brace
  have next : (source.drop list.start.offset).take 1 = ['\x7b'] := by
    rw [List.take_one, List.head?_drop, brace]
    rfl
  rw [Text.rowAt_add, next, stands.start_row]
  rfl

/-- A line is on the row of the opening brace or starts, with its source line, behind the brace. -/
theorem lineStart_of_row {line : ItemLine} (inside : line ∈ ItemLine.divide (fieldItems list)) :
    if list.start.row < line.startRow then
      list.start.offset + 1 < Text.lineStart source line.span.start
    else
      Text.lineStart source line.span.start = Text.lineStart source (list.start.offset + 1) ∧
        Text.lineStart source (list.start.offset + 1) ≤ list.start.offset := by
  have item := ItemLine.items_subset inside List.mem_cons_self
  have first := stands.child (List.mem_filter.1 item).1
  have opening : list.start.offset + 1 ≤ line.span.start :=
    (fieldItems_between stands shape _ item).1
  have bound : line.span.start ≤ source.length := by
    have stop := first.stop_eq
    have inner := first.stop_le
    simp only [ItemLine.span]
    omega
  have row : line.startRow = Text.rowAt source line.span.start := first.start_row
  rw [row, ← rowAt_opening stands shape]
  split
  next later => exact (Text.lt_lineStart_iff opening bound).2 later
  next same =>
    have rows := Text.rowAt_mono source opening
    refine ⟨Text.lineStart_eq_of_rowAt opening bound (by omega), ?_⟩
    -- The brace is no newline, so its line starts in front of it.
    rw [Text.lineStart_eq_of_rowAt (Nat.le_succ _) (opening.trans bound)]
    · exact Text.lineStart_le _ _
    · rw [rowAt_opening stands shape, stands.start_row]

variable {body : StructBody} (opening : body.opening = list.start.offset + 1)
  (closing : body.closing = list.stop.offset - 1)
  (lines : body.lines = bodyLines source 0 none (ItemLine.divide (fieldItems list)))
include opening closing lines

theorem verbatimInOrder : body.VerbatimInOrder source := by
  have spans : body.verbatimSpans =
      (ItemLine.divide (fieldItems list)).filterMap (ItemLine.verbatimSpan? source) := by
    rw [StructBody.verbatimSpans, lines, verbatimSpans_bodyLines]
  have stand : ∀ item ∈ fieldItems list, item.StandsIn source :=
    fun _ inside => stands.child (List.mem_filter.1 inside).1
  have apart := ItemLine.divide_apart stand (fieldItems_ordered list)
  have proper {line : ItemLine} (held : line ∈ ItemLine.divide (fieldItems list)) :
      line.span.start ≤ line.span.stop := by
    refine ItemLine.span_divide (fieldItems_ordered list) (fun item among => ?_) held
    have stop := (stand item among).stop_eq
    omega
  refine ⟨?_, ?_, ?_⟩
  · rw [spans]
    refine List.pairwise_filterMap.2 (apart.imp fun {one other} behind span first next second => ?_)
    rw [(ItemLine.verbatimSpan?_eq_some.1 first).2, (ItemLine.verbatimSpan?_eq_some.1 second).2]
    exact behind
  · intro span inside
    rw [spans] at inside
    obtain ⟨line, held, same⟩ := List.mem_filterMap.1 inside
    have last := fieldItems_between stands shape _ (ItemLine.items_subset held line.last_mem_items)
    rw [(ItemLine.verbatimSpan?_eq_some.1 same).2, closing]
    exact ⟨(Text.lineStart_le _ _).trans (proper held), last.2⟩
  · intro span inside
    rw [spans] at inside
    obtain ⟨line, held, same⟩ := List.mem_filterMap.1 inside
    obtain ⟨kept, rfl⟩ := ItemLine.verbatimSpan?_eq_some.1 same
    have row := lineStart_of_row stands shape held
    rw [opening, lines, head?_bodyLines]
    split at row
    next => exact .inl row
    next =>
      refine .inr ⟨row.1, ?_⟩
      cases all : ItemLine.divide (fieldItems list) with
      | nil => rw [all] at held; cases held
      | cons first rest =>
        have among : first ∈ ItemLine.divide (fieldItems list) := all ▸ List.mem_cons_self
        rw [all] at held apart
        rcases List.mem_cons.1 held with rfl | later
        · exact ⟨_, by rw [List.head?_cons, Option.map_some, ItemLine.toBodyLine, if_neg kept]⟩
        · -- A later line starts behind the first one, which is behind the brace.
          have behind := (List.pairwise_cons.1 apart).1 line later
          have start := (fieldItems_between stands shape _
            (ItemLine.items_subset among List.mem_cons_self)).1
          have order := proper among
          simp only [ItemLine.span] at behind start order row
          omega

/-- All lines that are kept stand in the body exactly if its first line is a field or starts on a
later row than the opening brace. -/
theorem verbatimSpans_inside_iff :
    (∀ span ∈ body.verbatimSpans, span.Inside ⟨body.opening, body.closing⟩) ↔
      ∀ line ∈ (ItemLine.divide (fieldItems list)).head?,
        line.isFieldLine ∨ list.start.row < line.startRow := by
  obtain ⟨_, ends, starts⟩ := verbatimInOrder stands shape opening closing lines
  constructor
  · intro inside line first
    have held := List.mem_of_mem_head? first
    by_contra other
    obtain ⟨kept, row⟩ := not_or.1 other
    have among : ⟨Text.lineStart source line.span.start, line.span.stop⟩ ∈ body.verbatimSpans := by
      rw [StructBody.verbatimSpans, lines, verbatimSpans_bodyLines]
      exact List.mem_filterMap.2 ⟨line, held, ItemLine.verbatimSpan?_eq_some.2 ⟨kept, rfl⟩⟩
    have start := (inside _ among).1
    have leaves := lineStart_of_row stands shape held
    rw [if_neg row] at leaves
    simp only [opening] at start
    omega
  · intro first span inside
    have stop := ends span inside
    refine ⟨?_, stop⟩
    rcases starts span inside with behind | ⟨start, held, head⟩
    · exact Nat.le_of_lt behind
    · rw [lines, head?_bodyLines] at head
      obtain ⟨line, among, same⟩ := Option.map_eq_some_iff.1 head
      have leaves := lineStart_of_row stands shape (List.mem_of_mem_head? among)
      rw [ItemLine.toBodyLine] at same
      rcases first line among with field | row
      · rw [if_pos field] at same
        cases same
      · rw [if_pos row] at leaves
        split at same
        · cases same
        · cases same
          rw [opening]
          exact Nat.le_of_lt leaves

end List

/-- The lines of a body that are kept as they are stand apart, in order, and end in the body. They
all stand in the body exactly if its first item is a field on a line of its own, or is on a later
row than the opening brace. -/
theorem verbatim_lines_stay_in_body_iff {source : Text} {file : SourceFile}
    (read : SourceFile.parse? source = some file) :
    ∃ trees, Go.parse? source = some trees ∧
      ∀ struct ∈ file.structs, struct.body.VerbatimInOrder source ∧
        ∃ spec ∈ typeSpecs (Located.sideBySide {} trees), ∃ type list,
          StructDeclaration.ofSpec? source spec = some struct ∧ structNode? spec = some type ∧
          type.node? .fieldList = some list ∧
          ((∀ span ∈ struct.body.verbatimSpans,
              span.Inside ⟨struct.body.opening, struct.body.closing⟩) ↔
            ∀ line ∈ (ItemLine.divide (fieldItems list)).head?,
              line.isFieldLine ∨ list.start.row < line.startRow) := by
  obtain ⟨trees, parsed, same⟩ := Option.map_eq_some_iff.1 read
  refine ⟨trees, parsed, fun struct inside => ?_⟩
  rw [← same] at inside
  obtain ⟨spec, among, made⟩ := List.mem_filterMap.1 inside
  have whole := made
  simp only [StructDeclaration.ofSpec?, Option.bind_eq_bind, Option.bind_eq_some_iff] at whole
  obtain ⟨name, _, type, found, list, listed, built⟩ := whole
  cases built
  obtain ⟨holder, outer, inner, _⟩ := structNode?_eq_some found
  obtain ⟨child, kind⟩ := Located.mem_of_node? listed
  have part := (((spec_partOf parsed among).1.child outer).child inner).child child
  obtain ⟨children, tree⟩ := Located.isNode_iff.1 kind
  obtain ⟨middle, rfl⟩ := Go.fieldList_children parsed (tree ▸ part.occurs)
  exact ⟨verbatimInOrder part.stands tree rfl rfl rfl, spec, among, type, list, made, found, listed,
    verbatimSpans_inside_iff part.stands tree rfl rfl rfl⟩

/-- A comment and two fields on one row, each on rows of its own. -/
theorem verbatim_lines_stay_in_body_of_comment :
    let source := "package a\ntype A struct \x7b\n\t// b\n\n\tB b; C c\n\x7d".toList
    ∃ file, SourceFile.parse? source = some file ∧
      file.structs.map (fun struct => (struct.body.opening, struct.body.verbatimSpans)) =
        [(25, [⟨26, 31⟩, ⟨33, 42⟩])] ∧
      ∀ struct ∈ file.structs, struct.body.VerbatimInOrder source := by
  intro source
  have spans : (SourceFile.parse? source).map (fun file =>
      file.structs.map fun struct => (struct.body.opening, struct.body.verbatimSpans)) =
        some [(25, [⟨26, 31⟩, ⟨33, 42⟩])] := by decide +kernel
  obtain ⟨file, read, places⟩ := Option.map_eq_some_iff.1 spans
  obtain ⟨_, _, all⟩ := verbatim_lines_stay_in_body_iff read
  exact ⟨file, read, places, fun struct inside => (all struct inside).1⟩

/-- Two fields on the row of the opening brace are kept with all that stands in front of them on
that row, so the header, and the end of the declaration before it, come into the body. -/
theorem header_copied_into_body :
    let source := ("package a\ntype B struct \x7b\n\x7d; type A struct \x7b X int; Y int \x7d\n" ++
      "// @gofield: Z int\n").toList
    let output := ("package a\ntype B struct \x7b\n\x7d; type A struct \x7b\n" ++
      "\x7d; type A struct \x7b X int; Y int\n\tZ int\n\x7d\n// @gofield: Z int\n").toList
    (∃ file, SourceFile.parse? source = some file ∧ ∃ struct ∈ file.structs,
      ∃ span ∈ struct.body.verbatimSpans, span.start < struct.body.opening) ∧
      ∃ result, transform source = .ok result ∧ result.output = output := by
  intro source output
  have spans : (SourceFile.parse? source).map (fun file =>
      file.structs.map fun struct => (struct.body.opening, struct.body.verbatimSpans)) =
        some [(25, []), (44, [⟨26, 57⟩])] := by decide +kernel
  have ran : transform source = .ok ⟨source, output, { fieldsAdded := ["A.Z".toList] }⟩ := by
    decide +kernel
  obtain ⟨file, read, places⟩ := Option.map_eq_some_iff.1 spans
  have held : ((44, [⟨26, 57⟩]) : Nat × List Span) ∈
      file.structs.map fun struct => (struct.body.opening, struct.body.verbatimSpans) := by
    simp [places]
  obtain ⟨struct, inside, same⟩ := List.mem_map.1 held
  have opening : struct.body.opening = 44 := congrArg Prod.fst same
  have span : struct.body.verbatimSpans = [⟨26, 57⟩] := congrArg Prod.snd same
  refine ⟨⟨file, read, struct, inside, ⟨26, 57⟩, by simp [span], by simp [opening]⟩, _, ran, rfl⟩

end GoGraft
