import GoGraft.Proofs.CheckedEmission
import GoGraft.Proofs.ExactReports
import GoGraft.Proofs.FileEdits

/-! What adding imports does to the text of a group. The lines behind the last free row are sorted
together with the new imports if each of them is one import; otherwise the new ones are put behind
them, and nothing else changes. -/

namespace GoGraft

open Go (Tree Slot Laid ImportShape isTail)

/-! ### Runs of lines -/

namespace ItemLine

/-- At least one row is free between a line and the next one. -/
def IsApart (one next : ItemLine) : Prop :=
  one.stopRow + 1 < next.startRow

/-- One import on one row, with nothing but comments behind it. -/
def IsSpec (line : ItemLine) : Prop :=
  line.startRow = line.stopRow ∧ line.first.isNode .importSpec ∧
    ∀ item ∈ line.rest, item.isComment

instance (line : ItemLine) : Decidable line.IsSpec :=
  inferInstanceAs (Decidable (_ ∧ _ ∧ _))

/-- The path of the import on a line. -/
def importPath (line : ItemLine) : Text :=
  (importPath? line.first).getD []

/-- The import on a line, as the source has it. -/
def toEntry (source : Text) (line : ItemLine) : ImportEntry :=
  ⟨line.importPath, Text.slice source line.span⟩

end ItemLine

/-- The lines after the last free row between two lines, and those in front of it. -/
structure LastRun (lines earlier run : List ItemLine) : Prop where
  parts : lines = earlier ++ run
  filled : run = [] → lines = []
  joined : run.IsChain fun one next => ¬ one.IsApart next
  apart : ∀ one ∈ earlier.getLast?, ∀ next ∈ run.head?, one.IsApart next

/-- The run that takes new imports starts behind the last free row. -/
theorem exists_lastRun_cons (first : ItemLine) (rest : List ItemLine) :
    ∃ earlier start others, LastRun (first :: rest) earlier (start :: others) ∧
      ImportLine.lastRun ((first :: rest).map .ofItems) = (start :: others).map .ofItems := by
  induction rest generalizing first with
  | nil =>
    exact ⟨[], first, [], ⟨rfl, (absurd · (List.cons_ne_nil _ _)), .singleton _,
      fun _ none => by cases none⟩, rfl⟩
  | cons next rest ih =>
    obtain ⟨earlier, start, others, ⟨parts, -, joined, apart⟩, found⟩ := ih next
    have length := congrArg List.length parts
    simp only [List.length_cons, List.length_append] at length
    rw [List.map_cons] at found
    rw [List.map_cons, List.map_cons, ImportLine.lastRun, found]
    split
    next whole =>
      -- The run takes all lines so far, and the first line goes with them.
      obtain rfl : earlier = [] := by
        apply List.eq_nil_of_length_eq_zero
        have all := whole.1
        simp only [List.length_map, List.length_cons] at all
        omega
      obtain ⟨rfl, rfl⟩ := List.cons.inj parts
      exact ⟨[], first, next :: rest, ⟨rfl, (absurd · (List.cons_ne_nil _ _)),
        .cons_cons whole.2 joined, fun _ none => by cases none⟩, rfl⟩
    next cut =>
      refine ⟨first :: earlier, start, others, ⟨by rw [parts]; rfl,
        (absurd · (List.cons_ne_nil _ _)), joined, ?_⟩, rfl⟩
      cases earlier with
      | nil =>
        obtain ⟨rfl, rfl⟩ := List.cons.inj parts
        intro one last line head
        cases last
        cases head
        by_contra near
        exact cut ⟨by simp, near⟩
      | cons other earlier =>
        rwa [List.getLast?_cons_cons]

theorem exists_lastRun (lines : List ItemLine) : ∃ earlier run, LastRun lines earlier run ∧
    ImportLine.lastRun (lines.map .ofItems) = run.map .ofItems := by
  cases lines with
  | nil => exact ⟨[], [], ⟨rfl, fun _ => rfl, .nil, fun _ none => nomatch none⟩, rfl⟩
  | cons first rest =>
    obtain ⟨earlier, start, others, held⟩ := exists_lastRun_cons first rest
    exact ⟨earlier, start :: others, held⟩

/-! ### Sorting -/

/-- A list sorted by paths, in which imports with one path keep their order. -/
structure StablySorted (entries sorted : List ImportEntry) : Prop where
  perm : sorted.Perm entries
  ordered : sorted.Pairwise fun one other => ¬ other.path < one.path
  stable : ∀ path, sorted.filter (·.path == path) = entries.filter (·.path == path)

namespace ImportEntry

theorem before_iff {one other : ImportEntry} : before one other ↔ ¬ other.path < one.path := by
  rw [before, Bool.not_eq_true', decide_eq_false_iff_not]

theorem before_trans {one other third : ImportEntry} (first : ¬ other.path < one.path)
    (second : ¬ third.path < other.path) : ¬ third.path < one.path :=
  List.not_lt.2 (List.le_trans (List.not_lt.1 first) (List.not_lt.1 second))

theorem filter_insertSorted (path : Text) (entry : ImportEntry) (entries : List ImportEntry) :
    (insertSorted before entry entries).filter (·.path == path) =
      (entry :: entries).filter (·.path == path) := by
  induction entries with
  | nil => rfl
  | cons other rest ih =>
    rw [insertSorted]
    split
    next => rfl
    next behind =>
      -- Two entries that change places have different paths.
      have differ : entry.path ≠ other.path := by
        intro same
        refine behind (before_iff.2 ?_)
        rw [same]
        exact List.lt_irrefl _
      rw [List.filter_cons, ih, List.filter_cons, List.filter_cons, List.filter_cons]
      by_cases own : entry.path = path
      · have apart : (other.path == path) = false := by
          rw [beq_eq_false_iff_ne]
          exact fun same => differ (own.trans same.symm)
        simp [own, apart]
      · have apart : (entry.path == path) = false := beq_eq_false_iff_ne.2 own
        simp [apart]

theorem stablySorted_sortBy (entries : List ImportEntry) :
    StablySorted entries (sortBy before entries) where
  perm := sortBy_perm before entries
  ordered := by
    have total (one other : ImportEntry) : before one other ∨ before other one := by
      rw [before_iff, before_iff]
      exact (List.le_total one.path other.path).imp List.not_lt.2 List.not_lt.2
    have trans (one other third : ImportEntry) (first : before one other)
        (second : before other third) : before one third := by
      rw [before_iff] at first second ⊢
      exact before_trans first second
    exact (pairwise_sortBy total trans entries).imp before_iff.1
  stable path := by
    induction entries with
    | nil => rfl
    | cons entry rest ih =>
      change (insertSorted before entry (sortBy before rest)).filter _ = _
      rw [filter_insertSorted, List.filter_cons, List.filter_cons, ih]

end ImportEntry

/-! ### Text between lines -/

/-- Texts one behind the other, with nothing but white space and terminators between them. -/
inductive Separated : List Text → Text → Prop where
  | last (text : Text) : Separated [text] text
  | cons {text space rest : Text} {texts : List Text} (tails : ∀ c ∈ space, isTail c)
      (others : Separated texts rest) : Separated (text :: texts) (text ++ space ++ rest)

theorem slice_split (source : Text) {start middle stop : Nat} (first : start ≤ middle)
    (second : middle ≤ stop) :
    Text.slice source ⟨start, stop⟩ =
      Text.slice source ⟨start, middle⟩ ++ Text.slice source ⟨middle, stop⟩ := by
  have parts : stop - start = (middle - start) + (stop - middle) := by omega
  have behind : start + (middle - start) = middle := by omega
  simp only [Text.slice]
  rw [parts, List.take_add, List.drop_drop, behind]

theorem Laid.item_of_mem {Item : Tree → Text → Prop} {slot last : Slot} {trees : List Tree}
    {after : Text} (laid : Laid Item slot trees after last) {kind : Go.NodeKind}
    {children : List Tree} (inside : Go.Tree.node kind children ∈ trees) :
    ∃ behind, Item (.node kind children) behind := by
  induction laid with
  | nil => cases inside
  | blank _ _ ih | comment _ _ ih | terminator _ _ ih =>
    rcases List.mem_cons.1 inside with same | later
    · cases same
    · exact ih later
  | item item _ ih =>
    rcases List.mem_cons.1 inside with same | later
    · rw [same]
      exact ⟨_, item⟩
    · exact ih later

theorem importLines_ordered {list : Located} {earlier rest : List ItemLine} {first line : ItemLine}
    (parts : ItemLine.divide (importItems list) = earlier ++ first :: rest)
    (held : line ∈ earlier) : line.span.stop ≤ first.span.start := by
  have ordered := ItemLine.divide_ordered (list.children_ordered.filter Located.isImportItem)
  change (ItemLine.divide (importItems list)).Pairwise _ at ordered
  rw [parts] at ordered
  exact (List.pairwise_append.1 ordered).2.2 line held first List.mem_cons_self

namespace ImportGroup

variable {source : Text} {list : Located} {inner : List Tree}
  (group : ImportGroup source list inner)
include group

/-- Between two neighbours among the items there are only white space and terminators. -/
theorem space_between {front back : List Located} {one next : Located}
    (parts : importItems list = front ++ one :: next :: back) :
    one.stop.offset ≤ next.start.offset ∧
      ∀ c ∈ Text.slice source ⟨one.stop.offset, next.start.offset⟩, isTail c := by
  rw [group.items_eq] at parts
  obtain ⟨lead, behind, whole, -, later⟩ := filter_eq_append_cons parts
  obtain ⟨space, more, rfl, none, -, -⟩ := List.filter_eq_cons_iff.1 later
  obtain ⟨before, rest, rfl, -, found⟩ := Located.sideBySide_eq_append whole
  cases rest with
  | nil => cases found
  | cons tree rest =>
    rw [Located.sideBySide] at found
    obtain ⟨rfl, tail⟩ := List.cons.inj found
    obtain ⟨between, others, rfl, rfl, last⟩ := Located.sideBySide_eq_append tail.symm
    cases others with
    | nil => cases last
    | cons other others =>
      rw [Located.sideBySide] at last
      obtain ⟨rfl, -⟩ := List.cons.inj last
      dsimp only
      have slice := @slice_eq _ _ _ group (before ++ [tree]) between (other :: others) (by simp)
      simp only [Tree.textOfAll_append, Tree.textOfAll, List.append_nil, ← Place.after_after] at slice
      refine ⟨?_, ?_⟩
      · rw [Place.offset_after]
        exact Nat.le_add_right _ _
      · rw [slice]
        obtain ⟨_, _, laid⟩ := group.laid
        obtain ⟨_, -, laid⟩ := laid.split
        rw [← List.singleton_append] at laid
        obtain ⟨_, -, laid⟩ := laid.split
        obtain ⟨_, laid, -⟩ := laid.split
        exact (tail_of_laid laid (List.filter_eq_nil_iff.2 none)).1

theorem line_proper {line : ItemLine} (inside : line ∈ ItemLine.divide (importItems list)) :
    line.span.start ≤ line.span.stop := by
  refine ItemLine.span_divide (list.children_ordered.filter _) (fun item held => ?_) inside
  exact (group.stands.child_inside (List.mem_filter.1 held).1).2.1

theorem line_stop_le {line : ItemLine} (inside : line ∈ ItemLine.divide (importItems list)) :
    line.span.stop ≤ source.length := by
  have held := ItemLine.items_subset inside line.last_mem_items
  have bounds := group.stands.child_inside (List.mem_filter.1 held).1
  exact bounds.2.2.trans group.stands.stop_le

/-- The lines of a group are what its text holds, white space and terminators apart. -/
theorem separated {earlier rest : List ItemLine} {first : ItemLine}
    (parts : ItemLine.divide (importItems list) = earlier ++ first :: rest) :
    first.span.start ≤ (rest.getLastD first).span.stop ∧
      Separated ((first :: rest).map fun line => Text.slice source line.span)
        (Text.slice source ⟨first.span.start, (rest.getLastD first).span.stop⟩) := by
  have own : first.span.start ≤ first.span.stop := group.line_proper (by simp [parts])
  induction rest generalizing earlier first with
  | nil => exact ⟨own, .last _⟩
  | cons next rest ih =>
    have later : ItemLine.divide (importItems list) = (earlier ++ [first]) ++ next :: rest := by
      rw [parts]
      simp
    obtain ⟨bound, others⟩ := ih later (group.line_proper (by simp [parts]))
    -- The last item of one line and the first item of the next are neighbours.
    obtain ⟨init, ends⟩ : ∃ init, first.items = init ++ [first.last] := by
      refine List.getLast?_eq_some_iff.1 ?_
      rw [ItemLine.items, List.getLast?_cons, ItemLine.last, List.getLastD_eq_getLast?]
    have items : importItems list = (earlier.flatMap ItemLine.items ++ init) ++
        first.last :: next.first :: (next.rest ++ rest.flatMap ItemLine.items) := by
      rw [← ItemLine.items_divide (importItems list), parts, List.flatMap_append, List.flatMap_cons,
        List.flatMap_cons, ends, ItemLine.items]
      simp
    obtain ⟨order, tails⟩ := group.space_between items
    change first.span.stop ≤ next.span.start at order
    rw [List.getLastD_cons]
    refine ⟨by omega, ?_⟩
    rw [slice_split source own (by omega), slice_split source order bound, ← List.append_assoc]
    exact .cons tails others

theorem exists_path {spec : Located} (held : spec ∈ importItems list)
    (kind : spec.isNode .importSpec) : ∃ path, importPath? spec = some path := by
  rw [group.items_eq] at held
  have among := Located.tree_mem_of_mem_sideBySide (List.mem_filter.1 held).1
  obtain ⟨children, same⟩ := Located.isNode_iff.1 kind
  obtain ⟨_, _, laid⟩ := group.laid
  obtain ⟨_, path, known, -⟩ := Laid.item_of_mem laid (same ▸ among)
  exact ⟨path, by rw [importPath?_eq kind, same, known]⟩

/-- The paths of just those lines are known that are one import. -/
theorem path_isSome_iff {line : ItemLine} (inside : line ∈ ItemLine.divide (importItems list)) :
    (ImportLine.ofItems line).path.isSome ↔ line.IsSpec := by
  have alone : line.IsSpec ↔ line.startRow = line.stopRow ∧ line.first.isNode .importSpec ∧
      line.rest.all Located.isComment := by
    rw [ItemLine.IsSpec, List.all_eq_true]
  rw [alone, ImportLine.ofItems]
  dsimp only
  split
  next spec =>
    obtain ⟨path, known⟩ :=
      group.exists_path (ItemLine.items_subset inside List.mem_cons_self) spec.2.1
    rw [known]
    exact iff_of_true rfl spec
  next other => exact iff_of_false Bool.false_ne_true other

end ImportGroup

/-! ### Edits of a group -/

/-- The imports that lines hold, each with its path and with the text of its line. -/
def EntriesOf (source : Text) : List ItemLine → List ImportEntry → Prop :=
  List.Forall₂ fun line entry =>
    importPath? line.first = some entry.path ∧ entry.text = Text.slice source line.span

/-- An edit that puts a sorted list in the place of lines, each import on a line of its own. The list
has what the lines have and new imports; of the old text only white space and terminators go. -/
structure SortsRun (source indent : Text) (first : ItemLine) (rest : List ItemLine)
    (added : List Text) (edit : Edit) : Prop where
  span_eq : edit.span = ⟨first.span.start, (rest.getLastD first).span.stop⟩
  text_eq : ∃ entries sorted, EntriesOf source (first :: rest) entries ∧
    StablySorted (entries ++ added.map ImportEntry.ofPath) sorted ∧
    indent ++ edit.text = Text.join "\n".toList (sorted.map fun entry => indent ++ entry.text)
  replaced : Separated ((first :: rest).map fun line => Text.slice source line.span)
    (Text.slice source edit.span)

/-- An edit that puts new imports behind a line, each on a line of its own. -/
structure AppendsTo (indent : Text) (last : ItemLine) (added : List Text) (edit : Edit) : Prop where
  span_eq : edit.span = ⟨last.span.stop, last.span.stop⟩
  text_eq : edit.text = added.flatMap fun path =>
    "\n".toList ++ indent ++ (ImportEntry.ofPath path).text

theorem path_ofItems {line : ItemLine} {path : Text}
    (known : (ImportLine.ofItems line).path = some path) : importPath? line.first = some path := by
  rw [ImportLine.ofItems] at known
  dsimp only at known
  split at known
  next => exact known
  next => cases known

theorem getLastD_ofItems (first : ItemLine) (rest : List ItemLine) :
    (rest.map ImportLine.ofItems).getLastD (.ofItems first) =
      ImportLine.ofItems (rest.getLastD first) := by
  rw [List.getLastD_eq_getLast?, List.getLastD_eq_getLast?, List.getLast?_map, Option.getD_map]

namespace ImportGroup

variable {source : Text} {list : Located} {inner : List Tree}
  (group : ImportGroup source list inner)
include group

theorem importPath?_first {line : ItemLine} (inside : line ∈ ItemLine.divide (importItems list))
    (spec : line.IsSpec) : importPath? line.first = some line.importPath := by
  obtain ⟨path, known⟩ := group.exists_path (ItemLine.items_subset inside List.mem_cons_self) spec.2.1
  rw [ItemLine.importPath, known]
  rfl

section Run

variable {run : List ItemLine} (inside : run ⊆ ItemLine.divide (importItems list))
include inside

theorem entriesOf_specs (specs : ∀ line ∈ run, line.IsSpec) :
    EntriesOf source run (run.map (ItemLine.toEntry source)) := by
  rw [EntriesOf, List.forall₂_map_right_iff, List.forall₂_same]
  exact fun line held => ⟨group.importPath?_first (inside held) (specs line held), rfl⟩

theorem mapM_toEntry?_specs (specs : ∀ line ∈ run, line.IsSpec) :
    (run.map ImportLine.ofItems).mapM (ImportLine.toEntry? source) =
      some (run.map (ItemLine.toEntry source)) := by
  induction run with
  | nil => rfl
  | cons line run ih =>
    obtain ⟨spec, others⟩ := List.forall_mem_cons.1 specs
    have own : ImportLine.toEntry? source (.ofItems line) = some (line.toEntry source) := by
      obtain ⟨path, known⟩ := Option.isSome_iff_exists.1
        ((group.path_isSome_iff (inside List.mem_cons_self)).2 spec)
      have same := (path_ofItems known).symm.trans
        (group.importPath?_first (inside List.mem_cons_self) spec)
      rw [ImportLine.toEntry?, known, Option.some.inj same]
      rfl
    rw [List.map_cons, List.mapM_cons, own,
      ih (List.Subset.trans (List.subset_cons_self _ _) inside) others]
    rfl

theorem mapM_toEntry?_other (other : ¬ ∀ line ∈ run, line.IsSpec) :
    (run.map ImportLine.ofItems).mapM (ImportLine.toEntry? source) = none := by
  apply mapM_toEntry?_eq_none
  intro known
  refine other fun line held => (group.path_isSome_iff (inside held)).1 ?_
  exact List.all_eq_true.1 known _ (List.mem_map_of_mem held)

end Run

section LastLines

variable {earlier rest : List ItemLine} {first : ItemLine}
  (parts : ItemLine.divide (importItems list) = earlier ++ first :: rest)
  (run : ImportLine.lastRun ((ItemLine.divide (importItems list)).map .ofItems) =
    (first :: rest).map .ofItems)
  (opening closing : Nat) (indent : Text)
include parts run

/-- Lines with one import each are sorted with the new ones. -/
theorem groupEdit_specs (specs : ∀ line ∈ first :: rest, line.IsSpec) (added : List ImportEntry) :
    groupEdit source opening closing indent
        ((ItemLine.divide (importItems list)).map .ofItems) added =
      ⟨⟨first.span.start, (rest.getLastD first).span.stop⟩, (ImportEntry.renderSorted indent
        ((first :: rest).map (ItemLine.toEntry source) ++ added)).drop indent.length⟩ := by
  have inside : first :: rest ⊆ ItemLine.divide (importItems list) :=
    parts ▸ List.subset_append_right _ _
  rw [groupEdit, run, List.map_cons]
  dsimp only
  rw [← List.map_cons, group.mapM_toEntry?_specs inside specs, getLastD_ofItems]
  rfl

/-- Otherwise the new ones come behind the last line. -/
theorem groupEdit_other (other : ¬ ∀ line ∈ first :: rest, line.IsSpec) (added : List ImportEntry) :
    groupEdit source opening closing indent
        ((ItemLine.divide (importItems list)).map .ofItems) added =
      ⟨⟨(rest.getLastD first).span.stop, (rest.getLastD first).span.stop⟩,
        added.flatMap fun entry => "\n".toList ++ indent ++ entry.text⟩ := by
  have inside : first :: rest ⊆ ItemLine.divide (importItems list) :=
    parts ▸ List.subset_append_right _ _
  rw [groupEdit, run, List.map_cons]
  dsimp only
  rw [← List.map_cons, group.mapM_toEntry?_other inside other, getLastD_ofItems]
  rfl

/-- The edit of a group with at least one line. -/
theorem groupEdit_spec (added : List Text) :
    let edit := groupEdit source opening closing indent
      ((ItemLine.divide (importItems list)).map .ofItems) (added.map ImportEntry.ofPath)
    ((∀ line ∈ first :: rest, line.IsSpec) → SortsRun source indent first rest added edit) ∧
      ((¬ ∀ line ∈ first :: rest, line.IsSpec) →
        AppendsTo indent (rest.getLastD first) added edit) := by
  refine ⟨fun specs => ?_, fun other => ?_⟩
  · rw [group.groupEdit_specs parts run opening closing indent specs]
    have inside : first :: rest ⊆ ItemLine.divide (importItems list) :=
      parts ▸ List.subset_append_right _ _
    refine ⟨rfl, ⟨_, _, group.entriesOf_specs inside specs, ImportEntry.stablySorted_sortBy _, ?_⟩, ?_⟩
    · exact (renderSorted_indent indent (by simp)).symm
    · exact (group.separated parts).2
  · rw [group.groupEdit_other parts run opening closing indent other]
    exact ⟨rfl, List.flatMap_map _ _ _⟩

end LastLines

end ImportGroup

/-! ### Files -/

/-- A file to which imports are added, one after the other. -/
def SourceFile.addImports (file : SourceFile) (paths : List Text) : SourceFile :=
  { file with imports := paths.foldl ImportSection.add file.imports }

theorem foldl_add (paths : List Text) (imports : ImportSection) :
    paths.foldl ImportSection.add imports =
      { imports with added := imports.added ++ paths } := by
  induction paths generalizing imports with
  | nil => rw [List.append_nil]; rfl
  | cons path rest ih => rw [List.foldl_cons, ih, ImportSection.add, List.append_assoc]; rfl

theorem source_addImports {source : Text} {file : SourceFile}
    (read : SourceFile.parse? source = some file) (added : List Text) :
    (file.addImports added).source = source := by
  obtain ⟨trees, -, rfl⟩ := Option.map_eq_some_iff.1 read
  rfl

/-- In a file that was read, new imports are the only change. -/
theorem edits_addImports {source : Text} {file : SourceFile}
    (read : SourceFile.parse? source = some file) (added : List Text) :
    (file.addImports added).edits =
      (({ file.imports with added } : ImportSection).edit? source).toList := by
  obtain ⟨none, kept⟩ := changed_of_parse? read
  obtain ⟨trees, -, rfl⟩ := Option.map_eq_some_iff.1 read
  have calm : (structsOfRoots source (Located.sideBySide {} trees)).filter (·.changed) = [] :=
    List.filter_eq_nil_iff.2 fun struct held => by simp [kept struct held]
  rw [SourceFile.edits, SourceFile.addImports, foldl_add, none]
  dsimp only
  rw [calm]
  exact List.append_nil _

theorem edits_of_group {source : Text} {file : SourceFile}
    (read : SourceFile.parse? source = some file) {opening closing : Nat} {indent : Text}
    {lines : List ImportLine} (anchor : file.imports.anchor = .group opening closing indent lines)
    {added : List Text} (filled : added ≠ []) :
    (file.addImports added).edits =
      [groupEdit source opening closing indent lines (added.map ImportEntry.ofPath)] := by
  rw [edits_addImports read, ImportSection.edit?, anchor]
  dsimp only
  rw [if_neg (by simpa using filled)]
  rfl

/-- Equal trees that start at one place are one. -/
theorem Located.StandsIn.eq_of_start {source : Text} {one other : Located}
    (stands : one.StandsIn source) (otherStands : other.StandsIn source)
    (tree : one.tree = other.tree) (start : one.start = other.start) : one = other := by
  have stop : one.stop = other.stop := by
    obtain ⟨_, _, _, _, first⟩ := stands
    obtain ⟨_, _, _, _, second⟩ := otherStands
    rw [first, second, start, Located.text, Located.text, tree]
  cases one
  cases other
  cases tree
  cases start
  cases stop
  rfl

section Parsed

variable {source : Text} {trees : List Tree} (parsed : Go.parse? source = some trees)
include parsed

/-- Import declarations have their shape wherever they stand in a file. -/
theorem importShape_of_root {declaration : Located} (root : declaration ∈ Located.sideBySide {} trees)
    (kind : declaration.isNode .importDeclaration) :
    ∃ children, declaration.tree = .node .importDeclaration
      (.leaf .token "import".toList :: children) ∧ ImportShape children := by
  have among := Located.tree_mem_of_mem_sideBySide root
  obtain ⟨children, same⟩ := Located.isNode_iff.1 kind
  rw [same] at among
  obtain ⟨body, rfl, read, -⟩ := filePaths_of_parse? parsed
  have inBody : Go.Tree.node .importDeclaration children ∈ body := by
    rcases List.mem_append.1 among with mark | inside
    · cases (Go.takeByteOrderMark_taken source).2 _ mark
    · exact inside
  obtain ⟨after, whole⟩ := Go.preambleTree_of_mem read inBody
  obtain ⟨trees, rfl, shape⟩ := whole.shape
  exact ⟨trees, same, shape⟩

/-- The first import declaration with brackets is a group of imports, and new ones go there. -/
theorem group_of_first {declaration list : Located}
    (found : (Located.sideBySide {} trees).find? (Located.isNode .importDeclaration) =
      some declaration)
    (child : list ∈ declaration.children) (kind : list.isNode .importList) {file : SourceFile}
    (read : SourceFile.parse? source = some file) :
    (∃ inner, ImportGroup source list inner) ∧
      file.imports.anchor = .ofGroup source list := by
  obtain ⟨_, again, rfl⟩ := Option.map_eq_some_iff.1 read
  cases parsed.symm.trans again
  have root := List.mem_of_find?_eq_some found
  have stands := (Located.partOf_roots parsed declaration root).stands
  obtain ⟨children, same, shape⟩ := importShape_of_root parsed root (List.find?_some found)
  cases shape with
  | single =>
    obtain ⟨tree, -⟩ := import_child same child kind
    rw [Located.isNode, tree] at kind
    cases kind
  | @group _ inner last _ rest _ _ laid =>
    obtain ⟨tree, start⟩ := import_child same child kind
    refine ⟨⟨inner, tree, stands.child child, rest, last, laid⟩, ?_⟩
    have offered := anchor_ofRoots parsed
    rw [found] at offered
    rcases ofDeclaration?_eq_some offered with ⟨spec, inside, other, -⟩ | ⟨first, inside, other, made⟩
    · obtain ⟨spelled, -⟩ := import_child same inside other
      rw [Located.isNode, spelled] at other
      cases other
    · obtain ⟨spelled, place⟩ := import_child same inside other
      rw [made, (stands.child inside).eq_of_start (stands.child child) (spelled.trans tree.symm)
        (place.trans start.symm)]

end Parsed

/-- What new imports do to the first import declaration if it is a group with at least one item: the
lines behind its last free row take them. -/
theorem group_takes_imports_in_last_run {source : Text} {trees : List Tree} {file : SourceFile}
    (parsed : Go.parse? source = some trees) (read : SourceFile.parse? source = some file)
    {declaration list item : Located}
    (found : (Located.sideBySide {} trees).find? (Located.isNode .importDeclaration) =
      some declaration)
    (child : list ∈ declaration.children) (kind : list.isNode .importList)
    (head : (importItems list).head? = some item) {added : List Text} (filled : added ≠ []) :
    ∃ earlier first rest edit,
      LastRun (ItemLine.divide (importItems list)) earlier (first :: rest) ∧
      (file.addImports added).edits = [edit] ∧
      ((∀ line ∈ first :: rest, line.IsSpec) →
        SortsRun source (Text.lineIndent source item.start.offset) first rest added edit) ∧
      ((¬ ∀ line ∈ first :: rest, line.IsSpec) →
        AppendsTo (Text.lineIndent source item.start.offset) (rest.getLastD first) added edit) ∧
      (∀ line ∈ earlier, line.span.stop ≤ edit.span.start) ∧
      ∀ output, (file.addImports added).render = .ok output →
        output = source.take edit.span.start ++ edit.text ++ source.drop edit.span.stop ∧
        ∀ line ∈ earlier, output.take line.span.stop = source.take line.span.stop := by
  obtain ⟨⟨inner, group⟩, anchor⟩ := group_of_first parsed found child kind read
  have some_line : ItemLine.divide (importItems list) ≠ [] := by
    intro none
    have items := ItemLine.items_divide (importItems list)
    rw [none] at items
    rw [← items] at head
    cases head
  obtain ⟨earlier, lines, last, run⟩ := exists_lastRun (ItemLine.divide (importItems list))
  obtain ⟨first, rest, rfl⟩ := List.exists_cons_of_ne_nil (mt last.filled some_line)
  have made := edits_of_group read (by rw [anchor, ImportAnchor.ofGroup, head]) filled
  obtain ⟨sorts, appends⟩ := group.groupEdit_spec last.parts run (list.start.offset + 1)
    (list.stop.offset - 1) (Text.lineIndent source item.start.offset) added
  generalize groupEdit source _ _ _ _ _ = edit at made sorts appends
  have before : ∀ line ∈ earlier, line.span.stop ≤ edit.span.start := by
    intro line held
    have start := importLines_ordered last.parts held
    by_cases specs : ∀ line ∈ first :: rest, line.IsSpec
    · rw [(sorts specs).span_eq]
      exact start
    · rw [(appends specs).span_eq]
      exact start.trans (group.separated last.parts).1
  refine ⟨earlier, first, rest, edit, last, made, sorts, appends, before, fun output rendered => ?_⟩
  have written : output = source.take edit.span.start ++ edit.text ++ source.drop edit.span.stop := by
    have applied := render_eq_ok rendered
    rw [made, source_addImports read] at applied
    exact (Except.ok.inj applied).symm
  refine ⟨written, fun line held => ?_⟩
  have inside : line.span.stop ≤ source.length := group.line_stop_le (by simp [last.parts, held])
  have start := before line held
  rw [written, List.append_assoc, List.take_append_of_le_length, List.take_take, Nat.min_eq_left start]
  rw [List.length_take]
  omega

/-- Two runs, of which the second has a name and a comment; one new path is there already. -/
theorem group_takes_imports_in_last_run_of_two :
    let source := "package a\n\nimport (\n\t\"z\"\n\n\tx \"c\" // d\n\t\"b\"; )\n".toList
    let added := ["b".toList, "a".toList]
    ∃ trees file declaration list item earlier first rest,
      Go.parse? source = some trees ∧ SourceFile.parse? source = some file ∧
      (Located.sideBySide {} trees).find? (Located.isNode .importDeclaration) = some declaration ∧
      list ∈ declaration.children ∧ list.isNode .importList ∧
      (importItems list).head? = some item ∧ added ≠ [] ∧
      LastRun (ItemLine.divide (importItems list)) earlier (first :: rest) ∧
      SortsRun source "\t".toList first rest added
        ⟨⟨27, 42⟩, "\"a\"\n\t\"b\"\n\t\"b\"\n\tx \"c\" // d".toList⟩ := by
  intro source added
  let edit : Edit := ⟨⟨27, 42⟩, "\"a\"\n\t\"b\"\n\t\"b\"\n\tx \"c\" // d".toList⟩
  have layout : ∃ trees ∈ Go.parse? source, ∃ declaration ∈
      (Located.sideBySide {} trees).find? (Located.isNode .importDeclaration),
      ∃ list ∈ declaration.children, list.isNode .importList ∧
        (∀ line ∈ ItemLine.divide (importItems list), line.IsSpec) ∧
        ∃ item ∈ (importItems list).head?,
          Text.lineIndent source item.start.offset = "\t".toList := by
    decide +kernel
  have written : ∃ file ∈ SourceFile.parse? source, (file.addImports added).edits = [edit] := by
    decide +kernel
  obtain ⟨trees, parsed, declaration, found, list, child, kind, specs, item, head, indent⟩ := layout
  obtain ⟨file, read, edits⟩ := written
  have filled : added ≠ [] := List.cons_ne_nil _ _
  obtain ⟨earlier, first, rest, other, last, made, sorts, -, -⟩ :=
    group_takes_imports_in_last_run parsed read found child kind head filled
  obtain rfl : edit = other := List.cons.inj (edits.symm.trans made) |>.1
  rw [indent] at sorts
  refine ⟨trees, file, declaration, list, item, earlier, first, rest, parsed, read, found, child,
    kind, head, filled, last, sorts fun line held => specs line ?_⟩
  rw [last.parts]
  exact List.mem_append_right _ held

/-- The terminators between imports go, also one that is neither white space nor a semicolon. -/
theorem null_between_imports_goes :
    let source := "package a\n\nimport (\n\t\"b\"\x00\n\t\"c\"\n)\n".toList
    ∃ file output, SourceFile.parse? source = some file ∧
      (file.addImports ["a".toList]).render = .ok output ∧ '\x00' ∈ source ∧ '\x00' ∉ output := by
  intro source
  let output := "package a\n\nimport (\n\t\"a\"\n\t\"b\"\n\t\"c\"\n)\n".toList
  have read : ∃ file ∈ SourceFile.parse? source,
      (file.addImports ["a".toList]).render = .ok output := by
    decide +kernel
  obtain ⟨file, parsed, rendered⟩ := read
  exact ⟨file, output, parsed, rendered, by decide +kernel, by decide +kernel⟩

end GoGraft
