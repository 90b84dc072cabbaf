import GoGraft.Proofs.BodyComments
import GoGraft.Proofs.SecondRun
import Mathlib.Data.List.Sort

/-! Comments outlast a run. A comment is lost only where a field or an import is written from its
parts and the comment is in none of them, or where the place for the first import is inside the
comment. All others stand in the output, at places apart from each other. -/

namespace GoGraft

open Go (Tree)
open Text (InOrder Scattered)

/-! ### Comments in the span of an edit -/

section Parsed

variable {source : Text} {trees : List Tree} (parsed : Go.parse? source = some trees)
include parsed

theorem sublist_of_subset {some others : List Located} (first : some.Sublist (commentsOf trees))
    (second : others.Sublist (commentsOf trees)) (inside : some ⊆ others) : some.Sublist others := by
  -- Comments are not empty, so no two of them stand before each other.
  let Before (one other : Located) : Prop :=
    one.start.offset < one.stop.offset ∧ one.stop.offset ≤ other.start.offset ∧
      other.start.offset < other.stop.offset
  have antisymm : Std.Antisymm Before := ⟨fun one other left right => by
    simp only [Before] at left right
    omega⟩
  have irrefl : Std.Irrefl Before := ⟨fun one left => by
    simp only [Before] at left
    omega⟩
  have ordered : (commentsOf trees).Pairwise Before := by
    refine (commentsOf_ordered trees).imp_of_mem fun one other apart => ?_
    exact ⟨comment_proper parsed one, apart, comment_proper parsed other⟩
  exact List.sublist_of_subperm_of_pairwise
    (List.subperm_of_subset (ordered.sublist first).nodup inside)
    (ordered.sublist first) (ordered.sublist second)

/-- An edit keeps comments if it cuts none and writes those that its span holds. -/
theorem keeps_of_inner {edit : Edit} {kept inner : List Located}
    (part : kept.Sublist (commentsOf trees)) (innerPart : inner.Sublist (commentsOf trees))
    (places : ∀ comment ∈ kept, comment.stop.offset ≤ edit.span.start ∨
      edit.span.stop ≤ comment.start.offset ∨ comment ∈ inner ∧ edit.covers comment)
    (written : ∀ few : List Located, few.Sublist inner → few ⊆ kept →
      Scattered (few.map Located.trimmed) edit.text) : edit.Keeps kept := by
  refine ⟨fun comment among => (places comment among).imp_right (.imp_right And.right), ?_⟩
  refine written _ ?_ (List.filter_subset_self kept)
  refine sublist_of_subset parsed (List.filter_sublist.trans part) innerPart fun comment among => ?_
  obtain ⟨held, covered⟩ := List.mem_filter.1 among
  have proper := comment_proper parsed (part.subset held)
  rcases places comment held with before | behind | ⟨own, _⟩
  · rw [Edit.covers_iff] at covered
    omega
  · rw [Edit.covers_iff] at covered
    omega
  · exact own

end Parsed

/-! ### Imports -/

theorem join_append_cons (separator front text : Text) (texts : List Text) :
    Text.join separator ((front ++ text) :: texts) = front ++ Text.join separator (text :: texts) := by
  cases texts with
  | nil => rfl
  | cons other rest => simp [Text.join]

/-- Sorted entries have what each of them has, whether or not the first is indented. -/
theorem renderSorted_scattered {groups : List (List Text)} {entries : List ImportEntry}
    (held : List.Forall₂ (fun group entry => Scattered group entry.text) groups entries)
    (added : List ImportEntry) (indent : Text) :
    Scattered groups.flatten
      ((ImportEntry.renderSorted indent (entries ++ added)).drop indent.length) := by
  have more : List.Forall₂ (fun entry group => Scattered group entry.text) added
      (added.map fun _ => ([] : List Text)) := by
    rw [List.forall₂_map_right_iff, List.forall₂_same]
    exact fun entry _ => .nil _
  have all : List.Forall₂ (fun entry group => Scattered group entry.text) (entries ++ added)
      (groups ++ added.map fun _ => []) := List.rel_append held.flip more
  -- The groups are sorted with their entries.
  obtain ⟨order, sorted, same⟩ :=
    List.perm_comp_forall₂ (sortBy_perm ImportEntry.before (entries ++ added)) all
  have flat : (groups ++ added.map fun _ => []).flatten = groups.flatten := by simp
  rw [← flat]
  refine Scattered.perm same.flatten ?_
  rw [ImportEntry.renderSorted]
  generalize sortBy ImportEntry.before (entries ++ added) = entries at sorted
  cases sorted with
  | nil => exact .nil _
  | cons first others =>
    rw [List.map_cons, join_append_cons, List.drop_left]
    refine Scattered.join (.cons first ?_) _
    rw [List.forall₂_map_right_iff]
    exact List.Forall₂.flip (others.imp fun entry group scattered => scattered.prepend indent)

theorem forall₂_of_mapM {α β : Type} {step : α → Option β} {items : List α} {results : List β}
    (all : items.mapM step = some results) :
    List.Forall₂ (fun item result => step item = some result) items results := by
  induction items generalizing results with
  | nil =>
    cases all
    exact .nil
  | cons item rest ih =>
    simp only [List.mapM_cons, Option.bind_eq_bind, Option.bind_eq_some_iff] at all
    obtain ⟨first, found, others, later, same⟩ := all
    cases same
    exact .cons found (ih later)

theorem lastRun_eq_nil {lines : List ImportLine} (none_left : ImportLine.lastRun lines = []) :
    lines = [] := by
  fun_induction ImportLine.lastRun lines with
  | case1 => cases none_left
  | case2 one other rest run _ ih => cases ih none_left
  | case3 => exact none_left

/-- Lines in their order lie between the start of the first and the end of the last. -/
theorem ItemLine.run_bounds {first : ItemLine} {rest : List ItemLine}
    (ordered : (first :: rest).Pairwise fun one other => one.span.stop ≤ other.span.start)
    (proper : ∀ line ∈ first :: rest, line.span.start ≤ line.span.stop) {line : ItemLine}
    (inside : line ∈ first :: rest) :
    first.span.start ≤ line.span.start ∧ line.span.stop ≤ (rest.getLastD first).span.stop := by
  induction rest generalizing first line with
  | nil =>
    cases List.mem_singleton.1 inside
    exact ⟨Nat.le_refl _, Nat.le_refl _⟩
  | cons next rest ih =>
    obtain ⟨apart, later⟩ := List.pairwise_cons.1 ordered
    have own := proper first List.mem_cons_self
    have others := fun other held => proper other (List.mem_cons_of_mem first held)
    rw [List.getLastD_cons]
    rcases List.mem_cons.1 inside with rfl | held
    · have before := apart next List.mem_cons_self
      have bounds := @ih next later others next List.mem_cons_self
      have size := others next List.mem_cons_self
      exact ⟨Nat.le_refl _, by omega⟩
    · have before := apart line held
      exact ⟨by omega, (ih later others held).2⟩

section Anchors

variable {source : Text} {trees : List Tree} (parsed : Go.parse? source = some trees)
include parsed

/-- The import on a line has the comments of the line. -/
theorem toEntry?_scattered {line : ItemLine} (placed : line.Placed trees) {entry : ImportEntry}
    (made : ImportLine.toEntry? source (ImportLine.ofItems line) = some entry) :
    Scattered (line.comments.map Located.trimmed) entry.text := by
  obtain ⟨path, _, rfl⟩ := Option.map_eq_some_iff.1 made
  refine .of_inOrder (@Located.trimmed_inOrder line.span.start _ _ ?_ placed.comments_ordered)
  intro comment held
  obtain ⟨among, item, present, inner⟩ := placed.comment_inside held
  exact (standsIn_of_mem_commentsOf parsed among).standsAt_slice
    (inner.trans (placed.proper item present))

/-- Where the comments stand with regard to the last lines of a group. -/
theorem comments_by_run {list : Located} (within : Located.Within (Located.sideBySide {} trees) list)
    {front rest : List ItemLine} {first : ItemLine}
    (lines : ItemLine.divide (importItems list) = front ++ first :: rest)
    (own : list.comments = (front ++ first :: rest).flatMap ItemLine.comments) :
    first.span.start ≤ (rest.getLastD first).span.stop ∧ ∀ comment ∈ commentsOf trees,
      comment.stop.offset ≤ first.span.start ∨
        (rest.getLastD first).span.stop ≤ comment.start.offset ∨
        comment ∈ (first :: rest).flatMap ItemLine.comments ∧
          first.span.start ≤ comment.start.offset ∧
          comment.stop.offset ≤ (rest.getLastD first).span.stop := by
  have placed : ∀ line ∈ front ++ first :: rest, line.Placed trees := by
    rw [← lines]
    exact fun line held => ItemLine.placed_of_mem_divide within held
  have ordered := ItemLine.divide_ordered (list.children_ordered.filter
    fun item => item.isNode .importSpec || item.isComment)
  rw [importItems] at lines
  rw [lines] at ordered
  obtain ⟨_, runOrdered, apart⟩ := List.pairwise_append.1 ordered
  have proper : ∀ line ∈ first :: rest, line.span.start ≤ line.span.stop := by
    intro line held
    have bounds := (placed line (List.mem_append_right front held)).proper _ List.mem_cons_self
    exact bounds.1.trans (bounds.2.1.trans bounds.2.2)
  -- The lines stand in the list.
  have inList {line : ItemLine} (held : line ∈ front ++ first :: rest) {item : Located}
      (present : item ∈ line.items) : item.span.Inside list.span := by
    rw [← lines] at held
    exact (within.partOf parsed).stands.child_inside
      (List.mem_filter.1 (ItemLine.items_subset held present)).1
  have inLine {line : ItemLine} (held : line ∈ front ++ first :: rest) {comment : Located}
      (inside : comment ∈ line.comments) : comment.span.Inside line.span := by
    obtain ⟨_, item, present, inner⟩ := (placed line held).comment_inside inside
    exact inner.trans ((placed line held).proper item present)
  have lastMem : rest.getLastD first ∈ first :: rest := List.getLastD_mem_cons
  refine ⟨(proper first List.mem_cons_self).trans
    (ItemLine.run_bounds runOrdered proper List.mem_cons_self).2, fun comment among => ?_⟩
  rcases within.mem_comments among with before | held | behind
  · have bounds := inList (List.mem_append_right front List.mem_cons_self) List.mem_cons_self
    exact .inl (before.trans bounds.1)
  · rw [own, List.flatMap_append, List.mem_append] at held
    rcases held with earlier | later
    · obtain ⟨line, present, inside⟩ := List.mem_flatMap.1 earlier
      have bounds := inLine (List.mem_append_left _ present) inside
      exact .inl (bounds.2.2.trans (apart line present first List.mem_cons_self))
    · obtain ⟨line, present, inside⟩ := List.mem_flatMap.1 later
      have bounds := inLine (List.mem_append_right front present) inside
      have outer := ItemLine.run_bounds runOrdered proper present
      exact .inr (.inr ⟨later, outer.1.trans bounds.1, bounds.2.2.trans outer.2⟩)
  · have bounds := inList (List.mem_append_right front lastMem) (ItemLine.last_mem_items _)
    exact .inr (.inl (bounds.2.2.trans behind))

/-- New imports in a group leave the comments of the group. -/
theorem groupEdit_keeps {list : Located} (within : Located.Within (Located.sideBySide {} trees) list)
    (kind : list.isNode .importList) (indent : Text) (added : List ImportEntry)
    {kept : List Located} (part : kept.Sublist (commentsOf trees)) :
    (groupEdit source (list.start.offset + 1) (list.stop.offset - 1) indent
      ((ItemLine.divide (importItems list)).map ImportLine.ofItems) added).Keeps kept := by
  have proper : ∀ comment ∈ kept, comment.start.offset < comment.stop.offset :=
    fun comment held => comment_proper parsed (part.subset held)
  obtain ⟨children, same⟩ := Located.isNode_iff.1 kind
  have own : list.comments = (ItemLine.divide (importItems list)).flatMap ItemLine.comments := by
    refine ItemLine.comments_of_lines same fun other inner inside => ?_
    exact Go.importList_nodes parsed (same ▸ (within.partOf parsed).occurs) inside
  obtain ⟨others, whole⟩ := lastRun_suffix ((ItemLine.divide (importItems list)).map ImportLine.ofItems)
  obtain ⟨front, run, lines, _, spelled⟩ := List.map_eq_append_iff.1 whole.symm
  rw [groupEdit, ← spelled]
  cases run with
  | nil =>
    have empty : ItemLine.divide (importItems list) = [] := by
      exact List.map_eq_nil_iff.1 (lastRun_eq_nil spelled.symm)
    rw [empty] at own
    refine Edit.keeps_of_apart proper fun comment held => ?_
    rcases within.mem_comments (part.subset held) with before | inside | behind
    · exact .inl (Nat.le_succ_of_le before)
    · rw [own] at inside
      cases inside
    · exact .inr ((Nat.sub_le _ _).trans behind)
  | cons first rest =>
    obtain ⟨order, places⟩ := comments_by_run parsed within lines (lines ▸ own)
    have last : (rest.map ImportLine.ofItems).getLastD (ImportLine.ofItems first) =
        ImportLine.ofItems (rest.getLastD first) := List.getLastD_map
    have inner : ((first :: rest).flatMap ItemLine.comments).Sublist (commentsOf trees) := by
      refine List.Sublist.trans ?_ within.comments_sublist
      rw [own, lines, List.flatMap_append]
      exact List.sublist_append_right _ _
    simp only [List.map_cons, last]
    split
    next entries all =>
      refine keeps_of_inner parsed part inner (fun comment held => ?_) fun few fewer _ => ?_
      · exact (places comment (part.subset held)).imp_right (.imp_right (.imp_right Edit.covers_iff.2))
      · refine Scattered.sublist (fewer.map _) ?_
        have groups : List.Forall₂ (fun group entry => Scattered group entry.text)
            ((first :: rest).map fun line => line.comments.map Located.trimmed) entries := by
          have made := forall₂_of_mapM all
          rw [← List.map_cons, List.forall₂_map_left_iff] at made
          rw [List.forall₂_map_left_iff]
          refine ((List.forall₂_and_left _ _).2 ⟨fun line held => ?_, made⟩).imp
            fun line entry both => toEntry?_scattered parsed both.1 both.2
          exact ItemLine.placed_of_mem_divide within (lines ▸ List.mem_append_right front held)
        have scattered := renderSorted_scattered groups added indent
        rwa [← List.flatMap_def, ← List.map_flatMap] at scattered
    next =>
      refine Edit.keeps_of_apart proper fun comment held => ?_
      rcases places comment (part.subset held) with before | behind | ⟨_, _, inside⟩
      · exact .inl (before.trans order)
      · exact .inr behind
      · exact .inl inside

end Anchors

/-! ### Comments that are lost -/

/-- How a comment of a source is lost when the source is written with the changes of a file. -/
inductive Lost (source : Text) (trees : List Tree) (after : SourceFile) (comment : Located) : Prop where
  /-- A field on a line of its own, in a struct that changed, is written from its parts. -/
  | inField {spec type list : Located} {struct : StructDeclaration} {line : ItemLine}
      (declared : spec ∈ typeSpecs (Located.sideBySide {} trees))
      (found : structNode? spec = some type) (listed : type.node? .fieldList = some list)
      (held : struct ∈ after.structs) (changed : struct.changed)
      (same : struct.body.opening = list.start.offset + 1)
      (among : line ∈ ItemLine.divide (fieldItems list)) (single : line.isFieldLine)
      (own : comment ∈ line.first.comments) (left : ¬ line.first.Copies comment)
  /-- Of an import without brackets only the part behind the word `import` is kept. -/
  | besideImport {declaration spec : Located} (added : after.imports.added ≠ [])
      (found : (Located.sideBySide {} trees).find? (Located.isNode .importDeclaration) =
        some declaration)
      (child : spec ∈ declaration.children) (kind : spec.isNode .importSpec)
      (own : comment ∈ declaration.comments) (left : comment ∉ spec.comments)
  /-- The line of the package clause ends in the comment. -/
  | cut (added : after.imports.added ≠ [])
      (found : (Located.sideBySide {} trees).find? (Located.isNode .importDeclaration) = none)
      (start : comment.start.offset < importPlace source (Located.sideBySide {} trees))
      (stop : importPlace source (Located.sideBySide {} trees) < comment.stop.offset)

section Files

variable {source : Text} {trees : List Tree} (parsed : Go.parse? source = some trees)
  {after : SourceFile} {kept : List Located} (part : kept.Sublist (commentsOf trees))
  (safe : ∀ comment ∈ kept, ¬ Lost source trees after comment)
include parsed part safe

theorem importEdit_keeps
    (anchored : after.imports.anchor =
      (ImportSection.ofRoots source (Located.sideBySide {} trees)).anchor) {edit : Edit}
    (made : after.imports.edit? source = some edit) : edit.Keeps kept := by
  have added : after.imports.added ≠ [] := (isSome_edit? source _).1 (by rw [made]; rfl)
  have nonempty : (after.imports.added.map ImportEntry.ofPath).isEmpty = false := by
    simpa using added
  have offered := anchor_ofRoots parsed
  rw [← anchored] at offered
  simp only [ImportSection.edit?, nonempty] at made
  cases found : (Located.sideBySide {} trees).find? (Located.isNode .importDeclaration) with
  | none =>
    rw [found] at offered
    rw [offered] at made
    cases made
    refine Edit.keeps_of_apart (fun comment held => comment_proper parsed (part.subset held))
      fun comment held => ?_
    by_contra cut
    simp only [not_or, Nat.not_le] at cut
    exact safe comment held (.cut added found cut.2 cut.1)
  | some declaration =>
    rw [found] at offered
    have root := Located.Within.root (List.mem_of_find?_eq_some found)
    rcases ofDeclaration?_eq_some offered with ⟨spec, child, kind, single⟩ | ⟨list, child, kind, group⟩
    · rw [single] at made
      cases made
      have within := root.child child
      refine keeps_of_inner parsed part within.comments_sublist (fun comment held => ?_) ?_
      · rcases root.mem_comments (part.subset held) with before | own | behind
        · exact .inl before
        · have bounds := Located.bounds_of_mem_leaves root.stop_eq (Located.mem_comments.1 own).1
          refine .inr (.inr ⟨?_, Edit.covers_iff.2 ⟨bounds.1, bounds.2.2⟩⟩)
          by_contra left
          exact safe comment held (.besideImport added found child kind own left)
        · exact .inr (.inl behind)
      · intro few fewer _
        have own : Scattered (spec.comments.map Located.trimmed) spec.text := by
          refine .of_inOrder (@Located.trimmed_inOrder spec.start.offset _ _ ?_ spec.comments_ordered)
          exact fun comment held => Located.standsAt_of_mem_leaves (Located.mem_comments.1 held).1
        have entry : List.Forall₂ (fun group entry => Scattered group entry.text)
            [spec.comments.map Located.trimmed]
            [(⟨(importPath? spec).getD [], spec.text⟩ : ImportEntry)] := .cons own .nil
        have sorted := (renderSorted_scattered entry (after.imports.added.map ImportEntry.ofPath)
          "\t".toList).prepend (List.take 1 (ImportEntry.renderSorted "\t".toList
            (⟨(importPath? spec).getD [], spec.text⟩ :: after.imports.added.map ImportEntry.ofPath)))
        rw [List.flatten_singleton] at sorted
        exact ((((List.take_append_drop 1 _) ▸ sorted).sublist (fewer.map _)).prepend _).extend _
    · rw [group] at made
      cases made
      exact groupEdit_keeps parsed (root.child child) kind _ _ part

theorem bodyEdit_keeps {before struct : StructDeclaration}
    (read : before ∈ structsOfRoots source (Located.sideBySide {} trees)) (grown : before.Grown struct)
    (held : struct ∈ after.structs) (changed : struct.changed) :
    (struct.bodyEdit source).Keeps kept := by
  obtain ⟨spec, declared, made⟩ := List.mem_filterMap.1 read
  obtain ⟨type, list, found, from_list⟩ := ofSpec?_readFrom declared made
  have opening : struct.body.opening = list.start.offset + 1 := by
    obtain ⟨extra, body⟩ := grown.body
    rw [body]
    exact from_list.opening
  refine keeps_of_inner parsed part from_list.list_within.comments_sublist (fun comment among => ?_) ?_
  · exact from_list.bodyEdit_covers parsed grown (part.subset among)
  · intro few fewer inside
    refine from_list.bodyEdit_scattered parsed grown fewer fun line among single comment present own => ?_
    by_contra left
    exact safe comment (inside present) (.inField declared found from_list.listed held changed opening
      among single own left)

/-- What a file is written as has the comments of its source that are not lost. -/
theorem render_scattered (placed : after.Placed source trees)
    (grown : ∀ struct ∈ after.structs,
      ∃ before ∈ structsOfRoots source (Located.sideBySide {} trees), before.Grown struct)
    {out : Text} (written : after.render = .ok out) : Scattered (kept.map Located.trimmed) out := by
  have made := render_eq_ok written
  rw [placed.source_eq] at made
  refine (Edit.applyAll_spliced (placed.edits_inside parsed) made).scattered ?_
    ((commentsOf_ordered trees).sublist part) fun edit inside => ?_
  · intro comment held
    exact .of_standsIn (standsIn_of_mem_commentsOf parsed (part.subset held))
  · rw [(sortBy_perm Edit.before after.edits).mem_iff, SourceFile.edits, placed.source_eq] at inside
    rcases List.mem_append.1 inside with imports | bodies
    · exact importEdit_keeps parsed part safe placed.anchor_eq (Option.mem_toList.1 imports)
    · obtain ⟨struct, held, rfl⟩ := List.mem_map.1 bodies
      obtain ⟨among, changed⟩ := List.mem_filter.1 held
      obtain ⟨before, read, grows⟩ := grown struct among
      exact bodyEdit_keeps parsed part safe read grows among changed

end Files

/-! ### Runs -/

/-- How often a text that is not empty occurs in another. -/
def Text.occurrences (part : Text) : Text → Nat
  | [] => 0
  | c :: rest => (if part <+: c :: rest then 1 else 0) + occurrences part rest

theorem occurrences_append (part front back : Text) :
    Text.occurrences part back ≤ Text.occurrences part (front ++ back) := by
  induction front with
  | nil => exact Nat.le_refl _
  | cons c front ih => exact ih.trans (Nat.le_add_left _ _)

theorem Text.InOrder.count_le {parts : List Text} {text part : Text} (held : InOrder parts text)
    (nonempty : part ≠ []) : parts.count part ≤ Text.occurrences part text := by
  induction parts generalizing text with
  | nil => exact Nat.zero_le _
  | cons first parts ih =>
    obtain ⟨front, back, rfl, later⟩ := held
    have rest := ih later
    rw [List.append_assoc]
    refine Nat.le_trans ?_ (occurrences_append part front (first ++ back))
    by_cases same : first = part
    · subst same
      obtain ⟨c, tail, rfl⟩ := List.exists_cons_of_ne_nil nonempty
      have more := occurrences_append (c :: tail) tail back
      have here : c :: tail <+: c :: (tail ++ back) := List.prefix_append (c :: tail) back
      rw [List.count_cons_self, List.cons_append, Text.occurrences, if_pos here]
      omega
    · rw [List.count_cons_of_ne same]
      exact rest.trans (occurrences_append part first back)

theorem anchor_foldl_addImport (paths : List Text) (state : ImportSection × Report) :
    (paths.foldl addImport state).1.anchor = state.1.anchor := by
  induction paths generalizing state with
  | nil => rfl
  | cons path rest ih =>
    rw [List.foldl_cons, ih, addImport]
    split
    · rfl
    · rfl

theorem grafted_samePlaces (source : Text) (file : SourceFile) :
    file.SamePlaces (grafted source file).1 := by
  rw [grafted, inject_fst]
  refine ⟨rfl, anchor_foldl_addImport _ _, ?_⟩
  rw [List.map_map]
  refine List.map_congr_left fun struct _ => ?_
  obtain ⟨extra, body⟩ := (StructDeclaration.Grown.settle (scan source).registry struct).body
  simp only [Function.comp_apply, body]
  rfl

theorem trimmed_ne_nil {source : Text} {trees : List Tree} (parsed : Go.parse? source = some trees)
    {comment : Located} (among : comment ∈ commentsOf trees) : comment.trimmed ≠ [] := by
  obtain ⟨rest, text⟩ := comment_starts parsed among
  rw [Located.trimmed, text, ← List.singleton_append, Text.trimEnd_append]
  split
  · decide
  · simp

/-- The comments that are not lost stand in the output at places apart from each other. So a text
that is the text of such comments only occurs in the output as often as it is a comment of the
source. -/
theorem comments_survive {source : Text} {result : Transformed} (ran : transform source = .ok result) :
    ∃ trees file, Go.parse? source = some trees ∧ SourceFile.parse? source = some file ∧
      (∀ kept : List Located, kept.Sublist (commentsOf trees) →
        (∀ comment ∈ kept, ¬ Lost source trees (grafted source file).1 comment) →
        Scattered (kept.map Located.trimmed) result.output) ∧
      ∀ text : Text, (∀ comment ∈ commentsOf trees, comment.trimmed = text →
          ¬ Lost source trees (grafted source file).1 comment) →
        ((commentsOf trees).map Located.trimmed).count text ≤ Text.occurrences text result.output := by
  obtain ⟨file, read, written, _⟩ := transform_eq_ok ran
  obtain ⟨trees, parsed, placed⟩ := SourceFile.exists_trees read
  have structs : file.structs = structsOfRoots source (Located.sideBySide {} trees) := by
    rw [SourceFile.parse?, parsed] at read
    cases read
    rfl
  have grown : ∀ struct ∈ (grafted source file).1.structs,
      ∃ before ∈ structsOfRoots source (Located.sideBySide {} trees), before.Grown struct := by
    intro struct inside
    rw [grafted, inject_fst] at inside
    obtain ⟨before, held, rfl⟩ := List.mem_map.1 inside
    exact ⟨before, structs ▸ held, .settle _ before⟩
  have scattered {kept : List Located} (part : kept.Sublist (commentsOf trees))
      (safe : ∀ comment ∈ kept, ¬ Lost source trees (grafted source file).1 comment) :
      Scattered (kept.map Located.trimmed) result.output :=
    render_scattered parsed part safe (placed.of_samePlaces (grafted_samePlaces source file)) grown
      written
  refine ⟨trees, file, parsed, read, fun _ => scattered, fun text safe => ?_⟩
  by_cases among : text ∈ (commentsOf trees).map Located.trimmed
  · obtain ⟨comment, held, rfl⟩ := List.mem_map.1 among
    let alike := (commentsOf trees).filter fun other => other.trimmed = comment.trimmed
    obtain ⟨order, same, inOrder⟩ := @scattered alike List.filter_sublist fun other inside => by
      obtain ⟨present, equal⟩ := List.mem_filter.1 inside
      exact safe other present (of_decide_eq_true equal)
    calc ((commentsOf trees).map Located.trimmed).count comment.trimmed
        = (alike.map Located.trimmed).count comment.trimmed := by
          simp only [alike, List.count_eq_countP, List.countP_map, List.countP_filter]
          refine List.countP_congr fun other _ => ?_
          simp
      _ = order.count comment.trimmed := (same.count_eq _).symm
      _ ≤ _ := inOrder.count_le (trimmed_ne_nil parsed held)
  · rw [List.count_eq_zero_of_not_mem among]
    exact Nat.zero_le _

/-- A struct that gets a field keeps the comments over it and in it. -/
theorem comments_survive_of_new_field :
    let source := "package a\n\n// a\ntype A struct \x7b\n\t// a\n\tB []/* b */int // @gofield: C c\n\x7d\n".toList
    ∃ result trees, transform source = .ok result ∧ result.changed ∧ Go.parse? source = some trees ∧
      ((commentsOf trees).map Located.trimmed).count "// a".toList = 2 ∧
      2 ≤ Text.occurrences "// a".toList result.output := by
  intro source
  let output := "package a\n\n// a\ntype A struct \x7b\n\t// a\n\tB []/* b */int // @gofield: C c\n\tC c\n\x7d\n".toList
  have ran : transform source = .ok ⟨source, output, { fieldsAdded := ["A.C".toList] }⟩ := by
    decide +kernel
  obtain ⟨trees, file, parsed, read, _, counted⟩ := comments_survive ran
  have twice : ((commentsOf trees).map Located.trimmed).count "// a".toList = 2 := by
    have all : (Go.parse? source).map (fun trees =>
      ((commentsOf trees).map Located.trimmed).count "// a".toList) = some 2 := by decide +kernel
    simpa [parsed] using all
  have added : (grafted source file).1.imports.added = [] := by
    have all : (SourceFile.parse? source).map (fun file =>
      (grafted source file).1.imports.added) = some [] := by decide +kernel
    simpa [read] using all
  have apart : ((typeSpecs (Located.sideBySide {} trees)).all fun spec =>
      (structNode? spec).all fun type => (type.node? .fieldList).all fun list =>
        (ItemLine.divide (fieldItems list)).all fun line =>
          !line.isFieldLine || line.first.comments.all (·.trimmed != "// a".toList)) = true := by
    have all : (Go.parse? source).map (fun trees =>
        (typeSpecs (Located.sideBySide {} trees)).all fun spec =>
          (structNode? spec).all fun type => (type.node? .fieldList).all fun list =>
            (ItemLine.divide (fieldItems list)).all fun line =>
              !line.isFieldLine || line.first.comments.all (·.trimmed != "// a".toList)) =
        some true := by decide +kernel
    simpa only [parsed, Option.map_some, Option.some.injEq] using all
  refine ⟨_, trees, ran, by decide +kernel, parsed, twice, twice ▸ counted _ ?_⟩
  intro comment _ same lost
  cases lost with
  | inField declared found listed _ _ _ among single own =>
    have line := Option.all_eq_true _ _ |>.1 (Option.all_eq_true _ _ |>.1
      (List.all_eq_true.1 apart _ declared) _ found) _ listed
    have clear := List.all_eq_true.1 line _ among
    rw [single] at clear
    have different := List.all_eq_true.1 clear comment own
    simp [same] at different
  | besideImport some_added => exact some_added added
  | cut some_added => exact some_added added

/-- A comment between the name of a field and its type is in none of the parts that the field is
written from. -/
theorem comment_behind_name_lost :
    let source := "package a\n\ntype A struct \x7b\n\tX /* c */ int // @gofield: Y int\n\x7d\n".toList
    ∃ result trees, transform source = .ok result ∧ Go.parse? source = some trees ∧
      "/* c */".toList ∈ (commentsOf trees).map Located.trimmed ∧
      Text.occurrences "/* c */".toList result.output = 0 := by
  intro source
  let output := "package a\n\ntype A struct \x7b\n\tX int // @gofield: Y int\n\tY int\n\x7d\n".toList
  have ran : transform source = .ok ⟨source, output, { fieldsAdded := ["A.Y".toList] }⟩ := by
    decide +kernel
  have comments : (Go.parse? source).map (fun trees => (commentsOf trees).map Located.trimmed) =
      some ["/* c */".toList, "// @gofield: Y int".toList] := by decide +kernel
  obtain ⟨trees, parsed, texts⟩ := Option.map_eq_some_iff.1 comments
  exact ⟨_, trees, ran, parsed, by simp [texts], by decide +kernel⟩

end GoGraft
