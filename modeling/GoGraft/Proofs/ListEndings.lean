import GoGraft.Proofs.ImportGroups

/-! How a list of imports ends. Whether its bracket is found depends on the last line alone: a comment
that goes on to the end of the line needs a newline behind it, and a line that has its terminator
takes no other. -/

namespace GoGraft.Go

open Lexeme (isSpace isLineComment)

/-! ### Behind the last import -/

/-- What stands between the last item of a list and the bracket: white space, or one terminator other
than a newline, with white space around it and no newline in front. -/
inductive IsEnding : Text → Prop where
  | spaces {tail : Text} (all : ∀ c ∈ tail, isSpace c) : IsEnding tail
  | terminated {blanks spaces : Text} {c : Char} (front : ∀ b ∈ blanks, isBlank false b)
      (ends : endsItem c) (mark : c ≠ '\n') (back : ∀ s ∈ spaces, isSpace s) :
      IsEnding (blanks ++ c :: spaces)

theorem isSpace_of_isBlank {newlines : Bool} {c : Char} (blank : isBlank newlines c) : isSpace c :=
  (Bool.and_eq_true_iff.1 blank).1

theorem IsEnding.prepend {blanks tail : Text} (front : ∀ b ∈ blanks, isBlank false b)
    (ending : IsEnding tail) : IsEnding (blanks ++ tail) := by
  cases ending with
  | spaces all =>
    exact .spaces (List.forall_mem_append.2 ⟨fun b held => isSpace_of_isBlank (front b held), all⟩)
  | terminated blank ends mark back =>
    rw [← List.append_assoc]
    exact .terminated (List.forall_mem_append.2 ⟨front, blank⟩) ends mark back

/-- A newline that is not in the front of a text is in the back of it, with all that follows. -/
theorem subset_of_newline {filler later front back : Text}
    (whole : filler ++ '\n' :: later = front ++ back) (plain : '\n' ∉ front) : later ⊆ back := by
  rcases List.append_eq_append_iff.1 whole with ⟨more, same, rest⟩ | ⟨more, _, rfl⟩
  · cases more with
    | nil =>
      rw [List.nil_append] at rest
      rw [← rest]
      exact List.subset_cons_self _ _
    | cons c more =>
      obtain ⟨rfl, -⟩ := List.cons.inj rest
      exact absurd (same ▸ List.mem_append_right _ List.mem_cons_self) plain
  · exact List.Subset.trans (List.subset_cons_self _ _) (List.subset_append_right _ _)

/-- Behind a newline there is only white space. -/
theorem IsEnding.behind_newline {filler later : Text}
    (ending : IsEnding (filler ++ '\n' :: later)) : ∀ c ∈ later, isSpace c := by
  generalize whole : filler ++ '\n' :: later = tail at ending
  cases ending with
  | spaces all =>
    rw [← whole] at all
    exact (List.forall_mem_cons.1 (List.forall_mem_append.1 all).2).2
  | @terminated blanks spaces c front ends mark back =>
    rw [List.append_cons blanks] at whole
    have plain : '\n' ∉ blanks ++ [c] := by
      rw [List.mem_append, List.mem_singleton]
      rintro (held | same)
      · cases front _ held
      · exact mark same.symm
    exact fun d held => back d (subset_of_newline whole plain held)

theorem IsEnding.isTail {tail : Text} (ending : IsEnding tail) : ∀ c ∈ tail, isTail c := by
  have space {c : Char} (held : isSpace c) : Go.isTail c := Bool.or_eq_true_iff.2 (.inl held)
  cases ending with
  | spaces all => exact fun c held => space (all c held)
  | terminated front ends _ back =>
    refine List.forall_mem_append.2 ⟨fun b held => space (isSpace_of_isBlank (front b held)), ?_⟩
    exact List.forall_mem_cons.2 ⟨Bool.or_eq_true_iff.2 (.inr ends), fun s held => space (back s held)⟩

theorem listPaths_spaces {slot : Slot} {text tail rest : Text} (all : ∀ c ∈ tail, isSpace c)
    (same : pass slot.newlines text = pass slot.newlines (tail ++ ')' :: rest)) :
    listPaths slot text = some ([], rest) := by
  have tails : ∀ c ∈ tail, isTail c := fun c held => Bool.or_eq_true_iff.2 (.inl (all c held))
  exact (closes_tail tails same).resolve_right fun ⟨_, unsure⟩ => unsure all

/-- Behind an import, the bracket is found behind all that may stand in front of it. -/
theorem listPaths_ending {text tail rest : Text} (ending : IsEnding tail)
    (same : pass false text = pass false (tail ++ ')' :: rest)) :
    listPaths .behind text = some ([], rest) := by
  cases ending with
  | spaces all => exact listPaths_spaces all same
  | terminated front ends mark back =>
    rw [List.append_assoc, pass_blanks front, List.cons_append, pass_semicolon ends mark] at same
    rw [listPaths_terminator ends same]
    exact listPaths_spaces back rfl

/-- Where a list has its terminator, another one is an error. -/
theorem listPaths_doubled {text tail rest : Text} (tails : ∀ c ∈ tail, isTail c)
    (more : ∃ c ∈ tail, isSpace c = false)
    (same : pass true text = pass true (tail ++ ')' :: rest)) : listPaths .before text = none := by
  induction tail with
  | nil =>
    obtain ⟨c, held, _⟩ := more
    cases held
  | cons c tail ih =>
    obtain ⟨own, others⟩ := List.forall_mem_cons.1 tails
    rw [List.cons_append] at same
    cases space : isSpace c with
    | true =>
      rw [pass_blank (by rw [isBlank, space]; rfl)] at same
      refine ih others ?_ same
      obtain ⟨d, held, other⟩ := more
      rcases List.mem_cons.1 held with rfl | later
      · rw [space] at other
        cases other
      · exact ⟨d, later, other⟩
    | false =>
      have ends : endsItem c := by
        rw [isTail, space] at own
        exact own
      have mark : c ≠ '\n' := by
        rintro rfl
        cases space
      rw [pass_semicolon ends mark] at same
      exact listPaths_semicolon ends mark same

/-! ### Comments at the end of a line -/

/-- A comment that goes on to the end of its line stops at a newline only. -/
theorem comment?_line {text rest : Text} (line : isLineComment text)
    (read : Lexeme.comment? (text ++ rest) = some (text, rest)) :
    ∀ c, rest.head? = some c → c = '\n' := by
  obtain ⟨body, rfl⟩ := List.isPrefixOf_iff_prefix.1 line
  intro c head
  change Lexeme.comment? ('/' :: '/' :: (body ++ rest)) = _ at read
  rw [Lexeme.comment?] at read
  have stop := List.head?_dropWhile_not (· != '\n') (body ++ rest)
  rw [(Prod.mk.inj (Option.some.inj read)).2, head] at stop
  simpa using stop

theorem comment?_stretched {text rest : Text} (line : isLineComment text)
    (read : Lexeme.comment? (text ++ rest) = some (text, rest)) {filler : Text}
    (plain : ∀ c ∈ filler, c ≠ '\n') (later : Text) :
    Lexeme.comment? (text ++ filler ++ '\n' :: later) = some (text ++ filler, '\n' :: later) := by
  rcases Lexeme.comment?_kinds read with closed | ⟨_, _, stretched⟩
  · have stop := comment?_line line (closed ['x']) 'x' rfl
    cases stop
  · refine stretched filler _ plain fun c head => ?_
    cases head
    rfl

/-- The rest of its line belongs to a comment that goes on to the end. -/
theorem Laid.stretchComment {slot last : Slot} {init : List Tree} {text after : Text}
    (laid : Laid ImportTree slot (init ++ [.leaf .comment text]) after last)
    (line : isLineComment text) {filler : Text} (plain : ∀ c ∈ filler, c ≠ '\n') (later : Text) :
    Laid ImportTree slot (init ++ [.leaf .comment (text ++ filler)]) ('\n' :: later) last := by
  obtain ⟨middle, front, back⟩ := laid.split
  cases back with
  | comment read more =>
    cases more
    have stretched := comment?_stretched line read plain later
    refine Laid.append (front.change (fun _ _ _ spec _ => spec) (.inr ?_)) (.comment stretched .nil)
    obtain ⟨body, rfl⟩ := List.isPrefixOf_iff_prefix.1 line
    rfl

/-! ### Trees of a line -/

/-- Behind the last item of a list there is an ending, and only white space if the terminator is in
front of it. -/
theorem ending_of_laid {slot last : Slot} {trees : List Tree} {after : Text} {place : Place}
    (laid : Laid ImportTree slot trees after last)
    (none : (Located.sideBySide place trees).filter Located.isImportItem = []) :
    IsEnding (Tree.textOfAll trees) ∧
      (slot = .before → ∀ c ∈ Tree.textOfAll trees, isSpace c) := by
  induction laid generalizing place with
  | nil => exact ⟨.spaces (List.forall_mem_nil _), fun _ => List.forall_mem_nil _⟩
  | @blank slot _ text _ _ blank _ ih =>
    rw [Located.sideBySide, List.filter_cons_of_neg Bool.false_ne_true] at none
    obtain ⟨ending, calm⟩ := ih none
    have space : ∀ c ∈ text, isSpace c := fun c held => isSpace_of_isBlank (blank c held)
    rw [Tree.textOfAll, Tree.text]
    cases slot with
    | before =>
      have all := List.forall_mem_append.2 ⟨space, calm rfl⟩
      exact ⟨.spaces all, fun _ => all⟩
    | behind => exact ⟨ending.prepend blank, fun other => by cases other⟩
  | comment => cases none
  | @terminator _ c _ _ ends _ ih =>
    rw [Located.sideBySide, List.filter_cons_of_neg Bool.false_ne_true] at none
    have back := (ih none).2 rfl
    refine ⟨?_, fun other => by cases other⟩
    by_cases line : c = '\n'
    · rw [line]
      exact .spaces (List.forall_mem_cons.2 ⟨rfl, back⟩)
    · exact .terminated (List.forall_mem_nil _) ends line back
  | item item _ _ =>
    rw [Located.sideBySide, List.filter_cons_of_pos (ImportTree.isImportItem item _ _)] at none
    cases none

/-- Without items, a list goes over to the next one exactly if a terminator is there. -/
theorem Laid.last_iff {Item : Tree → Text → Prop} {slot last : Slot} {trees : List Tree}
    {after : Text} (laid : Laid Item slot trees after last)
    (leaves : ∀ kind children, Tree.node kind children ∉ trees) :
    (slot = .before → last = .before ∧ ∀ text, Tree.leaf .terminator text ∉ trees) ∧
      (slot = .behind → (last = .before ↔ ∃ text, Tree.leaf .terminator text ∈ trees)) := by
  induction laid with
  | nil =>
    refine ⟨fun same => ⟨same, fun _ held => (nomatch held)⟩, fun same => ?_⟩
    rw [same]
    exact ⟨fun other => (nomatch other), fun ⟨_, held⟩ => (nomatch held)⟩
  | blank _ _ ih | comment _ _ ih =>
    have others := ih fun kind children held => leaves kind children (.tail _ held)
    simpa using others
  | terminator _ _ ih =>
    have others := ih fun kind children held => leaves kind children (.tail _ held)
    exact ⟨fun other => (nomatch other), fun _ =>
      ⟨fun _ => ⟨_, List.mem_cons_self⟩, fun _ => (others.1 rfl).1⟩⟩
  | item => exact absurd List.mem_cons_self (leaves _ _)

theorem comment?_filled {text rest : Text}
    (read : Lexeme.comment? (text ++ rest) = some (text, rest)) : text ≠ [] := by
  rintro rfl
  rcases Lexeme.comment?_kinds read with closed | ⟨line, _⟩
  · cases closed []
  · cases line

theorem Laid.last_filled {slot last : Slot} {init : List Tree} {tree : Tree} {after : Text}
    (laid : Laid ImportTree slot (init ++ [tree]) after last) {start stop : Place}
    (item : Located.isImportItem ⟨tree, start, stop⟩) : tree.text ≠ [] := by
  obtain ⟨_, -, laid⟩ := laid.split
  cases laid with
  | blank | terminator => cases item
  | comment read _ => exact comment?_filled read
  | item spec _ =>
    obtain ⟨_, _, whole⟩ := spec
    obtain ⟨c, more, spelled, _⟩ := whole.opens
    rw [spelled]
    exact List.cons_ne_nil _ _

/-- On one row, nothing comes behind a comment that goes on to the end of its line. -/
theorem Laid.init_closed {slot last : Slot} {init : List Tree} {tree : Tree} {after : Text}
    (laid : Laid ImportTree slot (init ++ [tree]) after last) (filled : tree.text ≠ [])
    (plain : '\n' ∉ Tree.textOfAll (init ++ [tree])) (text : Text)
    (held : Tree.leaf .comment text ∈ init) : isLineComment text = false := by
  by_contra line
  rw [Bool.not_eq_false] at line
  obtain ⟨front, back, rfl⟩ := List.append_of_mem held
  rw [List.append_assoc, List.cons_append] at laid plain
  obtain ⟨_, -, laid⟩ := laid.split
  cases laid with
  | comment read _ =>
    have stops := comment?_line line read
    cases rest : Tree.textOfAll (back ++ [tree]) with
    | nil =>
      rw [Tree.textOfAll_append, List.append_eq_nil_iff] at rest
      exact filled (by simpa [Tree.textOfAll] using rest.2)
    | cons c more =>
      rw [rest] at stops
      rw [Tree.textOfAll_append, Tree.textOfAll, rest, stops c rfl] at plain
      exact plain (by simp)

/-- A legal path in quotes is laid out as an import. -/
theorem laid_ofPath {path : Text} (legal : isLegalPath path) (after : Text) :
    ∃ tree, Tree.textOfAll [tree] = (ImportEntry.ofPath path).text ∧
      Tree.specPaths [tree] = [path] ∧ (∀ text, tree ≠ .leaf .comment text) ∧
      Laid ImportTree .before [tree] after .behind := by
  have spelled := quoted_append path []
  rw [List.append_nil] at spelled
  have known := @importPath?_spec [] (List.forall_mem_nil _) (ImportEntry.ofPath path).text
  have path_eq : unquoteLiteral (ImportEntry.ofPath path).text = path := by
    rw [spelled, unquoteLiteral, List.tail_cons, List.dropLast_concat]
  rw [path_eq, List.nil_append] at known
  refine ⟨.node .importSpec [.node .importPath [.leaf .token (ImportEntry.ofPath path).text]],
    by simp [Tree.textOfAll, Tree.text], ?_, fun _ same => (by cases same), .item ⟨path, known, ?_⟩ .nil⟩
  · rw [Tree.specPaths, List.filterMap_cons, known]
    rfl
  · simpa [Tree.textOfAll, Tree.text, spelled] using isImport_path legal

/-! ### The last line -/

/-- How a list is read from its last line on: with the paths of this line up to the bracket, or not at
all. -/
def ReadsLast (entry : ImportEntry) (tail : Text) (paths : Option (List Text)) : Prop :=
  ∀ ⦃text rest : Text⦄, pass true text = pass true (entry.text ++ (tail ++ ')' :: rest)) →
    listPaths .before text = paths.map fun paths => (paths, rest)

section LastLine

variable {trees : List Tree} {after : Text} {last : Slot} {entry : ImportEntry} {tail : Text}
  (laid : Laid ImportTree .before trees after last) (spelled : Tree.textOfAll trees = entry.text)
  (only : Tree.specPaths trees = [entry.path])
include laid spelled only

section Closed

variable (closed : ∀ text, Tree.leaf .comment text ∈ trees → isLineComment text = false)
include closed

/-- Without comments that go on to the end of the line, the list goes on behind the trees. -/
theorem listPaths_line {text rest : Text}
    (same : pass true text = pass true (entry.text ++ (tail ++ ')' :: rest))) :
    ∃ left, pass last.newlines left = pass last.newlines (tail ++ ')' :: rest) ∧
      listPaths .before text =
        (listPaths last left).map fun (more, rest) => ([entry.path] ++ more, rest) := by
  rw [← only]
  rw [← spelled] at same
  exact listPaths_laid (laid.changeClosed closed _) same

theorem readsLast_of_spaces (spaces : ∀ c ∈ tail, isSpace c) :
    ReadsLast entry tail (some [entry.path]) := by
  intro text rest same
  obtain ⟨left, passed, read⟩ := listPaths_line laid spelled only closed same
  rw [read, listPaths_spaces spaces passed]
  rfl

theorem readsLast_of_open (ending : IsEnding tail) (free : last = .behind) :
    ReadsLast entry tail (some [entry.path]) := by
  intro text rest same
  obtain ⟨left, passed, read⟩ := listPaths_line laid spelled only closed same
  rw [free] at passed read
  rw [read, listPaths_ending ending passed]
  rfl

/-- A line with its terminator may not come in front of another one. -/
theorem readsLast_of_doubled (tails : ∀ c ∈ tail, isTail c) (more : ∃ c ∈ tail, isSpace c = false)
    (ended : last = .before) : ReadsLast entry tail none := by
  intro text rest same
  obtain ⟨left, passed, read⟩ := listPaths_line laid spelled only closed same
  rw [ended] at passed read
  rw [read, listPaths_doubled tails more passed]
  rfl

end Closed

/-- A line with a comment that goes on to the end may come last if a newline comes behind it. -/
theorem readsLast_of_comment {comment : Text} (line : isLineComment comment)
    (final : trees.getLast? = some (.leaf .comment comment)) (ending : IsEnding tail)
    (broken : '\n' ∈ tail) : ReadsLast entry tail (some [entry.path]) := by
  intro text rest same
  obtain ⟨init, rfl⟩ := List.getLast?_eq_some_iff.1 final
  obtain ⟨filler, later, rfl, apart⟩ := List.eq_append_cons_of_mem broken
  have plain : ∀ c ∈ filler, c ≠ '\n' := by
    rintro c held rfl
    exact apart held
  have stretched := laid.stretchComment line plain (later ++ ')' :: rest)
  have spaces : ∀ c ∈ '\n' :: later, isSpace c :=
    List.forall_mem_cons.2 ⟨rfl, ending.behind_newline⟩
  have regroup : entry.text ++ (filler ++ '\n' :: later ++ ')' :: rest) =
      Tree.textOfAll (init ++ [.leaf .comment (comment ++ filler)]) ++
        '\n' :: (later ++ ')' :: rest) := by
    rw [← spelled]
    simp [Tree.textOfAll_append, Tree.textOfAll, Tree.text]
  rw [regroup] at same
  obtain ⟨left, passed, read⟩ := listPaths_laid stretched same
  have paths : Tree.specPaths (init ++ [.leaf .comment (comment ++ filler)]) = [entry.path] := by
    rw [← only, specPaths_append, specPaths_append]
    rfl
  rw [read, listPaths_spaces spaces passed, paths]
  rfl

end LastLine

theorem readsLast_ofPath {path tail : Text} (legal : isLegalPath path) (ending : IsEnding tail) :
    ReadsLast (ImportEntry.ofPath path) tail (some [path]) := by
  obtain ⟨tree, spelled, only, node, laid⟩ := laid_ofPath legal []
  refine readsLast_of_open laid spelled only (fun text held => ?_) ending rfl
  exact absurd (List.mem_singleton.1 held).symm (node text)

theorem isLine_legal {path : Text} (legal : isLegalPath path) :
    IsLine True (ImportEntry.ofPath path).text path := by
  obtain ⟨tree, spelled, only, -, laid⟩ := laid_ofPath legal []
  rw [← spelled]
  exact isLine_laid laid only

/-! ### Written lines -/

/-- Written lines are read one after the other, and the last of them decides how the list ends. -/
theorem listPaths_lines {init : List ImportEntry} {last : ImportEntry} {tail : Text}
    (lines : ∀ entry ∈ init, IsLine True entry.text entry.path) {paths : Option (List Text)}
    (final : ReadsLast last tail paths) {indent : Text} (blank : ∀ c ∈ indent, isBlank true c)
    {text rest : Text}
    (same : pass true text = pass true (Text.join "\n".toList
      ((init ++ [last]).map fun entry => indent ++ entry.text) ++ (tail ++ ')' :: rest))) :
    listPaths .before text =
      (paths.map (init.map ImportEntry.path ++ ·)).map fun paths => (paths, rest) := by
  induction init generalizing text with
  | nil =>
    rw [List.nil_append, List.map_singleton, Text.join, List.append_assoc, pass_blanks blank] at same
    rw [final same]
    cases paths <;> rfl
  | cons entry init ih =>
    obtain ⟨own, others⟩ := List.forall_mem_cons.1 lines
    have joined : Text.join "\n".toList ((entry :: init ++ [last]).map fun entry =>
        indent ++ entry.text) = indent ++ (entry.text ++ ('\n' :: Text.join "\n".toList
          ((init ++ [last]).map fun entry => indent ++ entry.text))) := by
      cases init <;> simp [Text.join]
    rw [joined, List.append_assoc, List.append_assoc, List.cons_append, pass_blanks blank] at same
    rcases own (List.forall_mem_nil _) same with ⟨left, passed, read⟩ | ⟨_, unsure⟩
    · rw [read, ih others passed]
      cases paths <;> rfl
    · exact absurd ⟨trivial, List.forall_mem_nil _⟩ unsure

end GoGraft.Go
