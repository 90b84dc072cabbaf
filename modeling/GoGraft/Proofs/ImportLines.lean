import GoGraft.Proofs.ImportLists
import GoGraft.Proofs.Splicing
import GoGraft.Source.Render

/-! Lists of imports that are written anew. The lines of a list may be put in another order and new
lines may be added, each with one import: the list is then read with all of their paths. Where it is
not, a path makes no string or a semicolon stands where none may. -/

namespace GoGraft.Go

open Grammar Rule

/-! ### The end of a line -/

/-- A character other than a newline that may stand between imports. -/
def isFiller (c : Char) : Bool :=
  c != '\n' && (Lexeme.isSpace c || endsItem c)

theorem semicolon_cases {c : Char} (ends : endsItem c) (line : c ≠ '\n') : c = ';' ∨ c = '\x00' := by
  simpa [endsItem, line] using ends

theorem isSpace_of_semicolon {c : Char} (ends : endsItem c) (line : c ≠ '\n') :
    Lexeme.isSpace c = false := by
  rcases semicolon_cases ends line with rfl | rfl <;> rfl

theorem listPaths_semicolon {c : Char} {text rest : Text} (ends : endsItem c) (line : c ≠ '\n')
    (found : pass true text = c :: rest) : listPaths .before text = none := by
  rw [listPaths_item, ← importAt?_pass, found]
  · rcases semicolon_cases ends line with rfl | rfl <;> rfl
  · intro left closing
    rw [found] at closing
    rcases semicolon_cases ends line with rfl | rfl <;> cases closing

theorem pass_semicolon {c : Char} (ends : endsItem c) (line : c ≠ '\n') (newlines : Bool)
    (rest : Text) : pass newlines (c :: rest) = c :: rest := by
  refine pass_solid ⟨fun d first => ?_, ?_⟩
  · cases first
    rcases semicolon_cases ends line with rfl | rfl <;> cases newlines <;> rfl
  · rcases semicolon_cases ends line with rfl | rfl <;> rfl

/-- From a slot of a list on, some paths are read, and what is left is the list from the start of
another text on. If it is not `sure`, there may be no list at all. -/
def ReadOn (sure : Prop) (slot : Slot) (text : Text) (paths : List Text) (later : Text) : Prop :=
  (∃ left, pass true left = pass true later ∧ listPaths slot text =
    (listPaths .before left).map fun (more, rest) => (paths ++ more, rest)) ∨
  listPaths slot text = none ∧ ¬ sure

namespace ReadOn

variable {sure : Prop} {slot : Slot} {text later : Text} {paths : List Text}

theorem weaken {more : Prop} (read : ReadOn sure slot text paths later) (less : more → sure) :
    ReadOn more slot text paths later :=
  read.imp_right fun ⟨nothing, unsure⟩ => ⟨nothing, fun held => unsure (less held)⟩

theorem laid {trees : List Tree} {after : Text} {last : Slot}
    (laid : Laid ImportTree slot trees after last)
    (same : pass slot.newlines text = pass slot.newlines (Tree.textOfAll trees ++ after))
    (behind : ∀ left, pass last.newlines left = pass last.newlines after →
      ReadOn sure last left paths later) :
    ReadOn sure slot text (Tree.specPaths trees ++ paths) later := by
  obtain ⟨left, passed, read⟩ := listPaths_laid laid same
  rcases behind left passed with ⟨rest, onward, more⟩ | ⟨none, unsure⟩
  · refine .inl ⟨rest, onward, ?_⟩
    rw [read, more, Option.map_map]
    congr 1
    funext ⟨more, rest⟩
    simp [Function.comp]
  · exact .inr ⟨by rw [read, none]; rfl, unsure⟩

/-- Behind an import the rest of its line is passed over, unless a semicolon stands in the way. -/
theorem line {filler : Text} (fills : ∀ c ∈ filler, isFiller c)
    (same : pass slot.newlines text = pass slot.newlines (filler ++ '\n' :: later)) :
    ReadOn (∀ c ∈ filler, Lexeme.isSpace c) slot text [] later := by
  induction filler generalizing slot text with
  | nil =>
    left
    cases slot with
    | before => exact ⟨text, same.trans (pass_blank rfl later), by simp⟩
    | behind =>
      have found := same.trans (pass_solid (solid_terminator rfl later))
      exact ⟨later, rfl, by rw [listPaths_terminator rfl found]; simp⟩
  | cons c filler ih =>
    obtain ⟨own, others⟩ := List.forall_mem_cons.1 fills
    obtain ⟨line, kind⟩ := Bool.and_eq_true_iff.1 own
    have apart : c ≠ '\n' := by simpa using line
    have less (calm : ∀ d ∈ c :: filler, Lexeme.isSpace d) : ∀ d ∈ filler, Lexeme.isSpace d :=
      (List.forall_mem_cons.1 calm).2
    rw [List.cons_append] at same
    rcases Bool.or_eq_true_iff.1 kind with space | ends
    · have blank : isBlank slot.newlines c := by simp [isBlank, space, apart]
      rw [pass_blank blank] at same
      exact (ih others same).weaken less
    · rw [pass_semicolon ends apart] at same
      cases slot with
      | before =>
        refine .inr ⟨listPaths_semicolon ends apart same, fun calm => ?_⟩
        exact Bool.eq_false_iff.1 (isSpace_of_semicolon ends apart) (List.forall_mem_cons.1 calm).1
      | behind =>
        have onward := (@ih .before _ others rfl).weaken less
        rwa [ReadOn, ← listPaths_terminator ends same] at onward

end ReadOn

/-- A list is read up to its bracket, with some paths. If it is not `sure`, there may be no list at
all. -/
def Closes (sure : Prop) (slot : Slot) (text : Text) (paths : List Text) (rest : Text) : Prop :=
  listPaths slot text = some (paths, rest) ∨ listPaths slot text = none ∧ ¬ sure

namespace Closes

variable {sure : Prop} {slot : Slot} {text rest : Text} {paths : List Text}

theorem weaken {more : Prop} (read : Closes sure slot text paths rest) (less : more → sure) :
    Closes more slot text paths rest :=
  read.imp_right fun ⟨nothing, unsure⟩ => ⟨nothing, fun held => unsure (less held)⟩

theorem prepend {last : Slot} {left : Text} {others : List Text}
    (behind : Closes sure last left others rest)
    (read : listPaths slot text =
      (listPaths last left).map fun (more, rest) => (paths ++ more, rest)) :
    Closes sure slot text (paths ++ others) rest := by
  rcases behind with closed | ⟨nothing, unsure⟩
  · exact .inl (by rw [read, closed]; rfl)
  · exact .inr ⟨by rw [read, nothing]; rfl, unsure⟩

theorem readOn {later : Text} {others : List Text} (first : ReadOn sure slot text paths later)
    (behind : ∀ left, pass true left = pass true later → Closes sure .before left others rest) :
    Closes sure slot text (paths ++ others) rest := by
  rcases first with ⟨left, passed, read⟩ | nothing
  · exact (behind left passed).prepend read
  · exact .inr nothing

theorem laid {trees : List Tree} {after : Text} {last : Slot}
    (laid : Laid ImportTree slot trees after last)
    (same : pass slot.newlines text = pass slot.newlines (Tree.textOfAll trees ++ after))
    (behind : ∀ left, pass last.newlines left = pass last.newlines after →
      Closes sure last left paths rest) :
    Closes sure slot text (Tree.specPaths trees ++ paths) rest := by
  obtain ⟨left, passed, read⟩ := listPaths_laid laid same
  exact (behind left passed).prepend read

end Closes

/-- What stands behind the last item of a list: blanks, newlines and terminators. -/
def isTail (c : Char) : Bool :=
  Lexeme.isSpace c || endsItem c

/-- The bracket is found behind blanks and newlines, unless a semicolon stands in the way. -/
theorem closes_tail {slot : Slot} {text tail rest : Text} (tails : ∀ c ∈ tail, isTail c)
    (same : pass slot.newlines text = pass slot.newlines (tail ++ ')' :: rest)) :
    Closes (∀ c ∈ tail, Lexeme.isSpace c) slot text [] rest := by
  induction tail generalizing slot text with
  | nil => exact .inl (listPaths_bracket (same.trans (pass_bracket _ rest)))
  | cons c tail ih =>
    obtain ⟨own, others⟩ := List.forall_mem_cons.1 tails
    have less (calm : ∀ d ∈ c :: tail, Lexeme.isSpace d) : ∀ d ∈ tail, Lexeme.isSpace d :=
      (List.forall_mem_cons.1 calm).2
    rw [List.cons_append] at same
    cases blank : isBlank slot.newlines c with
    | true =>
      rw [pass_blank blank] at same
      exact (ih others same).weaken less
    | false =>
      have ends : endsItem c := by
        rcases Bool.or_eq_true_iff.1 own with space | ends
        · cases line : c == '\n' with
          | true => rw [eq_of_beq line]; rfl
          | false => simp [isBlank, space, bne, line] at blank
        · exact ends
      cases slot with
      | behind =>
        have found := same.trans (pass_solid (solid_terminator ends _))
        have onward := (@ih .before _ others rfl).weaken less
        rwa [Closes, ← listPaths_terminator ends found] at onward
      | before =>
        have apart : c ≠ '\n' := by
          rintro rfl
          cases blank
        rw [pass_semicolon ends apart] at same
        refine .inr ⟨listPaths_semicolon ends apart same, fun calm => ?_⟩
        exact Bool.eq_false_iff.1 (isSpace_of_semicolon ends apart) (List.forall_mem_cons.1 calm).1

/-! ### Lines -/

/-- A line with one import: behind it the list is read on from the next line, if no semicolons come
behind the line. -/
def IsLine (sure : Prop) (line path : Text) : Prop :=
  ∀ ⦃text filler later : Text⦄, (∀ c ∈ filler, isFiller c) →
    pass true text = pass true (line ++ (filler ++ '\n' :: later)) →
    ReadOn (sure ∧ ∀ c ∈ filler, Lexeme.isSpace c) .before text [path] later

theorem IsLine.weaken {sure more : Prop} {line path : Text} (own : IsLine sure line path)
    (less : more → sure) : IsLine more line path :=
  fun _ _ _ fills same => (own fills same).weaken fun held => ⟨less held.1, held.2⟩

theorem quoted_append (path rest : Text) :
    (ImportEntry.ofPath path).text ++ rest = '\x22' :: (path ++ '\x22' :: rest) := by
  simp [ImportEntry.ofPath]

/-- A path in quotes is a line with this path. -/
theorem isLine_ofPath {path : Text} (plain : ∀ c ∈ path, c ≠ '\x22') :
    IsLine (isLegalPath path) (ImportEntry.ofPath path).text path := by
  intro text filler later fills same
  have solid (rest : Text) : pass true ('\x22' :: rest) = '\x22' :: rest :=
    pass_solid (solid_of_opensImport rfl rest)
  rw [quoted_append, solid] at same
  have inside (rest : Text) : pass true text ≠ ')' :: rest := by
    rw [same]
    rintro ⟨⟩
  have read := listPaths_item inside
  rw [← importAt?_pass, same] at read
  cases legal : isLegalPath path with
  | true =>
    have spec := (isImport_path legal).read (filler ++ '\n' :: later)
    rw [List.cons_append, List.append_assoc, List.singleton_append] at spec
    rw [spec, Option.bind_some] at read
    rcases @ReadOn.line .behind _ later filler fills rfl with ⟨left, passed, onward⟩ | ⟨none, ends⟩
    · refine .inl ⟨left, passed, ?_⟩
      rw [read]
      dsimp only
      rw [onward]
      simp
    · exact .inr ⟨by rw [read]; dsimp only; rw [none]; rfl, fun held => ends held.2⟩
  | false =>
    have unclosed : ∀ fuel, Lexeme.afterInterpreted fuel (filler ++ '\n' :: later) = none := by
      refine Lexeme.afterInterpreted_line fun c held => ?_
      have own := fills c held
      constructor <;> (rintro rfl; cases own)
    rw [importAt?_of_not_legal legal plain unclosed] at read
    exact .inr ⟨read, fun held => Bool.false_ne_true held.1⟩

/-! ### Lines of a list -/

/-- What comes behind a list may be changed if it starts with code, not with the end of a line. -/
theorem Laid.changeCode {slot last : Slot} {trees : List Tree} {c : Char} {after : Text}
    (laid : Laid ImportTree slot trees (c :: after) last) (code : c ≠ '\n') (other : Text) :
    Laid ImportTree slot trees other last := by
  generalize behind : c :: after = text at laid
  induction laid with
  | nil => exact .nil
  | blank blank _ ih => exact .blank blank (ih behind)
  | @comment _ _ text _ rest read _ ih =>
    refine .comment ?_ (ih behind)
    subst behind
    cases spelled : Tree.textOfAll rest with
    | cons d tail =>
      rw [spelled] at read
      exact Lexeme.comment?_behind read (.inr rfl)
    | nil =>
      rw [spelled] at read
      rcases Lexeme.comment?_kinds read with closed | ⟨_, stops, _⟩
      · exact closed other
      · exact absurd (stops c rfl) code
  | terminator ends _ ih => exact .terminator ends (ih behind)
  | item item _ ih => exact .item item (ih behind)

/-- Behind the trees of a line, filler belongs to the comment that goes to the end of the line, if
there is one. -/
theorem Laid.stretch {slot last : Slot} {trees : List Tree} {after : Text}
    (laid : Laid ImportTree slot trees after last) {filler : Text}
    (plain : ∀ c ∈ filler, c ≠ '\n') (later : Text) :
    Laid ImportTree slot trees (filler ++ '\n' :: later) last ∨
      ∃ others, Tree.textOfAll others = Tree.textOfAll trees ++ filler ∧
        Tree.specPaths others = Tree.specPaths trees ∧
        Laid ImportTree slot others ('\n' :: later) last := by
  have keep {tree : Tree} {rest others : List Tree}
      (spelled : Tree.textOfAll others = Tree.textOfAll rest ++ filler)
      (paths : Tree.specPaths others = Tree.specPaths rest) :
      Tree.textOfAll (tree :: others) = Tree.textOfAll (tree :: rest) ++ filler ∧
        Tree.specPaths (tree :: others) = Tree.specPaths (tree :: rest) := by
    rw [Tree.textOfAll, spelled, Tree.textOfAll, List.append_assoc, ← List.singleton_append,
      specPaths_append, paths, ← specPaths_append]
    exact ⟨rfl, rfl⟩
  induction laid with
  | nil => exact .inl .nil
  | blank blank _ ih =>
    rcases ih with same | ⟨others, spelled, paths, laid⟩
    · exact .inl (.blank blank same)
    · exact .inr ⟨_, (keep spelled paths).1, (keep spelled paths).2, .blank blank laid⟩
  | @comment slot last text after rest read more ih =>
    rcases Lexeme.comment?_kinds read with closed | ⟨_, stops, line⟩
    · rcases ih with same | ⟨others, spelled, paths, laid⟩
      · exact .inl (.comment (closed _) same)
      · exact .inr ⟨_, (keep spelled paths).1, (keep spelled paths).2, .comment (closed _) laid⟩
    · cases text_rest : Tree.textOfAll rest with
      | nil =>
        have moved : Laid ImportTree slot rest ('\n' :: later) last :=
          more.change (fun _ _ _ spec _ => spec) (.inl rfl)
        refine .inr ⟨.leaf .comment (text ++ filler) :: rest, ?_, rfl, .comment ?_ moved⟩
        · simp [Tree.textOfAll, Tree.text, text_rest]
        · rw [text_rest]
          exact line filler _ plain fun c first => (Option.some.inj first).symm
      | cons d tail =>
        have again (other : Text) (starts : other.head? = some d) :
            Lexeme.comment? (text ++ other) = some (text, other) := by
          refine Lexeme.comment?_behind read (.inr ?_)
          rw [starts, text_rest]
          rfl
        rcases ih with same | ⟨others, spelled, paths, laid⟩
        · exact .inl (.comment (again _ (by rw [text_rest]; rfl)) same)
        · refine .inr ⟨_, (keep spelled paths).1, (keep spelled paths).2, .comment (again _ ?_) laid⟩
          rw [spelled, text_rest]
          rfl
  | terminator ends _ ih =>
    rcases ih with same | ⟨others, spelled, paths, laid⟩
    · exact .inl (.terminator ends same)
    · exact .inr ⟨_, (keep spelled paths).1, (keep spelled paths).2, .terminator ends laid⟩
  | item item _ ih =>
    rcases ih with same | ⟨others, spelled, paths, laid⟩
    · exact .inl (.item item same)
    · exact .inr ⟨_, (keep spelled paths).1, (keep spelled paths).2, .item item laid⟩

/-- Trees of a list with one import among them are a line with its path. -/
theorem isLine_laid {trees : List Tree} {after path : Text} {last : Slot}
    (laid : Laid ImportTree .before trees after last) (only : Tree.specPaths trees = [path]) :
    IsLine True (Tree.textOfAll trees) path := by
  intro text filler later fills same
  have plain : ∀ c ∈ filler, c ≠ '\n' := by
    intro c held
    simpa using (Bool.and_eq_true_iff.1 (fills c held)).1
  rcases laid.stretch plain later with laid | ⟨others, spelled, paths, laid⟩
  · have read := ReadOn.laid laid same fun left passed => ReadOn.line fills passed
    rw [only] at read
    exact read.weaken And.right
  · rw [← List.append_assoc, ← spelled] at same
    have read := ReadOn.laid laid same fun left passed =>
      @ReadOn.line last left later [] (List.forall_mem_nil _) passed
    rw [paths, only] at read
    exact read.weaken fun _ => List.forall_mem_nil _

/-! ### The last line -/

/-- A line with one import that the list may end with, if no semicolons stand in front of the
bracket. -/
def EndsList (sure : Prop) (line path tail : Text) : Prop :=
  ∀ ⦃text rest : Text⦄, pass true text = pass true (line ++ (tail ++ ')' :: rest)) →
    Closes (sure ∧ ∀ c ∈ tail, Lexeme.isSpace c) .before text [path] rest

theorem EndsList.weaken {sure more : Prop} {line path tail : Text}
    (own : EndsList sure line path tail) (less : more → sure) : EndsList more line path tail :=
  fun _ _ same => (own same).weaken fun held => ⟨less held.1, held.2⟩

/-- Any line will do if the bracket is not on it. -/
theorem IsLine.endsList {sure : Prop} {line path tail : Text} (own : IsLine sure line path)
    (tails : ∀ c ∈ tail, isTail c) (broken : '\n' ∈ tail) : EndsList sure line path tail := by
  intro text rest same
  obtain ⟨filler, later, rfl, apart⟩ := List.eq_append_cons_of_mem broken
  obtain ⟨first, second⟩ := List.forall_mem_append.1 tails
  have fills : ∀ c ∈ filler, isFiller c := by
    intro c held
    have other : c ≠ '\n' := by
      rintro rfl
      exact apart held
    exact Bool.and_eq_true_iff.2 ⟨by simpa using other, first c held⟩
  have calm (held : sure ∧ ∀ c ∈ filler ++ '\n' :: later, Lexeme.isSpace c) :
      (sure ∧ ∀ c ∈ filler, Lexeme.isSpace c) ∧ ∀ c ∈ later, Lexeme.isSpace c := by
    obtain ⟨front, back⟩ := List.forall_mem_append.1 held.2
    exact ⟨⟨held.1, front⟩, (List.forall_mem_cons.1 back).2⟩
  rw [List.append_assoc, List.cons_append] at same
  refine Closes.readOn ((own fills same).weaken fun held => (calm held).1) fun left passed => ?_
  have tail := @closes_tail .before _ _ _ (List.forall_mem_cons.1 second).2 passed
  exact tail.weaken fun held => (calm held).2

theorem endsList_ofPath {path tail : Text} (legal : isLegalPath path)
    (tails : ∀ c ∈ tail, isTail c) :
    EndsList True (ImportEntry.ofPath path).text path tail := by
  intro text rest same
  have spec := (isImport_path legal).read (tail ++ ')' :: rest)
  rw [List.cons_append, List.append_assoc, List.singleton_append] at spec
  rw [quoted_append, pass_solid (solid_of_opensImport rfl _)] at same
  have inside (rest : Text) : pass true text ≠ ')' :: rest := by
    rw [same]
    rintro ⟨⟩
  have read : listPaths .before text = (listPaths .behind (tail ++ ')' :: rest)).map
      fun (more, rest) => ([path] ++ more, rest) := by
    rw [listPaths_item inside, ← importAt?_pass, same, spec]
    rfl
  have closed := (@closes_tail .behind _ tail rest tails rfl).prepend read
  exact closed.weaken And.right

/-- What comes behind a list may be changed if no comment in it goes on to the end of its line. -/
theorem Laid.changeClosed {slot last : Slot} {trees : List Tree} {after : Text}
    (laid : Laid ImportTree slot trees after last)
    (closed : ∀ text, Tree.leaf .comment text ∈ trees → Lexeme.isLineComment text = false)
    (other : Text) : Laid ImportTree slot trees other last := by
  induction laid with
  | nil => exact .nil
  | blank blank _ ih => exact .blank blank (ih fun text held => closed text (.tail _ held))
  | @comment _ _ text _ rest read _ ih =>
    refine .comment ?_ (ih fun text held => closed text (.tail _ held))
    rcases Lexeme.comment?_kinds read with whole | ⟨line, _⟩
    · exact whole _
    · rw [closed text List.mem_cons_self] at line
      cases line
  | terminator ends _ ih => exact .terminator ends (ih fun text held => closed text (.tail _ held))
  | item item _ ih => exact .item item (ih fun text held => closed text (.tail _ held))

theorem endsList_laid {trees : List Tree} {after path tail : Text} {last : Slot}
    (laid : Laid ImportTree .before trees after last) (only : Tree.specPaths trees = [path])
    (closed : ∀ text, Tree.leaf .comment text ∈ trees → Lexeme.isLineComment text = false)
    (tails : ∀ c ∈ tail, isTail c) : EndsList True (Tree.textOfAll trees) path tail := by
  intro text rest same
  have read := Closes.laid (laid.changeClosed closed (tail ++ ')' :: rest)) same
    fun left passed => closes_tail tails passed
  rw [only] at read
  exact read.weaken And.right

/-! ### Written lines -/

theorem closes_lines {sure : Prop} {entries : List ImportEntry} {tail : Text}
    (lines : ∀ entry ∈ entries, IsLine sure entry.text entry.path)
    (ends : ∀ entry ∈ entries, EndsList sure entry.text entry.path tail) (filled : entries ≠ [])
    {indent : Text} (blank : ∀ c ∈ indent, isBlank true c) {text rest : Text}
    (same : pass true text = pass true (Text.join "\n".toList
      (entries.map fun entry => indent ++ entry.text) ++ (tail ++ ')' :: rest))) :
    Closes (sure ∧ ∀ c ∈ tail, Lexeme.isSpace c) .before text (entries.map ImportEntry.path)
      rest := by
  induction entries generalizing text with
  | nil => exact absurd rfl filled
  | cons entry more ih =>
    obtain ⟨own, others⟩ := List.forall_mem_cons.1 lines
    obtain ⟨last, later⟩ := List.forall_mem_cons.1 ends
    cases more with
    | nil =>
      rw [List.map_singleton, Text.join, List.append_assoc, pass_blanks blank] at same
      exact last same
    | cons next more =>
      have joined : Text.join "\n".toList ((entry :: next :: more).map fun entry =>
          indent ++ entry.text) = indent ++ entry.text ++ "\n".toList ++ Text.join "\n".toList
            ((next :: more).map fun entry => indent ++ entry.text) := rfl
      rw [joined, List.append_assoc, List.append_assoc, List.append_assoc, pass_blanks blank] at same
      have first := own (List.forall_mem_nil _) same
      exact Closes.readOn (first.weaken fun held => ⟨held.1, List.forall_mem_nil _⟩)
        fun left passed => ih others later (List.cons_ne_nil _ _) passed

theorem closes_renderSorted {sure : Prop} {entries : List ImportEntry} {tail : Text}
    (lines : ∀ entry ∈ entries, IsLine sure entry.text entry.path)
    (ends : ∀ entry ∈ entries, EndsList sure entry.text entry.path tail) (filled : entries ≠ [])
    {indent : Text} (blank : ∀ c ∈ indent, isBlank true c) {text rest : Text}
    (same : pass true text = pass true (ImportEntry.renderSorted indent entries ++
      (tail ++ ')' :: rest))) :
    Closes (sure ∧ ∀ c ∈ tail, Lexeme.isSpace c) .before text
      ((sortBy ImportEntry.before entries).map ImportEntry.path) rest := by
  have perm := sortBy_perm ImportEntry.before entries
  refine closes_lines (fun entry held => lines entry (perm.mem_iff.1 held))
    (fun entry held => ends entry (perm.mem_iff.1 held)) ?_ blank same
  intro nothing
  rw [nothing] at perm
  exact filled perm.nil_eq.symm

/-- Lines with brackets on lines of their own. -/
theorem closes_block {sure : Prop} {entries : List ImportEntry}
    (lines : ∀ entry ∈ entries, IsLine sure entry.text entry.path) (filled : entries ≠ [])
    {indent : Text} (blank : ∀ c ∈ indent, isBlank true c) (rest : Text) :
    Closes sure .before ('\n' :: (ImportEntry.renderSorted indent entries ++ '\n' :: ')' :: rest))
      ((sortBy ImportEntry.before entries).map ImportEntry.path) rest := by
  have tails : ∀ c ∈ ['\n'], isTail c := List.forall_mem_singleton.2 rfl
  have closed := closes_renderSorted lines
    (fun entry held => (lines entry held).endsList tails List.mem_cons_self) filled blank
    (pass_blank (c := '\n') rfl
      (ImportEntry.renderSorted indent entries ++ (['\n'] ++ ')' :: rest)))
  exact closed.weaken fun held => ⟨held, List.forall_mem_singleton.2 rfl⟩

/-- Lines added behind the last item of a list. -/
theorem closes_appended {sure : Prop} {entries : List ImportEntry} {tail : Text}
    (lines : ∀ entry ∈ entries, IsLine sure entry.text entry.path)
    (ends : ∀ entry ∈ entries, EndsList sure entry.text entry.path tail) (filled : entries ≠ [])
    {indent : Text} (blank : ∀ c ∈ indent, isBlank true c) {slot : Slot} {text rest : Text}
    (same : pass slot.newlines text = pass slot.newlines ('\n' :: (Text.join "\n".toList
      (entries.map fun entry => indent ++ entry.text) ++ (tail ++ ')' :: rest)))) :
    Closes (sure ∧ ∀ c ∈ tail, Lexeme.isSpace c) slot text (entries.map ImportEntry.path)
      rest := by
  have broken := @ReadOn.line slot text _ [] (List.forall_mem_nil _) same
  exact Closes.readOn (broken.weaken fun _ => List.forall_mem_nil _)
    fun left passed => closes_lines lines ends filled blank passed

end GoGraft.Go
