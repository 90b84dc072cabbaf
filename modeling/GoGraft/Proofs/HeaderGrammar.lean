import GoGraft.Proofs.HeaderLines
import Mathlib.Data.List.TakeWhile

/-! The lines that open a struct, as a grammar. A header may stand anywhere in a line, and the first one
counts; a member of a group has its name at the start of the line. Main statement: the readers of both
find a name exactly if the line can be divided as the grammar says, so a member is a header without the
word `type`. -/

namespace GoGraft

/-! ### The first place that a finder accepts -/

namespace Text

/-- A finder is asked at each place of a text from the left, and the first answer counts. -/
theorem firstSuffix_eq_some_iff {α : Type} {find : Option Char → Text → Option α}
    {previous : Option Char} {text : Text} {answer : α} :
    firstSuffix find previous text = some answer ↔
      ∃ front back, text = front ++ back ∧ find (front.getLast?.or previous) back = some answer ∧
        ∀ shorter rest, text = shorter ++ rest → shorter.length < front.length →
          find (shorter.getLast?.or previous) rest = none := by
  induction text generalizing previous with
  | nil =>
    rw [firstSuffix]
    constructor
    · exact fun found => ⟨[], [], rfl, found, fun _ _ _ less => absurd less (Nat.not_lt_zero _)⟩
    · rintro ⟨front, back, parts, found, -⟩
      obtain ⟨rfl, rfl⟩ := List.append_eq_nil_iff.1 parts.symm
      exact found
  | cons c text ih =>
    have behind (front : Text) : (c :: front).getLast?.or previous = front.getLast?.or (some c) := by
      rw [List.getLast?_cons]
      cases front.getLast? <;> rfl
    rw [firstSuffix]
    cases here : find previous (c :: text) with
    | some other =>
      constructor
      · exact fun same => ⟨[], c :: text, rfl, here.trans same,
          fun _ _ _ less => absurd less (Nat.not_lt_zero _)⟩
      · rintro ⟨front, back, parts, found, first⟩
        cases front with
        | nil =>
          cases parts
          exact here.symm.trans found
        | cons d front =>
          have missed := first [] (c :: text) rfl (Nat.succ_pos _)
          rw [List.getLast?_nil, Option.none_or, here] at missed
          cases missed
    | none =>
      refine ih.trans ⟨?_, ?_⟩
      · rintro ⟨front, back, rfl, found, first⟩
        refine ⟨c :: front, back, rfl, (behind front).symm ▸ found, fun shorter rest parts less => ?_⟩
        cases shorter with
        | nil =>
          cases parts
          exact here
        | cons d shorter =>
          obtain ⟨rfl, same⟩ := List.cons.inj parts
          rw [behind]
          exact first shorter rest same (Nat.lt_of_succ_lt_succ less)
      · rintro ⟨front, back, parts, found, first⟩
        cases front with
        | nil =>
          cases parts
          exact absurd (here.symm.trans found) (by simp)
        | cons d front =>
          obtain ⟨rfl, rfl⟩ := List.cons.inj parts
          refine ⟨front, back, rfl, behind front ▸ found, fun shorter rest parts less => ?_⟩
          rw [← behind]
          exact first (c :: shorter) rest (congrArg (c :: ·) parts) (Nat.succ_lt_succ less)

/-- Where a run of characters is divided off. -/
theorem span_eq_iff {keeps : Char → Bool} {text front back : Text} :
    text.span keeps = (front, back) ↔
      text = front ++ back ∧ (∀ c ∈ front, keeps c) ∧ ∀ c, back.head? = some c → keeps c = false := by
  constructor
  · intro divided
    rw [List.span_eq_takeWhile_dropWhile] at divided
    cases divided
    refine ⟨List.takeWhile_append_dropWhile.symm, fun c => List.mem_takeWhile_imp, fun c first => ?_⟩
    have stopped := List.head?_dropWhile_not keeps text
    rwa [first] at stopped
  · rintro ⟨rfl, all, stops⟩
    exact Directive.span_append all stops

end Text

namespace Directive

open Text

/-! ### The grammar -/

/-- Nothing, or a text in brackets without a closing bracket inside. -/
inductive Brackets : Text → Prop where
  | absent : Brackets []
  | around {inner : Text} (inner_open : ']' ∉ inner) : Brackets ('[' :: (inner ++ [']']))

/-- A header from its name on. -/
structure Heading where
  name : Text
  gap : Text
  brackets : Text
  space : Text
  rest : Text
  word : IsWord name
  apart : ∀ c ∈ gap, isBlank c
  parameters : Brackets brackets
  spaced : space ≠ []
  blank : ∀ c ∈ space, isBlank c
  ends : isWordAt rest.head? = false

def Heading.text (heading : Heading) : Text :=
  heading.name ++ heading.gap ++ heading.brackets ++ heading.space ++ "struct".toList ++ heading.rest

/-- A line with a header, the word `type` of which is a word of its own. -/
structure HeadedLine where
  front : Text
  space : Text
  heading : Heading
  starts : isWordAt front.getLast? = false
  spaced : space ≠ []
  blank : ∀ c ∈ space, isBlank c

def HeadedLine.text (line : HeadedLine) : Text :=
  line.front ++ "type".toList ++ line.space ++ line.heading.text

/-- A line of a group that starts with the name of a member. -/
structure GroupMember where
  indent : Text
  heading : Heading
  indented : ∀ c ∈ indent, isBlank c

def GroupMember.text (member : GroupMember) : Text :=
  member.indent ++ member.heading.text

/-! ### Readers and the grammar -/

theorem structFollows_iff {tail : Text} : structFollows tail ↔ StructText tail := by
  refine ⟨fun follows => ?_, StructText.follows⟩
  rcases divided : tail.span isBlank with ⟨space, rest⟩
  obtain ⟨rfl, blank, -⟩ := span_eq_iff.1 divided
  rw [structFollows, divided] at follows
  obtain ⟨spaced, word⟩ := Bool.and_eq_true_iff.1 follows
  rw [startsWithStruct] at word
  split at word
  next behind found =>
    rw [after?_eq_some.1 found]
    exact .mk (by simpa using spaced) blank (by simpa using word)
  next => cases word

/-- What may stand between the name and the word `struct`. -/
theorem exists_of_completesHeader {tail : Text} (completes : completesHeader tail) :
    ∃ gap brackets struct, tail = gap ++ brackets ++ struct ∧ (∀ c ∈ gap, isBlank c) ∧
      Brackets brackets ∧ StructText struct := by
  rcases divided : tail.span isBlank with ⟨gap, more⟩
  obtain ⟨rfl, apart, -⟩ := span_eq_iff.1 divided
  rw [List.span_eq_takeWhile_dropWhile] at divided
  rw [completesHeader, (Prod.mk.inj divided).2] at completes
  split at completes
  next inner =>
    rcases closed : inner.span (· != ']') with ⟨parameters, behind⟩
    obtain ⟨rfl, inside, stops⟩ := span_eq_iff.1 closed
    rw [List.span_eq_takeWhile_dropWhile] at closed
    rw [(Prod.mk.inj closed).2] at completes
    split at completes
    next bracket struct =>
      obtain rfl : bracket = ']' := by simpa using stops bracket rfl
      refine ⟨gap, '[' :: (parameters ++ [']']), struct, by simp, apart, .around fun held => ?_,
        structFollows_iff.1 completes⟩
      simpa using inside _ held
    next => cases completes
  next =>
    exact ⟨[], [], gap ++ more, rfl, List.forall_mem_nil _, .absent, structFollows_iff.1 completes⟩

namespace Heading

theorem headerText (heading : Heading) : HeaderText heading.name heading.text := by
  obtain ⟨name, gap, brackets, space, rest, word, apart, parameters, spaced, blank, ends⟩ := heading
  have struct {space : Text} (spaced : space ≠ []) (blank : ∀ c ∈ space, isBlank c) :
      StructText (space ++ ("struct".toList ++ rest)) := .mk spaced blank ends
  cases parameters with
  | absent =>
    have plain := @HeaderText.plain name _ (struct (List.append_ne_nil_of_right_ne_nil gap spaced)
      (List.forall_mem_append.2 ⟨apart, blank⟩))
    simpa [text] using plain
  | around inner_open =>
    simpa [text] using @HeaderText.generic name _ _ _ apart inner_open (struct spaced blank)

theorem namedHeader?_text (heading : Heading) : namedHeader? heading.text = some heading.name :=
  heading.headerText.namedHeader?_eq heading.word

theorem trimStart_text (heading : Heading) : trimStart heading.text = heading.text :=
  dropWhile_of_head (heading.headerText.starts_word heading.word)

end Heading

theorem namedHeader?_eq_some_iff {text name : Text} :
    namedHeader? text = some name ↔ ∃ heading : Heading, heading.text = text ∧ heading.name = name := by
  constructor
  · intro read
    rcases divided : takeWord text with ⟨word, tail⟩
    obtain ⟨rfl, letters, -⟩ := span_eq_iff.1 divided
    rw [namedHeader?, divided] at read
    dsimp only at read
    split at read
    next found =>
      cases read
      obtain ⟨nonempty, completes⟩ := Bool.and_eq_true_iff.1 found
      obtain ⟨gap, brackets, _, rfl, apart, parameters, ⟨spaced, blank, ends⟩⟩ :=
        exists_of_completesHeader completes
      exact ⟨⟨name, gap, brackets, _, _, ⟨by simpa using nonempty, letters⟩, apart, parameters, spaced,
        blank, ends⟩, by simp [Heading.text], rfl⟩
    next => cases read
  · rintro ⟨heading, rfl, rfl⟩
    exact heading.namedHeader?_text

theorem headerAt?_eq_some_iff {previous : Option Char} {text name : Text} :
    headerAt? previous text = some name ↔ isWordAt previous = false ∧ ∃ space, ∃ heading : Heading,
      text = "type".toList ++ space ++ heading.text ∧ space ≠ [] ∧ (∀ c ∈ space, isBlank c) ∧
        heading.name = name := by
  constructor
  · intro read
    rw [headerAt?] at read
    split at read
    · cases read
    next starts =>
      refine ⟨by simpa using starts, ?_⟩
      split at read
      next more found =>
        rcases divided : more.span isBlank with ⟨space, rest⟩
        obtain ⟨rfl, blank, -⟩ := span_eq_iff.1 divided
        rw [divided] at read
        dsimp only at read
        split at read
        · cases read
        next spaced =>
          obtain ⟨heading, rfl, same⟩ := namedHeader?_eq_some_iff.1 read
          exact ⟨space, heading, by rw [after?_eq_some.1 found, List.append_assoc],
            by simpa using spaced, blank, same⟩
      next => cases read
  · rintro ⟨starts, space, heading, rfl, spaced, blank, rfl⟩
    have divided : (space ++ heading.text).span isBlank = (space, heading.text) :=
      span_append blank (heading.headerText.starts_word heading.word)
    rw [headerAt?, starts, List.append_assoc, after?_append]
    simp only [Bool.false_eq_true, if_false, divided, List.isEmpty_iff, spaced]
    exact heading.namedHeader?_text

/-- A header behind a front part, as the finder of headers sees it. -/
theorem headerAt?_eq_some_iff_line {front back name : Text} :
    headerAt? front.getLast? back = some name ↔
      ∃ line : HeadedLine, line.text = front ++ back ∧ line.front = front ∧ line.heading.name = name := by
  rw [headerAt?_eq_some_iff]
  constructor
  · rintro ⟨starts, space, heading, rfl, spaced, blank, same⟩
    exact ⟨⟨front, space, heading, starts, spaced, blank⟩, by simp [HeadedLine.text], rfl, same⟩
  · rintro ⟨line, text, rfl, same⟩
    refine ⟨line.starts, line.space, line.heading, ?_, line.spaced, line.blank, same⟩
    rw [HeadedLine.text, List.append_assoc, List.append_assoc] at text
    rw [List.append_assoc, List.append_cancel_left text]

theorem memberHeader?_eq_some_iff {line name : Text} :
    memberHeader? line = some name ↔
      ∃ member : GroupMember, member.text = line ∧ member.heading.name = name := by
  constructor
  · intro read
    rcases divided : line.span isBlank with ⟨indent, more⟩
    obtain ⟨rfl, indented, -⟩ := span_eq_iff.1 divided
    rw [List.span_eq_takeWhile_dropWhile] at divided
    rw [memberHeader?, trimStart, (Prod.mk.inj divided).2] at read
    obtain ⟨heading, rfl, same⟩ := namedHeader?_eq_some_iff.1 read
    exact ⟨⟨indent, heading, indented⟩, rfl, same⟩
  · rintro ⟨member, rfl, rfl⟩
    rw [memberHeader?, GroupMember.text, trimStart_append member.indented,
      member.heading.trimStart_text, member.heading.namedHeader?_text]

/-- The first header of a line. -/
theorem declarationHeader?_eq_some_iff {line name : Text} :
    declarationHeader? line = some name ↔ ∃ headed : HeadedLine, headed.text = line ∧
      headed.heading.name = name ∧
        ∀ other : HeadedLine, other.text = line → headed.front.length ≤ other.front.length := by
  rw [declarationHeader?, firstSuffix_eq_some_iff]
  simp only [Option.or_none]
  constructor
  · rintro ⟨front, back, rfl, found, first⟩
    obtain ⟨headed, text, rfl, same⟩ := headerAt?_eq_some_iff_line.1 found
    refine ⟨headed, text, same, fun other whole => Nat.le_of_not_lt fun less => ?_⟩
    -- A header further to the left would have been found there.
    have parts := whole
    rw [HeadedLine.text, List.append_assoc, List.append_assoc] at parts
    have missed := first other.front _ parts.symm less
    have found := headerAt?_eq_some_iff_line.2 ⟨other, whole.trans parts.symm, rfl, rfl⟩
    rw [missed] at found
    cases found
  · rintro ⟨headed, rfl, same, first⟩
    have parts : headed.text = headed.front ++ ("type".toList ++ headed.space ++ headed.heading.text) := by
      simp [HeadedLine.text]
    refine ⟨headed.front, _, parts, headerAt?_eq_some_iff_line.2 ⟨headed, parts, rfl, same⟩,
      fun shorter rest whole less => ?_⟩
    cases found : headerAt? shorter.getLast? rest with
    | none => rfl
    | some other =>
      obtain ⟨line, text, rfl, -⟩ := headerAt?_eq_some_iff_line.1 found
      exact absurd (first line (text.trans whole.symm)) (Nat.not_le_of_lt less)

theorem HeadedLine.name_unique {one other : HeadedLine} (text : one.text = other.text)
    (front : one.front = other.front) : one.heading.name = other.heading.name := by
  have parts : one.text = other.front ++ ("type".toList ++ one.space ++ one.heading.text) := by
    simp [HeadedLine.text, front]
  have first := headerAt?_eq_some_iff_line.2 ⟨one, parts, front, rfl⟩
  have second := headerAt?_eq_some_iff_line.2 ⟨other, text.symm.trans parts, rfl, rfl⟩
  exact Option.some.inj (first.symm.trans second)

/-- The line that a member makes with the word `type` in front of it. -/
def GroupMember.withType (member : GroupMember) : HeadedLine where
  front := []
  space := ' ' :: member.indent
  heading := member.heading
  starts := rfl
  spaced := List.cons_ne_nil _ _
  blank := List.forall_mem_cons.2 ⟨rfl, member.indented⟩

theorem GroupMember.text_withType (member : GroupMember) :
    member.withType.text = "type ".toList ++ member.text := by
  simp [HeadedLine.text, withType, GroupMember.text]

/-- The readers of headers find a name exactly if the line is written as the grammar says. Of several
headers in a line the leftmost one counts, and its name is no matter of how the line is divided. A member
of a group is the header that the word `type` in front of it makes. -/
theorem headers_read_by_grammar (line name : Text) :
    (declarationHeader? line = some name ↔ ∃ headed : HeadedLine, headed.text = line ∧
      headed.heading.name = name ∧
        ∀ other : HeadedLine, other.text = line → headed.front.length ≤ other.front.length) ∧
    (∀ one other : HeadedLine, one.text = line → other.text = line → one.front = other.front →
      one.heading.name = other.heading.name) ∧
    (memberHeader? line = some name ↔
      ∃ member : GroupMember, member.text = line ∧ member.heading.name = name) ∧
    (memberHeader? line = some name → declarationHeader? ("type ".toList ++ line) = some name) := by
  refine ⟨declarationHeader?_eq_some_iff, fun one other text same => ?_, memberHeader?_eq_some_iff,
    fun read => ?_⟩
  · exact HeadedLine.name_unique (text.trans same.symm)
  · obtain ⟨member, rfl, rfl⟩ := memberHeader?_eq_some_iff.1 read
    exact declarationHeader?_eq_some_iff.2
      ⟨member.withType, member.text_withType, rfl, fun other _ => Nat.zero_le _⟩

/-- The first `type` belongs to no header, the second one to a header with type parameters. -/
theorem headers_read_by_grammar_of_two_words :
    let line := "type A; type Pair [K, V any]\tstruct\x7b // type B struct".toList
    let member := "Pair [K, V any]\tstruct\x7b".toList
    (∃ headed : HeadedLine, headed.text = line ∧ headed.heading.name = "Pair".toList) ∧
      declarationHeader? ("type ".toList ++ member) = some "Pair".toList := by
  intro line member
  obtain ⟨headed, text, name, _⟩ :=
    (headers_read_by_grammar line "Pair".toList).1.1 (by decide +kernel)
  exact ⟨⟨headed, text, name⟩,
    (headers_read_by_grammar member "Pair".toList).2.2.2 (by decide +kernel)⟩

end Directive

end GoGraft
