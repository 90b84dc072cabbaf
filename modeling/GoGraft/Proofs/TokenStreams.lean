import GoGraft.Proofs.Marks
import GoGraft.Proofs.SoleFields

/-! The tokens of a text, read without a grammar. At each place the longest token is taken, and white
space and comments are passed over. Where no comment and no literal goes over the border of two texts,
and the second starts with a character that continues no token, the tokens of both side by side are those
of the one and then those of the other. -/

namespace GoGraft.Go

open Text

namespace Lexeme

/-- The marks of more than one character, the longest first. -/
def longMarks : List Text :=
  ["<<=", ">>=", "&^=", "...", "<<", ">>", "&^", "+=", "-=", "*=", "/=", "%=", "&=", "|=", "^=", "&&",
   "||", "<-", "++", "--", "==", "!=", "<=", ">=", ":="].map String.toList

/-- The longest number in the run of characters that numbers have. -/
def numeral? (text : Text) : Option (Text × Text) :=
  (number? (text.takeWhile isNumeral)).map fun (taken, left) => (taken, left ++ text.dropWhile isNumeral)

/-- An identifier, a number, a mark, or any other character by itself. -/
def plain? : Text → Option (Text × Text)
  | [] => none
  | c :: rest =>
    if isGap c then none
    else
      (identifier? (c :: rest)).orElse fun _ => (numeral? (c :: rest)).orElse fun _ =>
        (Token.firstOf longMarks (c :: rest)).orElse fun _ => some ([c], rest)

/-- A string or a rune. -/
def literal? (text : Text) : Option (Text × Text) :=
  (string? text).orElse fun _ => rune? text

/-- What is read at a place: a comment, which is no token, or a token. -/
def piece? (text : Text) : Option (Option Text × Text) :=
  match comment? text with
  | some (_, rest) => some (none, rest)
  | none => ((literal? text).orElse fun _ => plain? text).map fun (taken, rest) => (some taken, rest)

end Lexeme

/-- The tokens of a text. -/
def tokens (text : Text) : List Text :=
  (readAll Lexeme.piece? 0 text).filterMap id

open Lexeme

@[simp] theorem tokens_nil : tokens [] = [] :=
  rfl

theorem tokens_none {c : Char} {rest : Text} (read : piece? (c :: rest) = none) :
    tokens (c :: rest) = tokens rest := by
  rw [tokens, readAll_cons_of_none read]
  rfl

theorem tokens_piece {taken rest : Text} {value : Option Text} (filled : taken ≠ [])
    (read : piece? (taken ++ rest) = some (value, rest)) :
    tokens (taken ++ rest) = value.toList ++ tokens rest := by
  rw [tokens, readAll_append filled read]
  cases value <;> rfl

/-! ### Characters that no token goes on with -/

def gaps : List Char :=
  " \t\n\r\x0b\x0c﻿".toList

/-- The characters with which a token may start, but that continue none. -/
def borders : List Char :=
  specials ++ gaps

theorem mem_gaps_of_isGap {c : Char} (gap : isGap c) : c ∈ gaps := by
  simp only [isGap, isSpace, Bool.or_eq_true, beq_iff_eq] at gap
  rcases gap with (((((rfl | rfl) | rfl) | rfl) | rfl) | rfl) | rfl <;> decide

/-- A border ends the words and the numbers. -/
theorem borders_end : borders.all (fun c => !continuesIdentifier c && !isNumeral c) := by
  decide +kernel

theorem longMarks_inner : longMarks.all fun mark => mark.tail.all (!borders.contains ·) := by
  decide +kernel

section Border

variable {b : Char} (border : b ∈ borders)

include border

theorem continuesIdentifier_border : continuesIdentifier b = false := by
  have both := List.all_eq_true.1 borders_end b border
  simp only [Bool.and_eq_true, Bool.not_eq_true'] at both
  exact both.1

theorem isNumeral_border : isNumeral b = false := by
  have both := List.all_eq_true.1 borders_end b border
  simp only [Bool.and_eq_true, Bool.not_eq_true'] at both
  exact both.2

theorem not_mem_longMark {mark : Text} (known : mark ∈ longMarks) : b ∉ mark.tail := by
  intro inside
  have inner := List.all_eq_true.1 (List.all_eq_true.1 longMarks_inner mark known) b inside
  simp [border] at inner

theorem identifier?_cut (c : Char) (front back : Text) :
    identifier? (c :: front ++ b :: back) =
      (identifier? (c :: front)).map fun (taken, rest) => (taken, rest ++ b :: back) := by
  have stops := continuesIdentifier_border border
  simp only [List.cons_append, identifier?, List.span_eq_takeWhile_dropWhile, takeWhile_cut stops,
    dropWhile_cut stops]
  split
  · rfl
  · rfl

theorem numeral?_cut (front back : Text) :
    numeral? (front ++ b :: back) = (numeral? front).map fun (taken, rest) => (taken, rest ++ b :: back) := by
  have stops := isNumeral_border border
  simp only [numeral?, takeWhile_cut stops, dropWhile_cut stops, Option.map_map]
  congr 1
  funext found
  simp

theorem firstOf_longMarks_cut (c : Char) (front back : Text) :
    Token.firstOf longMarks (c :: front ++ b :: back) =
      (Token.firstOf longMarks (c :: front)).map fun (taken, rest) => (taken, rest ++ b :: back) := by
  have each {marks : List Text} (known : ∀ mark ∈ marks, b ∉ mark.tail) :
      Token.firstOf marks (c :: front ++ b :: back) =
        (Token.firstOf marks (c :: front)).map fun (taken, rest) => (taken, rest ++ b :: back) := by
    induction marks with
    | nil => rfl
    | cons mark marks ih =>
      obtain ⟨own, others⟩ := List.forall_mem_cons.1 known
      have here : after? mark (c :: front ++ b :: back) =
          (after? mark (c :: front)).map (· ++ b :: back) := by
        cases mark with
        | nil => rfl
        | cons d mark =>
          simp only [List.cons_append, after?]
          split
          · exact after?_cut own front back
          · rfl
      have later := ih others
      unfold Token.firstOf at later ⊢
      rw [List.findSome?_cons, List.findSome?_cons, here]
      cases after? mark (c :: front) with
      | none => exact later
      | some rest => rfl
  exact each fun mark known => not_mem_longMark border known

end Border

/-- What follows a text starts with a border, or there is nothing. -/
def Bordered (back : Text) : Prop :=
  ∀ b, back.head? = some b → b ∈ borders

theorem plain?_cut {front back : Text} (filled : front ≠ []) (bordered : Bordered back) :
    plain? (front ++ back) = (plain? front).map fun (taken, rest) => (taken, rest ++ back) := by
  cases back with
  | nil => simp
  | cons b back =>
    have border := bordered b rfl
    obtain ⟨c, front, rfl⟩ := List.exists_cons_of_ne_nil filled
    have identifier := identifier?_cut border c front back
    have numeral := numeral?_cut border (c :: front) back
    have mark := firstOf_longMarks_cut border c front back
    rw [List.cons_append] at identifier numeral mark ⊢
    rw [plain?, plain?, identifier, numeral, mark]
    split
    · rfl
    · cases identifier? (c :: front) with
      | some found => rfl
      | none =>
        cases numeral? (c :: front) with
        | some found => rfl
        | none => cases Token.firstOf longMarks (c :: front) <;> rfl

theorem numeral?_append {text taken rest : Text} (read : numeral? text = some (taken, rest)) :
    taken ++ rest = text ∧ taken ≠ [] ∧ ∀ c ∈ taken, isNumeral c := by
  obtain ⟨⟨number, left⟩, found, same⟩ := Option.map_eq_some_iff.1 read
  cases same
  refine ⟨?_, ?_, number?_numeral found⟩
  · rw [← List.append_assoc, number?_append found, List.takeWhile_append_dropWhile]
  · rintro rfl
    have shorter := number?_shorter found
    rw [← number?_append found] at shorter
    exact absurd shorter (Nat.lt_irrefl _)

/-- No token but a literal has a border behind its first character. -/
theorem plain?_parts {text taken rest : Text} (read : plain? text = some (taken, rest)) :
    ∃ c more, taken = c :: more ∧ text = c :: (more ++ rest) ∧ isGap c = false ∧
      ∀ d ∈ more, d ∉ borders := by
  cases text with
  | nil => cases read
  | cons c text =>
    rw [plain?] at read
    split at read
    next => cases read
    next solid =>
      have solid : isGap c = false := by simpa using solid
      have parts {taken rest : Text} (whole : taken ++ rest = c :: text) (filled : taken ≠ [])
          (inner : ∀ d ∈ taken.tail, d ∉ borders) :
          ∃ e more, taken = e :: more ∧ c :: text = e :: (more ++ rest) ∧ isGap e = false ∧
            ∀ d ∈ more, d ∉ borders := by
        obtain ⟨e, more, rfl⟩ := List.exists_cons_of_ne_nil filled
        obtain ⟨rfl, rfl⟩ := List.cons.inj whole
        exact ⟨e, more, rfl, rfl, solid, inner⟩
      cases identifier : identifier? (c :: text) with
      | some found =>
        rw [identifier] at read
        cases read
        obtain ⟨first, more, rfl, -, continues, -⟩ := identifier?_parts identifier
        refine parts (identifier?_append identifier) (List.cons_ne_nil _ _) fun d inside border => ?_
        exact absurd (continues d inside) (by simp [continuesIdentifier_border border])
      | none =>
        rw [identifier] at read
        cases numeral : numeral? (c :: text) with
        | some found =>
          rw [numeral] at read
          cases read
          obtain ⟨whole, filled, numerals⟩ := numeral?_append numeral
          refine parts whole filled fun d inside border => ?_
          exact absurd (numerals d (List.mem_of_mem_tail inside)) (by simp [isNumeral_border border])
        | none =>
          rw [numeral] at read
          cases mark : Token.firstOf longMarks (c :: text) with
          | some found =>
            rw [mark] at read
            cases read
            have known := Directive.firstOf_mem mark
            refine parts (Token.firstOf_append mark) ?_ fun d inside border => ?_
            · rintro rfl
              exact absurd known (by decide)
            · exact not_mem_longMark border known inside
          | none =>
            rw [mark] at read
            cases read
            exact ⟨c, [], rfl, rfl, solid, List.forall_mem_nil _⟩

theorem enclosed?_shorter {text taken rest : Text} (read : enclosed? text = some (taken, rest)) :
    rest.length < text.length := by
  rw [enclosed?] at read
  cases comment : comment? text with
  | some found =>
    rw [comment] at read
    cases read
    exact comment?_shorter comment
  | none =>
    rw [comment] at read
    cases string : string? text with
    | some found =>
      rw [string] at read
      cases read
      exact string?_shorter string
    | none =>
      rw [string] at read
      exact rune?_shorter read

/-- A text that can be read, as far as comments and literals go, up to its end in front of another. -/
inductive Runs (tail : Text) : Text → Prop where
  | nil : Runs tail []
  | enclosed {taken rest : Text}
      (read : enclosed? (taken ++ (rest ++ tail)) = some (taken, rest ++ tail)) (more : Runs tail rest) :
      Runs tail (taken ++ rest)
  | single {c : Char} {rest : Text} (code : enclosed? (c :: (rest ++ tail)) = none)
      (more : Runs tail rest) : Runs tail (c :: rest)

namespace Runs

variable {tail front : Text}

/-- Whatever is read next ends inside. -/
theorem enclosed_inv (runs : Runs tail front) (filled : front ≠ []) {taken left : Text}
    (read : enclosed? (front ++ tail) = some (taken, left)) :
    ∃ rest, front = taken ++ rest ∧ left = rest ++ tail ∧ Runs tail rest := by
  cases runs with
  | nil => exact absurd rfl filled
  | enclosed known more =>
    rw [List.append_assoc, known] at read
    cases read
    exact ⟨_, rfl, rfl, more⟩
  | single code more =>
    rw [List.cons_append, code] at read
    cases read

theorem single_inv {c : Char} (runs : Runs tail (c :: front))
    (code : enclosed? (c :: (front ++ tail)) = none) : Runs tail front := by
  generalize whole : c :: front = text at runs
  cases runs with
  | nil => cases whole
  | enclosed known more =>
    rw [← List.append_assoc, ← whole, List.cons_append, code] at known
    cases known
  | single _ more =>
    cases whole
    exact more

theorem ordinary_inv {word rest : Text} (ordinary : ∀ c ∈ word, isOrdinary c)
    (runs : Runs tail (word ++ rest)) : Runs tail rest := by
  induction word with
  | nil => exact runs
  | cons c word ih =>
    obtain ⟨first, others⟩ := List.forall_mem_cons.1 ordinary
    exact ih others (runs.single_inv (enclosed?_of_isOrdinary first _))

end Runs

/-- A literal ends at its closing quote, whatever comes behind it. -/
theorem literal?_closed {text taken rest : Text} (read : literal? text = some (taken, rest)) (other : Text) :
    literal? (taken ++ other) = some (taken, other) := by
  rw [literal?] at read
  cases string : string? text with
  | some found =>
    rw [string] at read
    cases read
    rw [literal?, string?_closed string]
    rfl
  | none =>
    rw [string] at read
    have closed := rune?_closed read other
    have opens : (taken ++ other).head? = some '\x27' := by
      unfold rune? at closed
      split at closed
      next here => rw [here]; rfl
      next => cases closed
    obtain ⟨more, shape⟩ := List.head?_eq_some_iff.1 opens
    rw [shape] at closed ⊢
    exact closed

theorem literal?_append {text taken rest : Text} (read : literal? text = some (taken, rest)) :
    taken ++ rest = text := by
  rw [literal?] at read
  cases string : string? text with
  | some found =>
    rw [string] at read
    cases read
    exact string?_append string
  | none =>
    rw [string] at read
    exact rune?_append read

theorem enclosed?_eq (text : Text) : enclosed? text = (comment? text).orElse fun _ => literal? text :=
  rfl

/-- What is enclosed in a text is read alike in a part of it that holds it whole. -/
theorem piece?_enclosed {taken rest tail : Text}
    (read : enclosed? (taken ++ (rest ++ tail)) = some (taken, rest ++ tail)) :
    ∃ value, piece? (taken ++ (rest ++ tail)) = some (value, rest ++ tail) ∧
      piece? (taken ++ rest) = some (value, rest) := by
  have initial : rest <+: rest ++ tail := List.prefix_append rest tail
  rw [enclosed?_eq] at read
  cases comment : comment? (taken ++ (rest ++ tail)) with
  | some found =>
    rw [comment] at read
    cases read
    have short := comment?_shortened initial comment
    exact ⟨none, by rw [piece?, comment], by rw [piece?, short]⟩
  | none =>
    have code := comment?_eq_none_shortened ((List.prefix_append_right_inj taken).2 initial) comment
    rw [comment] at read
    have literal : literal? (taken ++ (rest ++ tail)) = some (taken, rest ++ tail) := read
    have short := literal?_closed literal rest
    exact ⟨some taken, by simp [piece?, comment, literal], by simp [piece?, code, short]⟩

theorem enclosed?_none_shortened {front tail : Text} (code : enclosed? (front ++ tail) = none) :
    enclosed? front = none := by
  rw [enclosed?_eq] at code ⊢
  cases comment : comment? (front ++ tail) with
  | some found =>
    rw [comment] at code
    cases code
  | none =>
    rw [comment] at code
    have literal : literal? (front ++ tail) = none := code
    rw [comment?_eq_none_shortened (List.prefix_append front tail) comment]
    cases short : literal? front with
    | none => rfl
    | some found =>
      have whole := literal?_closed short (found.2 ++ tail)
      rw [← List.append_assoc, literal?_append short, literal] at whole
      cases whole

theorem piece?_plain {text : Text} (code : enclosed? text = none) :
    piece? text = (plain? text).map fun (taken, rest) => (some taken, rest) := by
  rw [enclosed?_eq] at code
  cases comment : comment? text with
  | some found =>
    rw [comment] at code
    cases code
  | none =>
    rw [comment] at code
    have literal : literal? text = none := code
    simp [piece?, comment, literal]

theorem piece?_parts {text rest : Text} {value : Option Text} (read : piece? text = some (value, rest)) :
    ∃ taken, taken ≠ [] ∧ text = taken ++ rest ∧ ∀ token ∈ value, token = taken := by
  have filled {taken : Text} (shorter : rest.length < (taken ++ rest).length) : taken ≠ [] := by
    rintro rfl
    exact Nat.lt_irrefl _ shorter
  cases enclosed : enclosed? text with
  | none =>
    rw [piece?_plain enclosed] at read
    obtain ⟨⟨taken, left⟩, plain, same⟩ := Option.map_eq_some_iff.1 read
    cases same
    obtain ⟨c, more, rfl, rfl, -, -⟩ := plain?_parts plain
    exact ⟨c :: more, List.cons_ne_nil c more, rfl, by simp⟩
  | some found =>
    have shorter := enclosed?_shorter enclosed
    rw [enclosed?_eq] at enclosed
    rw [piece?] at read
    cases comment : comment? text with
    | some found =>
      obtain ⟨taken, left⟩ := found
      rw [comment] at enclosed read
      cases enclosed
      cases read
      rw [← comment?_append comment] at shorter
      exact ⟨taken, filled shorter, (comment?_append comment).symm, nofun⟩
    | none =>
      rw [comment] at enclosed read
      have literal : literal? text = some found := enclosed
      rw [literal] at read
      cases read
      have whole := literal?_append literal
      rw [← whole] at shorter
      exact ⟨found.1, filled shorter, whole.symm, by simp⟩

theorem tokens_read {taken rest : Text} {value : Option Text}
    (read : piece? (taken ++ rest) = some (value, rest)) :
    tokens (taken ++ rest) = value.toList ++ tokens rest := by
  obtain ⟨same, filled, split, -⟩ := piece?_parts read
  cases List.append_cancel_right split
  exact tokens_piece filled read

/-- What is read first in a text, and what is left to read, with and without the text behind it. -/
theorem Runs.step {front tail : Text} (runs : Runs tail front) (filled : front ≠ [])
    (bordered : Bordered tail) :
    ∃ taken rest, taken ≠ [] ∧ front = taken ++ rest ∧ Runs tail rest ∧
      ∃ found, tokens (front ++ tail) = found ++ tokens (rest ++ tail) ∧
        tokens front = found ++ tokens rest := by
  cases read : enclosed? (front ++ tail) with
  | some found =>
    obtain ⟨taken, left⟩ := found
    obtain ⟨rest, rfl, rfl, runs⟩ := runs.enclosed_inv filled read
    rw [List.append_assoc] at read ⊢
    have solid : taken ≠ [] := by
      rintro rfl
      exact absurd (enclosed?_shorter read) (Nat.lt_irrefl _)
    obtain ⟨value, whole, part⟩ := piece?_enclosed read
    exact ⟨taken, rest, solid, rfl, runs, value.toList, tokens_piece solid whole, tokens_piece solid part⟩
  | none =>
    have whole := piece?_plain read
    have part := piece?_plain (enclosed?_none_shortened read)
    rw [plain?_cut filled bordered] at whole
    cases plain : plain? front with
    | none =>
      obtain ⟨c, rest, rfl⟩ := List.exists_cons_of_ne_nil filled
      rw [plain] at whole part
      exact ⟨[c], rest, List.cons_ne_nil c [], rfl, runs.single_inv read, [], tokens_none whole,
        tokens_none part⟩
    | some found =>
      obtain ⟨taken, rest⟩ := found
      obtain ⟨c, more, rfl, rfl, -, inner⟩ := plain?_parts plain
      rw [plain] at whole part
      have ordinary : ∀ d ∈ more, isOrdinary d := by
        intro d inside
        have apart := inner d inside
        simpa [isOrdinary] using fun special => apart (List.mem_append_left _ special)
      have runs : Runs tail rest := (runs.single_inv read).ordinary_inv ordinary
      have solid : c :: more ≠ [] := List.cons_ne_nil c more
      have apart : c :: (more ++ rest) ++ tail = c :: more ++ (rest ++ tail) := by simp
      rw [apart] at whole ⊢
      exact ⟨c :: more, rest, solid, rfl, runs, [c :: more], tokens_piece solid whole,
        tokens_piece solid part⟩

/-- The tokens of two texts, where nothing goes over the border between them. -/
theorem tokens_append {front tail : Text} (runs : Runs tail front) (bordered : Bordered tail) :
    tokens (front ++ tail) = tokens front ++ tokens tail := by
  induction length : front.length using Nat.strong_induction_on generalizing front with
  | h size ih =>
    by_cases filled : front = []
    · rw [filled]
      rfl
    · obtain ⟨taken, rest, solid, rfl, runs, found, whole, part⟩ := runs.step filled bordered
      have shorter : rest.length < size := by
        have positive := List.length_pos_of_ne_nil solid
        rw [← length, List.length_append]
        omega
      rw [whole, part, ih _ shorter runs rfl, List.append_assoc]

/-! ### Leaves of a tree -/

namespace Runs

variable {tail rest : Text}

theorem ordinary {word : Text} (plain : ∀ c ∈ word, isOrdinary c) (runs : Runs tail rest) :
    Runs tail (word ++ rest) := by
  induction word with
  | nil => exact runs
  | cons c word ih =>
    obtain ⟨first, others⟩ := List.forall_mem_cons.1 plain
    exact .single (enclosed?_of_isOrdinary first _) (ih others)

theorem slash (code : comment? ('/' :: (rest ++ tail)) = none) (runs : Runs tail rest) :
    Runs tail ('/' :: rest) := by
  refine .single ?_ runs
  rw [enclosed?, code]
  rfl

theorem token {symbol : Token} {here : Accepts} {text after : Text} (plain : symbol.isPlain)
    (code : comment? (text ++ after) = none) (read : symbol.read? here (text ++ after) = some (text, after))
    (initial : rest ++ tail <+: after) (runs : Runs tail rest) : Runs tail (text ++ rest) := by
  have shorter : comment? (text ++ (rest ++ tail)) = none :=
    comment?_eq_none_shortened ((List.prefix_append_right_inj text).2 initial) code
  rcases Token.read?_cases read with ⟨notBefore, rfl⟩ | ⟨-, spelling⟩
  · simp only [Token.isPlain, Bool.or_eq_true, beq_iff_eq] at plain
    rcases plain with (rfl | rfl) | all
    · exact .single rfl runs
    · exact .single rfl runs
    · exact ordinary (List.all_eq_true.1 all) runs
  · rcases spelling with plain | string | rune | rfl | rfl
    · exact ordinary plain runs
    · exact .enclosed (enclosed?_of_string? shorter (string?_closed string _)) runs
    · exact .enclosed (enclosed?_of_rune? (rune?_closed rune _)) runs
    · exact slash shorter runs
    · have equals : ∀ c ∈ ['='], isOrdinary c := List.forall_mem_singleton.2 (by decide)
      exact slash shorter (ordinary equals runs)

theorem leaf {leaf : Tree} {after : Text} (fits : LeafFits (fun symbol => symbol.isPlain) leaf after)
    (initial : rest ++ tail <+: after) (runs : Runs tail rest) : Runs tail (leaf.text ++ rest) := by
  cases fits with
  | blank gap => exact ordinary (ordinary_of_isGap gap) runs
  | comment read => exact .enclosed (enclosed?_of_comment? (comment?_shortened initial read)) runs
  | token held code read => exact token held code read initial runs

/-- Leaves that were read in front of a text, with as much of it as one likes. -/
theorem leaves {leaves : List Tree} {after : Text}
    (fits : Fits (fun symbol => symbol.isPlain) leaves after) (initial : tail <+: after) :
    Runs tail (Tree.textOfAll leaves) := by
  induction leaves with
  | nil => exact .nil
  | cons first others ih =>
    obtain ⟨own, rest⟩ := fits
    have shorter := (List.prefix_append_right_inj (Tree.textOfAll others)).2 initial
    exact leaf own shorter (ih rest)

end Runs

/-! ### Single tokens -/

theorem gaps_start_none : gaps.all (!startsIdentifier ·) := by
  decide +kernel

theorem tokens_gap {blank : Text} (gap : ∀ c ∈ blank, isGap c) (tail : Text) :
    tokens (blank ++ tail) = tokens tail := by
  induction blank with
  | nil => rfl
  | cons c blank ih =>
    obtain ⟨first, others⟩ := List.forall_mem_cons.1 gap
    have ordinary : ∀ d ∈ [c], isOrdinary d := ordinary_of_isGap (by simpa using first)
    have code := enclosed?_of_isOrdinary (ordinary c List.mem_cons_self) (blank ++ tail)
    have none : piece? (c :: (blank ++ tail)) = none := by
      rw [piece?_plain code, plain?, if_pos first]
      rfl
    exact (tokens_none none).trans (ih others)

theorem tokens_comment {comment tail : Text} (read : comment? (comment ++ tail) = some (comment, tail)) :
    tokens (comment ++ tail) = tokens tail := by
  have piece : piece? (comment ++ tail) = some (none, tail) := by rw [piece?, read]
  exact tokens_read piece

theorem tokens_identifier {word tail : Text} (read : identifier? (word ++ tail) = some (word, tail)) :
    tokens (word ++ tail) = word :: tokens tail := by
  obtain ⟨c, more, rfl, starts, -, -⟩ := identifier?_parts read
  have code := enclosed?_of_isOrdinary (identifier?_ordinary read c List.mem_cons_self) (more ++ tail)
  have solid : ¬ isGap c := by
    intro gap
    have none := List.all_eq_true.1 gaps_start_none c (mem_gaps_of_isGap gap)
    rw [starts] at none
    cases none
  have piece : piece? (c :: more ++ tail) = some (some (c :: more), tail) := by
    rw [List.cons_append] at read ⊢
    rw [piece?_plain code, plain?, if_neg solid, read]
    rfl
  exact tokens_read piece

theorem tokens_comma (tail : Text) : tokens (',' :: tail) = [','] :: tokens tail := by
  have piece : piece? ([','] ++ tail) = some (some [','], tail) := rfl
  exact tokens_read piece

theorem tokens_string {literal tail : Text} (read : string? (literal ++ tail) = some (literal, tail)) :
    tokens (literal ++ tail) = literal :: tokens tail := by
  have code : comment? (literal ++ tail) = none := by
    have filled : literal ≠ [] := by
      rintro rfl
      exact absurd (string?_shorter read) (Nat.lt_irrefl _)
    obtain ⟨c, more, rfl⟩ := List.exists_cons_of_ne_nil filled
    have quote := Token.starts_of_string? read
    simp only [Token.starts, Bool.or_eq_true, beq_iff_eq] at quote
    rcases quote with rfl | rfl <;> rfl
  have piece : piece? (literal ++ tail) = some (some literal, tail) := by
    simp [piece?, code, literal?, read]
  exact tokens_read piece

end GoGraft.Go
