import GoGraft.Directive.Header
import GoGraft.Proofs.Texts

/-! How the lines are written that open a struct or a group of types, and that lines so written are
known for what they are. -/

namespace GoGraft.Directive

open Text

/-- Blanks, and then the word `struct`. -/
inductive StructText : Text → Prop where
  | mk {space rest : Text} (spaced : space ≠ []) (blank : ∀ c ∈ space, isBlank c)
      (ends : isWordAt rest.head? = false) : StructText (space ++ ("struct".toList ++ rest))

/-- A header from its name on, with type parameters in brackets or without. -/
inductive HeaderText (name : Text) : Text → Prop where
  | plain {tail : Text} (struct : StructText tail) : HeaderText name (name ++ tail)
  | generic {gap parameters tail : Text} (apart : ∀ c ∈ gap, isBlank c) (inner : ']' ∉ parameters)
      (struct : StructText tail) : HeaderText name (name ++ (gap ++ '[' :: (parameters ++ ']' :: tail)))

structure IsWord (name : Text) : Prop where
  nonempty : name ≠ []
  all : ∀ c ∈ name, isWordChar c

/-- A line `type Name struct`. -/
inductive HeaderLine (name : Text) : Text → Prop where
  | mk {indent gap text : Text} (indented : ∀ c ∈ indent, isBlank c) (spaced : gap ≠ [])
      (apart : ∀ c ∈ gap, isBlank c) (word : IsWord name) (header : HeaderText name text) :
      HeaderLine name (indent ++ ("type".toList ++ (gap ++ text)))

/-- A line `Name struct`, as it stands in a group of types. -/
inductive MemberLine (name : Text) : Text → Prop where
  | mk {indent text : Text} (indented : ∀ c ∈ indent, isBlank c) (word : IsWord name)
      (header : HeaderText name text) : MemberLine name (indent ++ text)

/-- A line `type (`. -/
inductive GroupLine : Text → Prop where
  | mk {indent gap rest : Text} (indented : ∀ c ∈ indent, isBlank c) (apart : ∀ c ∈ gap, isBlank c) :
      GroupLine (indent ++ ("type".toList ++ (gap ++ '(' :: rest)))

/-! ### Blanks and words -/

def blankCodes : List Nat :=
  [9, 10, 11, 12, 13, 0x20, 0x85, 0xA0, 0x1680, 0x2000, 0x2001, 0x2002, 0x2003, 0x2004, 0x2005, 0x2006,
   0x2007, 0x2008, 0x2009, 0x200A, 0x2028, 0x2029, 0x202F, 0x205F, 0x3000]

theorem not_word_of_blank {c : Char} (blank : isBlank c) : isWordChar c = false := by
  have known : c.toNat ∈ blankCodes := by
    simp only [isBlank, Bool.or_eq_true, Bool.and_eq_true, decide_eq_true_eq, beq_iff_eq] at blank
    simp only [blankCodes, List.mem_cons, List.not_mem_nil, or_false]
    omega
  have none_word : ∀ code ∈ blankCodes, isWordChar (Char.ofNat code) = false := by decide +kernel
  have same := none_word _ known
  rwa [Char.ofNat_toNat] at same

theorem not_blank_of_word {c : Char} (word : isWordChar c) : ¬ isBlank c := by
  intro blank
  rw [not_word_of_blank blank] at word
  cases word

theorem span_append {drops : Char → Bool} {front back : Text} (all : ∀ c ∈ front, drops c)
    (stops : ∀ c, back.head? = some c → drops c = false) :
    (front ++ back).span drops = (front, back) := by
  rw [List.span_eq_takeWhile_dropWhile, List.takeWhile_append_of_pos all,
    List.dropWhile_append_of_pos all, dropWhile_of_head stops]
  cases back with
  | nil => simp
  | cons c rest => rw [List.takeWhile_cons_of_neg (by simp [stops c rfl]), List.append_nil]

theorem trimStart_append {indent text : Text} (indented : ∀ c ∈ indent, isBlank c) :
    trimStart (indent ++ text) = trimStart text :=
  List.dropWhile_append_of_pos indented

/-! ### Headers -/

namespace StructText

variable {tail : Text} (struct : StructText tail)
include struct

theorem follows : structFollows tail := by
  obtain ⟨spaced, blank, ends⟩ := struct
  rename_i space rest
  have first : ∀ c, ("struct".toList ++ rest).head? = some c → isBlank c = false := by
    rintro c ⟨⟩
    rfl
  have word : startsWithStruct ("struct".toList ++ rest) = true := by
    rw [startsWithStruct, after?_append]
    simpa using ends
  rw [structFollows, span_append blank first]
  exact Bool.and_eq_true_iff.2 ⟨by simpa using spaced, word⟩

theorem starts_blank : isWordAt tail.head? = false := by
  obtain ⟨spaced, blank, ends⟩ := struct
  rename_i space rest
  cases space with
  | nil => cases spaced rfl
  | cons c more => exact not_word_of_blank (blank c List.mem_cons_self)

theorem completes : completesHeader tail := by
  have follows := struct.follows
  obtain ⟨spaced, blank, ends⟩ := struct
  rw [completesHeader, List.dropWhile_append_of_pos blank]
  exact follows

end StructText

theorem completesHeader_bracket {gap : Text} (apart : ∀ c ∈ gap, isBlank c) (inner : Text) :
    completesHeader (gap ++ '[' :: inner) =
      match inner.dropWhile (· != ']') with
      | _ :: rest => structFollows rest
      | [] => false := by
  rw [completesHeader, List.dropWhile_append_of_pos apart]
  rfl

theorem completesHeader_generic {gap parameters tail : Text} (apart : ∀ c ∈ gap, isBlank c)
    (inner : ']' ∉ parameters) (struct : StructText tail) :
    completesHeader (gap ++ '[' :: (parameters ++ ']' :: tail)) := by
  have others : ∀ c ∈ parameters, (c != ']') = true := by
    intro c inside
    rw [bne_iff_ne]
    rintro rfl
    exact inner inside
  rw [completesHeader_bracket apart, List.dropWhile_append_of_pos others]
  exact struct.follows

theorem isWordAt_generic {gap : Text} (apart : ∀ c ∈ gap, isBlank c) (rest : Text) :
    isWordAt (gap ++ '[' :: rest).head? = false := by
  cases gap with
  | nil => rfl
  | cons c more => exact not_word_of_blank (apart c List.mem_cons_self)

namespace HeaderText

variable {name text : Text} (header : HeaderText name text) (word : IsWord name)
include header word

theorem namedHeader?_eq : namedHeader? text = some name := by
  have split {tail : Text} (stops : isWordAt tail.head? = false) :
      takeWord (name ++ tail) = (name, tail) := by
    refine span_append word.all fun c first => ?_
    rwa [first] at stops
  have some_name : name.isEmpty = false := by simpa using word.nonempty
  cases header with
  | plain struct => simp [namedHeader?, split struct.starts_blank, some_name, struct.completes]
  | generic apart inner struct =>
    simp [namedHeader?, split (isWordAt_generic apart _), some_name,
      completesHeader_generic apart inner struct]

theorem starts_word : ∀ c, text.head? = some c → isBlank c = false := by
  have first {tail : Text} : ∀ c, (name ++ tail).head? = some c → isBlank c = false := by
    intro c found
    cases same : name with
    | nil => exact absurd same word.nonempty
    | cons d more =>
      rw [same] at found
      cases found
      simpa using not_blank_of_word (word.all c (same ▸ List.mem_cons_self))
  cases header with
  | plain => exact first
  | generic => exact first

end HeaderText

/-! ### Lines -/

theorem headerAt?_blank {c : Char} (blank : isBlank c) (previous : Option Char) (text : Text) :
    headerAt? previous (c :: text) = none := by
  have other : c ≠ 't' := by
    rintro rfl
    cases blank
  have missing : after? "type".toList (c :: text) = none := by
    cases found : after? "type".toList (c :: text) with
    | none => rfl
    | some rest => exact absurd (List.cons.inj (after?_eq_some.1 found)).1 other
  rw [headerAt?, missing]
  split <;> rfl

theorem HeaderLine.declarationHeader?_eq {name line : Text} (header : HeaderLine name line) :
    declarationHeader? line = some name := by
  obtain ⟨indented, spaced, apart, word, header⟩ := header
  rename_i indent gap text
  have here {previous : Option Char} (start : isWordAt previous = false) :
      headerAt? previous ("type".toList ++ (gap ++ text)) = some name := by
    have some_gap : ¬ gap.isEmpty := by simpa using spaced
    rw [headerAt?, start, after?_append]
    simp only [span_append apart (header.starts_word word), if_neg some_gap]
    exact header.namedHeader?_eq word
  -- No header starts at the blanks in front.
  have found {previous : Option Char} (start : isWordAt previous = false) :
      firstSuffix headerAt? previous (indent ++ ("type".toList ++ (gap ++ text))) = some name := by
    induction indent generalizing previous with
    | nil =>
      have first := here start
      change firstSuffix headerAt? previous ('t' :: ("ype".toList ++ (gap ++ text))) = some name
      change headerAt? previous ('t' :: ("ype".toList ++ (gap ++ text))) = some name at first
      rw [firstSuffix, first]
    | cons c indent ih =>
      obtain ⟨blank, others⟩ := List.forall_mem_cons.1 indented
      rw [List.cons_append, firstSuffix, headerAt?_blank blank]
      exact ih others (not_word_of_blank blank)
  exact found rfl

theorem MemberLine.memberHeader?_eq {name line : Text} (header : MemberLine name line) :
    memberHeader? line = some name := by
  obtain ⟨indented, word, header⟩ := header
  rw [memberHeader?, trimStart_append indented, trimStart, dropWhile_of_head (header.starts_word word)]
  exact header.namedHeader?_eq word

theorem GroupLine.opensTypeGroup_eq {line : Text} (group : GroupLine line) : opensTypeGroup line := by
  obtain ⟨indented, apart⟩ := group
  rename_i indent gap rest
  have first : trimStart ("type".toList ++ (gap ++ '(' :: rest)) = "type".toList ++ (gap ++ '(' :: rest) :=
    rfl
  rw [opensTypeGroup, trimStart_append indented, first, after?_append]
  simp only [trimStart_append apart]
  rfl

end GoGraft.Directive
