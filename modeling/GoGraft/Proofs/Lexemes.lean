import GoGraft.Go.Lexeme
import Mathlib.Data.List.TakeDrop

/-! A reader of lexemes takes the front of a text and leaves the rest: what it took and what it left,
side by side, are the text. Identifiers and numbers have no quotes, slashes and braces. -/

namespace GoGraft.Go.Lexeme

theorem upTo_append {text rest : Text} (left : rest <:+ text) :
    (upTo text rest).1 ++ (upTo text rest).2 = text := by
  obtain ⟨taken, rfl⟩ := left
  simp [upTo]

private theorem suffix_trans_cons {rest text : Text} (c : Char) (left : rest <:+ text) :
    rest <:+ c :: text :=
  left.trans (List.suffix_cons c text)

theorem blockComment?_append {text taken rest : Text}
    (read : blockComment? text = some (taken, rest)) : taken ++ rest = text := by
  fun_induction blockComment? text generalizing taken with
  | case1 left => cases read; rfl
  | case2 c text _ ih =>
    obtain ⟨⟨inner, left⟩, found, same⟩ := Option.map_eq_some_iff.1 read
    cases same
    rw [List.cons_append, ih found]
  | case3 => cases read

theorem comment?_append {text taken rest : Text} (read : comment? text = some (taken, rest)) :
    taken ++ rest = text := by
  revert read
  fun_cases comment? text with
  | case1 text =>
    intro read
    cases read
    simp [List.takeWhile_append_dropWhile]
  | case2 text =>
    intro read
    obtain ⟨⟨inner, left⟩, found, same⟩ := Option.map_eq_some_iff.1 read
    cases same
    rw [List.cons_append, List.cons_append, blockComment?_append found]
  | case3 => intro read; cases read

theorem identifier?_append {text taken rest : Text} (read : identifier? text = some (taken, rest)) :
    taken ++ rest = text := by
  cases text with
  | nil => cases read
  | cons c text =>
    simp only [identifier?, List.span_eq_takeWhile_dropWhile] at read
    split at read
    · cases read
      rw [List.cons_append, List.takeWhile_append_dropWhile]
    · cases read

theorem afterHexDigits_suffix {count : Nat} {text rest : Text}
    (read : afterHexDigits count text = some rest) : rest <:+ text := by
  induction count generalizing text with
  | zero => cases read; exact List.suffix_refl _
  | succ count ih =>
    cases text with
    | nil => cases read
    | cons c text =>
      rw [afterHexDigits] at read
      split at read
      · exact suffix_trans_cons c (ih read)
      · cases read

theorem rawString?_append {text taken rest : Text} (read : rawString? text = some (taken, rest)) :
    taken ++ rest = text := by
  revert read
  fun_cases rawString? text with
  | case1 text c left found =>
    intro read
    have tick : c = '\x60' := by
      have stop := List.head?_dropWhile_not (· != '\x60') text
      simpa [found] using stop
    cases read
    have split := List.takeWhile_append_dropWhile (p := (· != '\x60')) (l := text)
    rw [found, tick] at split
    simpa using split
  | case2 => intro read; cases read
  | case3 => intro read; cases read

theorem afterEscape_suffix {text rest : Text} (read : afterEscape text = some rest) : rest <:+ text := by
  revert read
  fun_cases afterEscape text with
  | case1 text => exact fun read => suffix_trans_cons _ (afterHexDigits_suffix read)
  | case2 text => exact fun read => suffix_trans_cons _ (afterHexDigits_suffix read)
  | case3 text => exact fun read => suffix_trans_cons _ (afterHexDigits_suffix read)
  | case4 c text =>
    intro read
    cases read
    exact List.suffix_cons _ _
  | case5 => intro read; cases read

theorem afterInterpreted_suffix {fuel : Nat} {text rest : Text}
    (read : afterInterpreted fuel text = some rest) : rest <:+ text := by
  induction fuel generalizing text with
  | zero => cases read
  | succ fuel ih =>
    cases text with
    | nil => cases read
    | cons c text =>
      rw [afterInterpreted] at read
      split at read
      · cases read; exact List.suffix_cons _ _
      · split at read
        · cases read
        · split at read
          · obtain ⟨inner, escaped, found⟩ := Option.bind_eq_some_iff.1 read
            exact suffix_trans_cons c ((ih found).trans (afterEscape_suffix escaped))
          · exact suffix_trans_cons c (ih read)

theorem interpretedString?_append {text taken rest : Text}
    (read : interpretedString? text = some (taken, rest)) : taken ++ rest = text := by
  revert read
  fun_cases interpretedString? text with
  | case1 text =>
    intro read
    obtain ⟨left, found, same⟩ := Option.map_eq_some_iff.1 read
    have whole := upTo_append (suffix_trans_cons '\x22' (afterInterpreted_suffix found))
    rwa [same] at whole
  | case2 => intro read; cases read

theorem string?_append {text taken rest : Text} (read : string? text = some (taken, rest)) :
    taken ++ rest = text := by
  rw [string?] at read
  cases raw : rawString? text with
  | none => exact interpretedString?_append (by simpa [raw] using read)
  | some found =>
    have same : found = (taken, rest) := by simpa [raw] using read
    exact rawString?_append (same ▸ raw)

theorem afterRuneEscape_suffix {text rest : Text} (read : afterRuneEscape text = some rest) :
    rest <:+ text := by
  revert read
  fun_cases afterRuneEscape text with
  | case1 text => exact fun read => suffix_trans_cons _ (afterHexDigits_suffix read)
  | case2 text => exact fun read => suffix_trans_cons _ (afterHexDigits_suffix read)
  | case3 text => exact fun read => suffix_trans_cons _ (afterHexDigits_suffix read)
  | case4 c text =>
    intro read
    cases read
    exact List.suffix_cons _ _
  | case5 c text _ _ _ _ a b d left same =>
    intro read
    cases read
    exact same ▸ ⟨[a, b, d], rfl⟩
  | case6 => intro read; cases read
  | case7 => intro read; cases read
  | case8 => intro read; cases read

theorem rune?_append {text taken rest : Text} (read : rune? text = some (taken, rest)) :
    taken ++ rest = text := by
  cases text with
  | nil => cases read
  | cons c text =>
    by_cases quote : c = '\x27'
    · subst quote
      simp only [rune?] at read
      split at read
      next left inner =>
        have inside : '\x27' :: left <:+ text := by
          split at inner
          next escape => exact suffix_trans_cons _ (afterRuneEscape_suffix inner)
          next d more _ =>
            split at inner
            · cases inner
            · cases inner; exact List.suffix_cons _ _
          next => cases inner
        have suffix : left <:+ '\x27' :: text :=
          suffix_trans_cons _ ((List.suffix_cons _ _).trans inside)
        have whole := upTo_append suffix
        rw [Option.some.inj read] at whole
        exact whole
      next => cases read
    · simp [rune?, quote] at read

/-! ### Ordinary characters -/

/-- The characters that start or end a literal, a comment or a body. -/
def specials : List Char :=
  "\x7b\x7d\x22\x27\x60/".toList

def isOrdinary (c : Char) : Bool :=
  !specials.contains c

/-- A character of some kind is none of those that are not of the kind. -/
theorem not_mem_of {holds : Char → Bool} {others : List Char} (apart : others.all (!holds ·)) {c : Char}
    (held : holds c) : c ∉ others := by
  intro inside
  have other := List.all_eq_true.1 apart c inside
  rw [held] at other
  cases other

theorem isOrdinary_of {holds : Char → Bool} (apart : specials.all (!holds ·)) {c : Char}
    (held : holds c) : isOrdinary c := by
  rw [isOrdinary, Bool.not_eq_true', List.contains_eq_mem, decide_eq_false_iff_not]
  exact not_mem_of apart held

theorem identifier?_parts {text taken rest : Text} (read : identifier? text = some (taken, rest)) :
    ∃ c more, taken = c :: more ∧ Text.startsIdentifier c ∧
      (∀ d ∈ more, Text.continuesIdentifier d) ∧
      ∀ d, rest.head? = some d → Text.continuesIdentifier d = false := by
  cases text with
  | nil => cases read
  | cons c text =>
    simp only [identifier?, List.span_eq_takeWhile_dropWhile] at read
    split at read
    next starts =>
      cases read
      refine ⟨c, _, rfl, starts, List.all_eq_true.1 List.all_takeWhile, fun d first => ?_⟩
      have stop := List.head?_dropWhile_not Text.continuesIdentifier text
      rw [first] at stop
      simpa using stop
    next => cases read

theorem identifier?_ordinary {text taken rest : Text}
    (read : identifier? text = some (taken, rest)) : ∀ c ∈ taken, isOrdinary c := by
  obtain ⟨c, more, rfl, starts, continues, _⟩ := identifier?_parts read
  refine List.forall_mem_cons.2 ⟨isOrdinary_of (by decide) starts, fun d inside => ?_⟩
  exact isOrdinary_of (by decide) (continues d inside)

/-- The characters of numbers. -/
def isNumeral (c : Char) : Bool :=
  c.isAlphanum || "_.+-".toList.contains c

/-- What is left of a text behind characters of numbers. -/
def Skips (text rest : Text) : Prop :=
  ∃ taken, taken ++ rest = text ∧ ∀ c ∈ taken, isNumeral c

namespace Skips

theorem refl (text : Text) : Skips text text :=
  ⟨[], rfl, fun _ none => nomatch none⟩

theorem trans {first second third : Text} (left : Skips first second) (right : Skips second third) :
    Skips first third := by
  obtain ⟨one, rfl, numeral⟩ := left
  obtain ⟨two, rfl, numeral'⟩ := right
  exact ⟨one ++ two, by simp, List.forall_mem_append.2 ⟨numeral, numeral'⟩⟩

theorem cons {c : Char} {text rest : Text} (numeral : isNumeral c) (left : Skips text rest) :
    Skips (c :: text) rest := by
  obtain ⟨taken, rfl, others⟩ := left
  exact ⟨c :: taken, rfl, List.forall_mem_cons.2 ⟨numeral, others⟩⟩

theorem one {c : Char} (numeral : isNumeral c) (text : Text) : Skips (c :: text) text :=
  (refl text).cons numeral

end Skips

/-! ### Numbers -/

/-- The digits of a base. -/
class Digits (isDigit : Char → Bool) : Prop where
  numeral : ∀ {c : Char}, isDigit c → isNumeral c

theorem isNumeral_of_isDigit {c : Char} (digit : c.isDigit) : isNumeral c := by
  simp [isNumeral, Char.isAlphanum, digit]

theorem isNumeral_of_isAlpha {c : Char} (letter : c.isAlpha) : isNumeral c := by
  simp [isNumeral, Char.isAlphanum, letter]

instance : Digits Char.isDigit := ⟨isNumeral_of_isDigit⟩

instance : Digits isHexDigit where
  numeral {c} digit := by
    simp only [isHexDigit, Bool.or_eq_true, Bool.and_eq_true, decide_eq_true_eq] at digit
    rcases digit with (decimal | ⟨above, below⟩) | ⟨above, below⟩
    · exact isNumeral_of_isDigit decimal
    · have lower : c.isLower := Bool.and_eq_true_iff.2
        ⟨decide_eq_true above, decide_eq_true (Char.le_trans below (by decide))⟩
      exact isNumeral_of_isAlpha (Bool.or_eq_true_iff.2 (.inr lower))
    · have upper : c.isUpper := decide_eq_true ⟨above, Char.le_trans below (by decide)⟩
      exact isNumeral_of_isAlpha (Bool.or_eq_true_iff.2 (.inl upper))

instance : Digits isOctalDigit where
  numeral {c} digit := by
    simp only [isOctalDigit, Bool.and_eq_true, decide_eq_true_eq] at digit
    apply isNumeral_of_isDigit
    simp only [Char.isDigit, ge_iff_le, Bool.and_eq_true, decide_eq_true_eq]
    exact ⟨digit.1, Char.le_trans digit.2 (by decide)⟩

instance : Digits isBinaryDigit where
  numeral {c} digit := by
    rcases Bool.or_eq_true_iff.1 digit with same | same <;> rw [eq_of_beq same] <;> rfl

theorem afterDigits_more_skips (isDigit : Char → Bool) [Digits isDigit] (text : Text) :
    Skips text (afterDigits.more isDigit text) := by
  fun_induction afterDigits.more isDigit text with
  | case1 c text digit ih => exact (ih.cons (Digits.numeral digit)).cons rfl
  | case2 => exact .refl _
  | case3 c text _ digit ih => exact ih.cons (Digits.numeral digit)
  | case4 => exact .refl _
  | case5 => exact .refl _

theorem afterDigits_skips {isDigit : Char → Bool} [Digits isDigit] {text rest : Text}
    (read : afterDigits isDigit text = some rest) : Skips text rest := by
  cases text with
  | nil => cases read
  | cons c text =>
    rw [afterDigits] at read
    split at read
    next digit =>
      cases read
      exact (afterDigits_more_skips isDigit text).cons (Digits.numeral digit)
    next => cases read

theorem skipUnderscore_skips (text : Text) : Skips text (skipUnderscore text) := by
  fun_cases skipUnderscore text with
  | case1 => exact .one rfl _
  | case2 => exact .refl _

theorem afterExponent_skips {marks : List Char} (numeral : marks.all isNumeral)
    {text rest : Text} (read : afterExponent marks text = some rest) : Skips text rest := by
  unfold afterExponent at read
  split at read
  next c text =>
    split at read
    next mark =>
      have first : isNumeral c := List.all_eq_true.1 numeral c (by simpa using mark)
      split at read
      · exact ((afterDigits_skips read).cons rfl).cons first
      · exact ((afterDigits_skips read).cons rfl).cons first
      · exact (afterDigits_skips read).cons first
    next => cases read
  next => cases read

/-- Every reading of a list that succeeds skips characters of numbers. -/
def AllSkip (text : Text) (ends : List (Option Text)) : Prop :=
  ∀ rest, some rest ∈ ends → Skips text rest

theorem AllSkip.append {text : Text} {first second : List (Option Text)}
    (left : AllSkip text first) (right : AllSkip text second) :
    AllSkip text (first ++ second) := by
  intro rest inside
  rcases List.mem_append.1 inside with held | held
  · exact left rest held
  · exact right rest held

theorem AllSkip.mono {text longer : Text} {ends : List (Option Text)}
    (held : AllSkip text ends) (left : Skips longer text) : AllSkip longer ends :=
  fun rest inside => left.trans (held rest inside)

theorem integerEnds_skip (text : Text) : AllSkip text (integerEnds text) := by
  have digits {isDigit : Char → Bool} [Digits isDigit] {text rest : Text}
      (read : some rest = afterDigits isDigit (skipUnderscore text)) : Skips text rest :=
    (skipUnderscore_skips text).trans (afterDigits_skips read.symm)
  intro rest inside
  unfold integerEnds at inside
  split at inside
  next text =>
    rcases List.mem_append.1 inside with held | held
    · rcases List.mem_cons.1 held with same | held
      · cases same; exact .one rfl _
      · exact (digits (List.mem_singleton.1 held)).cons rfl
    · split at held
      next c more =>
        have based {isBase : Bool} {isDigit : Char → Bool} [Digits isDigit]
            (numeral : isBase → isNumeral c) (read : some rest =
              if isBase then afterDigits isDigit (skipUnderscore more) else none) :
            Skips ('0' :: c :: more) rest := by
          cases isBase with
          | false => cases read
          | true => exact ((digits read).cons (numeral rfl)).cons rfl
        have letter {one other : Char} (first : isNumeral one) (second : isNumeral other)
            (either : c == one || c == other) : isNumeral c := by
          rcases Bool.or_eq_true_iff.1 either with same | same
          · rwa [eq_of_beq same]
          · rwa [eq_of_beq same]
        simp only [List.mem_cons, List.not_mem_nil, or_false] at held
        rcases held with read | read | read
        · exact based (letter rfl rfl) read
        · exact based (letter rfl rfl) read
        · exact based (letter rfl rfl) read
      next => cases held
  next c text _ =>
    split at inside
    next digit =>
      have first : isNumeral c := Digits.numeral digit
      rcases List.mem_cons.1 inside with same | held
      · cases same; exact .one first _
      · exact (digits (List.mem_singleton.1 held)).cons first
    next => cases inside
  next => cases inside

private theorem optionally_skips (reader : Text → Option Text)
    (sound : ∀ {text rest : Text}, reader text = some rest → Skips text rest) (text : Text) :
    Skips text (optionally reader text) := by
  rw [optionally]
  cases read : reader text with
  | none => exact .refl _
  | some rest => exact sound read

theorem hexFloatEnds_skip (text : Text) : AllSkip text (hexFloatEnds text) := by
  have exponent {text rest : Text} (read : afterExponent ['p', 'P'] text = some rest) :
      Skips text rest := afterExponent_skips (by decide) read
  intro rest inside
  simp only [hexFloatEnds, List.mem_cons, List.not_mem_nil, or_false] at inside
  rcases inside with read | read | read
  · obtain ⟨middle, whole, found⟩ := Option.bind_eq_some_iff.1 read.symm
    have left := (skipUnderscore_skips text).trans (afterDigits_skips whole)
    split at found
    next fraction =>
      have inner := (optionally_skips _ (@afterDigits_skips isHexDigit _) fraction).trans
        (exponent found)
      exact left.trans (inner.cons rfl)
    next => cases found
  · obtain ⟨middle, whole, found⟩ := Option.bind_eq_some_iff.1 read.symm
    have left := (skipUnderscore_skips text).trans (afterDigits_skips whole)
    exact left.trans (exponent found)
  · split at read
    next fraction =>
      obtain ⟨middle, whole, found⟩ := Option.bind_eq_some_iff.1 read.symm
      exact ((afterDigits_skips whole).trans (exponent found)).cons rfl
    next => cases read

theorem floatEnds_skip (text : Text) : AllSkip text (floatEnds text) := by
  have exponent {text rest : Text} (read : afterExponent ['e', 'E'] text = some rest) :
      Skips text rest := afterExponent_skips (by decide) read
  apply AllSkip.append
  · intro rest inside
    simp only [List.mem_cons, List.not_mem_nil, or_false] at inside
    rcases inside with read | read | read
    · obtain ⟨middle, whole, found⟩ := Option.bind_eq_some_iff.1 read.symm
      split at found
      next fraction =>
        cases found
        have digits := optionally_skips _ (@afterDigits_skips Char.isDigit _) fraction
        have ending := optionally_skips _ exponent (optionally (afterDigits Char.isDigit) fraction)
        exact (afterDigits_skips whole).trans ((digits.trans ending).cons rfl)
      next => cases found
    · obtain ⟨middle, whole, found⟩ := Option.bind_eq_some_iff.1 read.symm
      exact (afterDigits_skips whole).trans (exponent found)
    · split at read
      next fraction =>
        obtain ⟨middle, whole, found⟩ := Option.map_eq_some_iff.1 read.symm
        cases found
        have ending := optionally_skips _ exponent middle
        exact ((afterDigits_skips whole).trans ending).cons rfl
      next => cases read
  · split
    next rest => exact (hexFloatEnds_skip rest).mono (((Skips.refl rest).cons rfl).cons rfl)
    next rest => exact (hexFloatEnds_skip rest).mono (((Skips.refl rest).cons rfl).cons rfl)
    next => intro rest inside; cases inside

theorem shortest_mem {ends : List (Option Text)} {rest : Text} (found : shortest ends = some rest) :
    some rest ∈ ends := by
  fun_induction shortest ends with
  | case1 => cases found
  | case2 ends ih => exact List.mem_cons_of_mem _ (ih found)
  | case3 text ends other shorter _ ih =>
    cases found
    exact List.mem_cons_of_mem _ (ih shorter)
  | case4 text ends other shorter _ ih => cases found; simp
  | case5 text ends none_left ih => cases found; simp

theorem upTo_numeral {text rest : Text} (left : Skips text rest) :
    ∀ c ∈ (upTo text rest).1, isNumeral c := by
  obtain ⟨taken, rfl, numeral⟩ := left
  simpa [upTo] using numeral

theorem number?_skips {text taken rest : Text} (read : number? text = some (taken, rest)) :
    Skips text rest ∧ (taken, rest) = upTo text rest := by
  cases text with
  | nil => cases read
  | cons c text =>
    rw [number?] at read
    split at read
    next =>
      obtain ⟨left, found, same⟩ := Option.map_eq_some_iff.1 read
      have ends := (integerEnds_skip (c :: text)).append (floatEnds_skip (c :: text))
      have skips : Skips (c :: text) left := by
        rcases List.mem_append.1 (shortest_mem found) with held | held
        · exact ends left held
        · obtain ⟨reading, inside, imaginary⟩ := List.mem_map.1 held
          unfold imaginaryEnd at imaginary
          split at imaginary
          next inner =>
            cases imaginary
            have longer : Skips (c :: text) ('i' :: left) := by
              rcases List.mem_cons.1 inside with whole | held
              · exact afterDigits_skips whole.symm
              · exact ends _ held
            exact longer.trans (.one rfl _)
          next => cases imaginary
      cases same
      exact ⟨skips, rfl⟩
    next => cases read

theorem number?_append {text taken rest : Text} (read : number? text = some (taken, rest)) :
    taken ++ rest = text := by
  obtain ⟨⟨front, same, _⟩, whole⟩ := number?_skips read
  have all := upTo_append ⟨front, same⟩
  rwa [← whole] at all

theorem number?_numeral {text taken rest : Text} (read : number? text = some (taken, rest)) :
    ∀ c ∈ taken, isNumeral c := by
  obtain ⟨skips, whole⟩ := number?_skips read
  have all := upTo_numeral skips
  rwa [← whole] at all

theorem number?_ordinary {text taken rest : Text} (read : number? text = some (taken, rest)) :
    ∀ c ∈ taken, isOrdinary c := by
  intro c inside
  exact isOrdinary_of (by decide) (number?_numeral read c inside)

end GoGraft.Go.Lexeme
