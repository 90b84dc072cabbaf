import GoGraft.Directive.Braces
import GoGraft.Proofs.Lexing
import Mathlib.Algebra.Ring.Int.Defs

/-! Braces counted on one row. The count that is made of a line, character by character, is that of
the brace tokens on the row, unless a block comment or a literal of several rows reaches into it:
strings, runes and line comments are passed over as the grammar reads them. -/

namespace GoGraft

open Go (Tree)

/-- The step in depth that a leaf makes: one up for an opening brace, one down for a closing one. -/
def Go.Tree.brace : Tree → Int
  | .leaf .token ['\x7b'] => 1
  | .leaf .token ['\x7d'] => -1
  | _ => 0

theorem Go.Tree.brace_of_ordinary {kind : Go.LeafKind} {text : Text}
    (ordinary : ∀ c ∈ text, Go.Lexeme.isOrdinary c) : (Tree.leaf kind text).brace = 0 := by
  unfold Go.Tree.brace
  split
  next same =>
    cases same
    cases ordinary '\x7b' List.mem_cons_self
  next same =>
    cases same
    cases ordinary '\x7d' List.mem_cons_self
  next => rfl

namespace Directive

open Go.Lexeme

/-! ### Quotes -/

theorem balanceFrom_nil (quote : Option Char) : balanceFrom quote [] = 0 := by
  cases quote <;> rfl

theorem balanceFrom_quoted (quote c : Char) (rest : Text) :
    balanceFrom (some quote) (c :: rest) =
      if quote ≠ '\x60' ∧ c = '\\' then balanceFrom (some quote) rest.tail
      else if c = quote then balanceFrom none rest
      else balanceFrom (some quote) rest := by
  cases rest with
  | nil => simp [balanceFrom]
  | cons d rest => rw [balanceFrom, List.tail_cons]

theorem balanceFrom_ordinary {front : Text} (ordinary : ∀ c ∈ front, isOrdinary c) (tail : Text) :
    balanceFrom none (front ++ tail) = balanceFrom none tail := by
  induction front with
  | nil => rfl
  | cons c front ih =>
    obtain ⟨first, others⟩ := List.forall_mem_cons.1 ordinary
    have apart : ∀ d ∈ specials, c ≠ d := by
      rintro d special rfl
      simp [isOrdinary, special] at first
    have quotes : ¬ (c = '\x22' ∨ c = '\x60' ∨ c = '\x27') := by
      rintro (same | same | same)
      · exact apart '\x22' (by decide) same
      · exact apart '\x60' (by decide) same
      · exact apart '\x27' (by decide) same
    rw [List.cons_append, balanceFrom, if_neg quotes,
      if_neg (fun slash => apart '/' (by decide) slash.1), if_neg (apart '\x7b' (by decide)),
      if_neg (apart '\x7d' (by decide))]
    exact ih others

/-- Inside quotes everything is passed over but the quote and, unless the quote is a backtick, the
backslash. -/
theorem balanceFrom_inside {quote : Char} {front : Text}
    (inside : ∀ c ∈ front, c ≠ quote ∧ (quote ≠ '\x60' → c ≠ '\\')) (tail : Text) :
    balanceFrom (some quote) (front ++ tail) = balanceFrom (some quote) tail := by
  induction front with
  | nil => rfl
  | cons c front ih =>
    obtain ⟨first, others⟩ := List.forall_mem_cons.1 inside
    rw [List.cons_append, balanceFrom_quoted, if_neg (fun escape => first.2 escape.1 escape.2),
      if_neg first.1]
    exact ih others

theorem balanceFrom_close (quote : Char) (different : quote ≠ '\\') (tail : Text) :
    balanceFrom (some quote) (quote :: tail) = balanceFrom none tail := by
  rw [balanceFrom_quoted, if_neg (fun escape => different escape.2), if_pos rfl]

theorem balanceFrom_open {quote : Char} (known : quote = '\x22' ∨ quote = '\x60' ∨ quote = '\x27')
    (tail : Text) : balanceFrom none (quote :: tail) = balanceFrom (some quote) tail := by
  rw [balanceFrom, if_pos known]

/-- A backslash takes the character behind it; digits of an escape are passed over. -/
theorem balanceFrom_escape {quote c : Char} {digits : Text} (known : quote = '\x22' ∨ quote = '\x27')
    (hex : ∀ d ∈ digits, isHexDigit d) (tail : Text) :
    balanceFrom (some quote) ('\\' :: c :: (digits ++ tail)) = balanceFrom (some quote) tail := by
  have apart : quote ≠ '\x60' ∧ ∀ d ∈ digits, d ≠ quote ∧ d ≠ '\\' := by
    refine ⟨by rcases known with rfl | rfl <;> decide, fun d inside => ?_⟩
    have digit := hex d inside
    refine ⟨?_, by rintro rfl; cases digit⟩
    rcases known with rfl | rfl
    · rintro rfl; cases digit
    · rintro rfl; cases digit
  rw [balanceFrom_quoted, if_pos ⟨apart.1, rfl⟩, List.tail_cons]
  exact balanceFrom_inside (fun d inside => ⟨(apart.2 d inside).1, fun _ => (apart.2 d inside).2⟩) tail

/-! ### Literals -/

theorem afterHexDigits_eq_some {count : Nat} {text rest : Text}
    (read : afterHexDigits count text = some rest) :
    ∃ digits, text = digits ++ rest ∧ ∀ d ∈ digits, isHexDigit d := by
  induction count generalizing text with
  | zero =>
    cases read
    exact ⟨[], rfl, List.forall_mem_nil _⟩
  | succ count ih =>
    cases text with
    | nil => cases read
    | cons c text =>
      rw [afterHexDigits] at read
      split at read
      next digit =>
        obtain ⟨digits, rfl, hex⟩ := ih read
        exact ⟨c :: digits, rfl, List.forall_mem_cons.2 ⟨digit, hex⟩⟩
      next => cases read

/-- An escape is a character, and digits. -/
def Escapes (text rest : Text) : Prop :=
  ∃ c digits, text = c :: (digits ++ rest) ∧ ∀ d ∈ digits, isHexDigit d

theorem escapes_of_hex {count : Nat} {c : Char} {text rest : Text}
    (read : afterHexDigits count text = some rest) : Escapes (c :: text) rest := by
  obtain ⟨digits, rfl, hex⟩ := afterHexDigits_eq_some read
  exact ⟨c, digits, rfl, hex⟩

theorem afterEscape_escapes {text rest : Text} (read : afterEscape text = some rest) :
    Escapes text rest := by
  revert read
  fun_cases afterEscape text with
  | case1 text => exact escapes_of_hex
  | case2 text => exact escapes_of_hex
  | case3 text => exact escapes_of_hex
  | case4 c text =>
    intro read
    cases read
    exact ⟨c, [], rfl, List.forall_mem_nil _⟩
  | case5 => intro read; cases read

theorem isHexDigit_of_isOctalDigit {c : Char} (octal : isOctalDigit c) : isHexDigit c := by
  simp only [isOctalDigit, Bool.and_eq_true, decide_eq_true_eq] at octal
  have digit : c.isDigit := by
    simp only [Char.isDigit, Bool.and_eq_true, decide_eq_true_eq]
    exact ⟨octal.1, Nat.le_trans octal.2 (by decide)⟩
  simp [isHexDigit, digit]

theorem afterRuneEscape_escapes {text rest : Text} (read : afterRuneEscape text = some rest) :
    Escapes text rest := by
  revert read
  fun_cases afterRuneEscape text with
  | case1 text => exact escapes_of_hex
  | case2 text => exact escapes_of_hex
  | case3 text => exact escapes_of_hex
  | case4 c text =>
    intro read
    cases read
    exact ⟨c, [], rfl, List.forall_mem_nil _⟩
  | case5 c text _ _ _ _ a b d left same octal =>
    intro read
    cases read
    simp only [Bool.and_eq_true] at octal
    refine ⟨a, [b, d], same, ?_⟩
    simp only [List.forall_mem_cons]
    exact ⟨isHexDigit_of_isOctalDigit octal.1.2, isHexDigit_of_isOctalDigit octal.2,
      List.forall_mem_nil _⟩
  | case6 => intro read; cases read
  | case7 => intro read; cases read
  | case8 => intro read; cases read

theorem afterInterpreted_balance {fuel : Nat} {text rest : Text}
    (read : afterInterpreted fuel text = some rest) :
    ∃ front, text = front ++ rest ∧
      ∀ tail, balanceFrom (some '\x22') (front ++ tail) = balanceFrom none tail := by
  induction fuel generalizing text with
  | zero => cases read
  | succ fuel ih =>
    cases text with
    | nil => cases read
    | cons c text =>
      rw [afterInterpreted] at read
      split at read
      next closing =>
        cases read
        cases eq_of_beq closing
        exact ⟨['\x22'], rfl, fun tail => balanceFrom_close '\x22' (by decide) tail⟩
      next other =>
        split at read
        · cases read
        · split at read
          next escape =>
            cases eq_of_beq escape
            obtain ⟨middle, escaped, found⟩ := Option.bind_eq_some_iff.1 read
            obtain ⟨d, digits, rfl, hex⟩ := afterEscape_escapes escaped
            obtain ⟨front, rfl, balance⟩ := ih found
            refine ⟨'\\' :: d :: (digits ++ front), by simp, fun tail => ?_⟩
            calc balanceFrom (some '\x22') ('\\' :: d :: (digits ++ front) ++ tail)
                = balanceFrom (some '\x22') ('\\' :: d :: (digits ++ (front ++ tail))) := by simp
              _ = balanceFrom (some '\x22') (front ++ tail) := balanceFrom_escape (.inl rfl) hex _
              _ = balanceFrom none tail := balance tail
          next ordinary =>
            obtain ⟨front, rfl, balance⟩ := ih read
            refine ⟨c :: front, rfl, fun tail => ?_⟩
            rw [List.cons_append, balanceFrom_quoted,
              if_neg (fun escape => ordinary (beq_iff_eq.2 escape.2)),
              if_neg (fun closing => other (beq_iff_eq.2 closing)), balance]

theorem upTo_append_eq {front rest : Text} : upTo (front ++ rest) rest = (front, rest) := by
  simp [upTo]

theorem balanceFrom_string {text taken rest : Text} (read : string? text = some (taken, rest))
    (tail : Text) : balanceFrom none (taken ++ tail) = balanceFrom none tail := by
  rw [string?] at read
  cases raw : rawString? text with
  | some found =>
    simp only [raw, Option.orElse_some, Option.some.injEq] at read
    subst read
    revert raw
    fun_cases rawString? text with
    | case1 text _ left behind =>
      intro raw
      cases raw
      have inside : ∀ c ∈ text.takeWhile (· != '\x60'), c ≠ '\x60' ∧ ('\x60' ≠ '\x60' → c ≠ '\\') := by
        intro c held
        have other := List.all_eq_true.1 List.all_takeWhile c held
        exact ⟨by simpa using other, fun same => absurd rfl same⟩
      rw [List.cons_append, List.cons_append, List.append_assoc, balanceFrom_open (.inr (.inl rfl)),
        balanceFrom_inside inside]
      exact balanceFrom_close '\x60' (by decide) tail
    | case2 => intro raw; cases raw
    | case3 => intro raw; cases raw
  | none =>
    simp only [raw, Option.orElse_none] at read
    revert read
    fun_cases interpretedString? text with
    | case1 text =>
      intro read
      obtain ⟨left, found, same⟩ := Option.map_eq_some_iff.1 read
      obtain ⟨front, rfl, balance⟩ := afterInterpreted_balance found
      rw [← List.cons_append, upTo_append_eq] at same
      cases same
      rw [List.cons_append, balanceFrom_open (.inl rfl)]
      exact balance tail
    | case2 => intro read; cases read

theorem balanceFrom_rune {text taken rest : Text} (read : rune? text = some (taken, rest))
    (tail : Text) : balanceFrom none (taken ++ tail) = balanceFrom none tail := by
  cases text with
  | nil => cases read
  | cons c text =>
    by_cases quote : c = '\x27'
    · subst quote
      simp only [rune?] at read
      split at read
      next left inner =>
        have closed (tail : Text) : balanceFrom (some '\x27') ('\x27' :: tail) = balanceFrom none tail :=
          balanceFrom_close '\x27' (by decide) tail
        obtain ⟨front, rfl, balance⟩ : ∃ front, text = front ++ '\x27' :: left ∧
            ∀ tail, balanceFrom (some '\x27') (front ++ tail) = balanceFrom (some '\x27') tail := by
          split at inner
          next escape =>
            obtain ⟨d, digits, rfl, hex⟩ := afterRuneEscape_escapes inner
            refine ⟨'\\' :: d :: digits, by simp, fun tail => ?_⟩
            exact balanceFrom_escape (.inr rfl) hex tail
          next d more other =>
            split at inner
            · cases inner
            next different =>
              cases inner
              refine ⟨[d], rfl, balanceFrom_inside ?_⟩
              refine List.forall_mem_singleton.2 ⟨by simpa using different, fun _ => ?_⟩
              rintro rfl
              exact other rfl
          next => cases inner
        have same : upTo ('\x27' :: (front ++ '\x27' :: left)) left = ('\x27' :: (front ++ ['\x27']), left) := by
          have all := @upTo_append_eq ('\x27' :: (front ++ ['\x27'])) left
          simpa using all
        rw [same] at read
        cases read
        rw [List.cons_append, balanceFrom_open (.inr (.inr rfl)), List.append_assoc, balance]
        exact closed tail
      next => cases read
    · simp [rune?, quote] at read

/-! ### Leaves -/

/-- A literal has no part in the depth. -/
theorem brace_of_passed {text : Text}
    (passed : ∀ tail, balanceFrom none (text ++ tail) = balanceFrom none tail) (kind : Go.LeafKind) :
    (Tree.leaf kind text).brace = 0 := by
  have alone := passed []
  unfold Go.Tree.brace
  split
  next same => cases same; cases alone
  next same => cases same; cases alone
  next => rfl

theorem balanceFrom_slash {tail : Text} (other : tail.head? ≠ some '/') :
    balanceFrom none ('/' :: tail) = balanceFrom none tail := by
  rw [balanceFrom, if_neg (by decide), if_neg (fun both => other both.2), if_neg (by decide),
    if_neg (by decide)]

theorem balanceFrom_opening (tail : Text) :
    balanceFrom none ('\x7b' :: tail) = balanceFrom none tail + 1 := by
  rw [balanceFrom, if_neg (by decide), if_neg (fun both => by cases both.1), if_pos rfl]

theorem balanceFrom_closing (tail : Text) :
    balanceFrom none ('\x7d' :: tail) = balanceFrom none tail - 1 := by
  rw [balanceFrom, if_neg (by decide), if_neg (fun both => by cases both.1), if_neg (by decide),
    if_pos rfl]

theorem firstOf_mem {spellings : List Text} {text taken rest : Text}
    (read : Go.Token.firstOf spellings text = some (taken, rest)) : taken ∈ spellings := by
  obtain ⟨spelling, inside, found⟩ := List.exists_of_findSome?_eq_some read
  obtain ⟨left, _, same⟩ := Option.map_eq_some_iff.1 found
  cases same
  exact inside

end Directive

/-- The step in depth that a token makes. -/
def Go.Token.brace : Go.Token → Int
  | .mark spelling _ => (Tree.leaf .token spelling).brace
  | _ => 0

namespace Go.Token

open Directive Lexeme

theorem read?_terminator {here : Accepts} {text taken rest : Text}
    (read : terminator.read? here text = some (taken, rest)) : ∀ c ∈ taken, isOrdinary c := by
  simp only [read?] at read
  split at read
  · cases read; exact List.forall_mem_nil _
  next c rest =>
    split at read
    next known =>
      cases read
      simp only [Bool.or_eq_true, beq_iff_eq] at known
      rcases known with (rfl | rfl) | rfl <;> exact List.forall_mem_singleton.2 (by decide)
    next => cases read

/-- What a token that is not a mark is spelled with: ordinary characters, a literal, or an operator
that starts with a slash. -/
theorem read?_cases {symbol : Token} {here : Accepts} {text after : Text}
    (read : symbol.read? here (text ++ after) = some (text, after)) :
    (∃ notBefore, symbol = .mark text notBefore) ∨ symbol.brace = 0 ∧
      ((∀ c ∈ text, isOrdinary c) ∨ string? (text ++ after) = some (text, after) ∨
        rune? (text ++ after) = some (text, after) ∨ text = ['/'] ∨ text = ['/', '=']) := by
  cases symbol with
  | mark spelling notBefore =>
    simp only [read?] at read
    split at read
    · split at read
      · cases read
      · cases read; exact .inl ⟨notBefore, rfl⟩
    · cases read
  | word spelling =>
    simp only [read?] at read
    split at read
    next found =>
      split at read
      · cases read; exact .inr ⟨rfl, .inl (identifier?_ordinary found)⟩
      · cases read
    next => cases read
  | name reserved =>
    simp only [read?] at read
    split at read
    next found =>
      split at read
      · cases read
      · cases read; exact .inr ⟨rfl, .inl (identifier?_ordinary found)⟩
    next => cases read
  | number => exact .inr ⟨rfl, .inl (number?_ordinary read)⟩
  | string => exact .inr ⟨rfl, .inr (.inl read)⟩
  | rune => exact .inr ⟨rfl, .inr (.inr (.inl read))⟩
  | operator =>
    simp only [read?] at read
    split at read
    next found =>
      split at read
      · cases read
      · cases read
        have known : ∀ spelling ∈ operators, spelling = ['/'] ∨ spelling.all isOrdinary := by decide
        rcases known _ (firstOf_mem found) with slash | all
        · exact .inr ⟨rfl, .inr (.inr (.inr (.inl slash)))⟩
        · exact .inr ⟨rfl, .inl (List.all_eq_true.1 all)⟩
    next => cases read
  | assignment =>
    have known : ∀ spelling ∈ assignments, spelling = ['/', '='] ∨ spelling.all isOrdinary := by decide
    rcases known _ (firstOf_mem read) with slash | all
    · exact .inr ⟨rfl, .inr (.inr (.inr (.inr slash)))⟩
    · exact .inr ⟨rfl, .inl (List.all_eq_true.1 all)⟩
  | terminator => exact .inr ⟨rfl, .inl (read?_terminator read)⟩
  | ending =>
    refine .inr ⟨rfl, .inl ?_⟩
    simp only [read?] at read
    split at read
    · cases read; exact List.forall_mem_nil _
    · cases read

/-- What a token that is not a mark adds to the count: nothing, or what the slash does that it starts
with. -/
theorem read?_spelling {symbol : Token} {here : Accepts} {text after : Text}
    (read : symbol.read? here (text ++ after) = some (text, after)) :
    (∃ notBefore, symbol = .mark text notBefore) ∨ symbol.brace = 0 ∧
      ((∀ tail, balanceFrom none (text ++ tail) = balanceFrom none tail) ∨
        text = ['/'] ∨ text = ['/', '=']) := by
  rcases read?_cases read with mark | ⟨level, ordinary | string | rune | slash⟩
  · exact .inl mark
  · exact .inr ⟨level, .inl (balanceFrom_ordinary ordinary)⟩
  · exact .inr ⟨level, .inl (balanceFrom_string string)⟩
  · exact .inr ⟨level, .inl (balanceFrom_rune rune)⟩
  · exact .inr ⟨level, .inr slash⟩

theorem read?_brace {symbol : Token} {here : Accepts} {text after : Text}
    (read : symbol.read? here (text ++ after) = some (text, after)) :
    (Tree.leaf symbol.leafKind text).brace = symbol.brace := by
  rcases read?_spelling read with ⟨notBefore, rfl⟩ | ⟨level, passed | rfl | rfl⟩
  · rfl
  · rw [level, brace_of_passed passed]
  · rw [level]
    cases symbol <;> rfl
  · rw [level]
    cases symbol <;> rfl

/-- A token is counted as the grammar reads it. -/
theorem balanceFrom_token {symbol : Token} {here : Accepts} {text after : Text}
    (plain : symbol.isPlain) (code : comment? (text ++ after) = none)
    (read : symbol.read? here (text ++ after) = some (text, after)) {tail : Text}
    (begins : tail.head? = some '/' → after.head? = some '/') :
    balanceFrom none (text ++ tail) =
      (Tree.leaf symbol.leafKind text).brace + balanceFrom none tail := by
  rcases read?_spelling read with ⟨notBefore, rfl⟩ | ⟨level, passed | rfl | rfl⟩
  · simp only [isPlain, Bool.or_eq_true, beq_iff_eq] at plain
    rcases plain with (rfl | rfl) | all
    · rw [List.singleton_append, balanceFrom_opening, Int.add_comm]
      rfl
    · rw [List.singleton_append, balanceFrom_closing, Int.sub_eq_add_neg, Int.add_comm]
      rfl
    · rw [balanceFrom_ordinary (List.all_eq_true.1 all),
        Tree.brace_of_ordinary (List.all_eq_true.1 all), Int.zero_add]
  · rw [read?_brace read, level, passed, Int.zero_add]
  · -- Two slashes would start a comment.
    rw [read?_brace read, level, Int.zero_add]
    refine balanceFrom_slash fun slash => ?_
    obtain ⟨rest, rfl⟩ := List.head?_eq_some_iff.1 (begins slash)
    cases code
  · rw [read?_brace read, level, Int.zero_add]
    have equals : ∀ c ∈ ['='], isOrdinary c := List.forall_mem_singleton.2 (by decide)
    rw [List.cons_append, balanceFrom_slash (by rintro ⟨⟩)]
    exact balanceFrom_ordinary equals tail

end Go.Token

/-! ### Rows -/

namespace Text

/-- The row of a text with a given number. -/
def row : Nat → Text → Text
  | _, [] => []
  | 0, c :: rest => if c == '\n' then [] else c :: row 0 rest
  | number + 1, c :: rest => if c == '\n' then row number rest else row (number + 1) rest

/-- The newlines of a text. -/
def breaks (text : Text) : Nat :=
  text.countP (· == '\n')

@[simp] theorem row_nil (number : Nat) : row number [] = [] := by
  cases number <;> rfl

section Characters

variable {c : Char} (other : c ≠ '\n') (number : Nat) (text : Text)

@[simp] theorem breaks_newline : breaks ('\n' :: text) = breaks text + 1 :=
  List.countP_cons_of_pos rfl

@[simp] theorem row_newline : row (number + 1) ('\n' :: text) = row number text := by
  rw [row]
  rfl

@[simp] theorem row_zero_newline : row 0 ('\n' :: text) = [] := by
  rw [row]
  rfl

include other

@[simp] theorem breaks_other : breaks (c :: text) = breaks text :=
  List.countP_cons_of_neg (by simpa using other)

@[simp] theorem row_other : row (number + 1) (c :: text) = row (number + 1) text := by
  rw [row, if_neg (by simpa using other)]

@[simp] theorem row_zero_other : row 0 (c :: text) = c :: row 0 text := by
  rw [row, if_neg (by simpa using other)]

end Characters

theorem row_zero (text : Text) : row 0 text = text.takeWhile (· != '\n') := by
  induction text with
  | nil => rfl
  | cons c text ih =>
    by_cases newline : c = '\n'
    · simp [newline]
    · simp [newline, ih]

theorem mem_of_mem_row {number : Nat} {text : Text} {c : Char} (inside : c ∈ row number text) :
    c ∈ text := by
  induction text generalizing number with
  | nil => simp at inside
  | cons d text ih =>
    cases number with
    | zero =>
      rw [row_zero] at inside
      exact (List.takeWhile_sublist _).subset inside
    | succ number =>
      rw [row] at inside
      split at inside
      · exact List.mem_cons_of_mem d (ih inside)
      · exact List.mem_cons_of_mem d (ih inside)

theorem row_of_breaks_eq_zero {text : Text} (single : breaks text = 0) : row 0 text = text := by
  induction text with
  | nil => rfl
  | cons c text ih =>
    by_cases newline : c = '\n'
    · subst newline
      simp at single
    · rw [breaks_other newline] at single
      rw [row_zero_other newline, ih single]

theorem row_append_behind (front back : Text) (number : Nat) :
    row (breaks front + (number + 1)) (front ++ back) = row (number + 1) back := by
  induction front with
  | nil => simp [breaks]
  | cons c front ih =>
    by_cases newline : c = '\n'
    · subst newline
      rw [breaks_newline, List.cons_append, Nat.add_right_comm, row_newline, ih]
    · rw [breaks_other newline, List.cons_append, ← Nat.add_assoc, row_other newline, Nat.add_assoc, ih]

theorem row_append_last (front back : Text) :
    row (breaks front) (front ++ back) = row (breaks front) front ++ row 0 back := by
  induction front with
  | nil => simp [breaks]
  | cons c front ih =>
    by_cases newline : c = '\n'
    · subst newline
      rw [breaks_newline, List.cons_append, row_newline, row_newline, ih]
    · rw [breaks_other newline, List.cons_append]
      cases rows : breaks front with
      | zero =>
        rw [rows] at ih
        rw [row_zero_other newline, row_zero_other newline, ih, List.cons_append]
      | succ number =>
        rw [rows] at ih
        rw [row_other newline, row_other newline, ih]

theorem row_append_inside {number : Nat} {front : Text} (inside : number < breaks front)
    (back : Text) : row number (front ++ back) = row number front := by
  induction front generalizing number with
  | nil => cases inside
  | cons c front ih =>
    rw [List.cons_append]
    by_cases newline : c = '\n'
    · subst newline
      rw [breaks_newline] at inside
      cases number with
      | zero => simp
      | succ number => rw [row_newline, row_newline, ih (by omega)]
    · rw [breaks_other newline] at inside
      cases number with
      | zero => rw [row_zero_other newline, row_zero_other newline, ih inside]
      | succ number => rw [row_other newline, row_other newline, ih inside]

theorem lines_go_getElem? {text : Text} {number : Nat} (inside : number < breaks text) (line : Text) :
    (lines.go line text)[number]? =
      some (chomp ((if number = 0 then line.reverse else []) ++ row number text)) := by
  induction text generalizing number line with
  | nil => cases inside
  | cons c text ih =>
    by_cases newline : c = '\n'
    · subst newline
      rw [lines.go]
      rw [breaks_newline] at inside
      cases number with
      | zero => simp
      | succ number =>
        rw [List.getElem?_cons_succ, ih (by omega)]
        simp
    · rw [breaks_other newline] at inside
      rw [lines.go, ih inside]
      · cases number with
        | zero => simp [newline]
        | succ number => simp [newline]
      · exact newline

/-- A line that a newline ends is its row, without a carriage return. -/
theorem lines_getElem? {text : Text} {number : Nat} (inside : number < breaks text) :
    (lines text)[number]? = some (chomp (row number text)) := by
  rw [lines, lines_go_getElem? inside]
  cases number <;> rfl

/-- The line with a given number. -/
def line (text : Text) (number : Nat) : Text :=
  (lines text).getD number []

theorem line_eq {text : Text} {number : Nat} (inside : number < breaks text) :
    line text number = chomp (row number text) := by
  rw [line, List.getD_eq_getElem?_getD, lines_getElem? inside]
  rfl

end Text

namespace Directive

/-- A carriage return at the end changes nothing. -/
theorem balanceFrom_return (quote : Option Char) (text : Text) :
    balanceFrom quote (text ++ ['\r']) = balanceFrom quote text := by
  have head {c : Char} {rest : Text} : (c = '/' ∧ (rest ++ ['\r']).head? = some '/') ↔
      (c = '/' ∧ rest.head? = some '/') := by
    cases rest <;> simp
  fun_induction balanceFrom quote text with
  | case1 quote => cases quote <;> rfl
  | case2 quote c =>
    rw [List.singleton_append, balanceFrom_quoted]
    split
    · exact balanceFrom_nil _
    · split <;> rfl
  | case3 quote c d rest escape ih =>
    rw [List.cons_append, balanceFrom_quoted, if_pos escape]
    exact ih
  | case4 quote d rest escape ih =>
    rw [List.cons_append, balanceFrom_quoted, if_neg escape, if_pos rfl]
    exact ih
  | case5 quote c d rest escape closing ih =>
    rw [List.cons_append, balanceFrom_quoted, if_neg escape, if_neg closing]
    exact ih
  | case6 c rest opens ih =>
    rw [List.cons_append, balanceFrom, if_pos opens]
    exact ih
  | case7 c rest opens comment =>
    rw [List.cons_append, balanceFrom, if_neg opens, if_pos (head.2 comment)]
  | case8 rest opens comment ih =>
    rw [List.cons_append, balanceFrom_opening, ih]
  | case9 rest opens comment _ ih =>
    rw [List.cons_append, balanceFrom_closing, ih]
  | case10 c rest opens comment up down ih =>
    rw [List.cons_append, balanceFrom, if_neg opens, if_neg (fun both => comment (head.1 both)),
      if_neg up, if_neg down, ih]

theorem braceBalance_chomp (line : Text) : braceBalance (Text.chomp line) = braceBalance line := by
  unfold Text.chomp
  split
  next rest turned =>
    have whole : line = rest.reverse ++ ['\r'] := by
      rw [← List.reverse_reverse line, turned, List.reverse_cons]
    rw [whole]
    exact (balanceFrom_return none rest.reverse).symm
  next => rfl

end Directive

/-! ### Leaves on a row -/

/-- Whether a leaf is read alike with and without the rows around it: no block comment, and no token
of several rows. -/
def Go.Tree.isRowwise : Tree → Bool
  | .leaf .comment text => "//".toList.isPrefixOf text
  | .leaf .token text => !text.contains '\n'
  | _ => true

/-- The braces among trees that start on a row. -/
def bracesOn (row : Nat) (items : List Located) : Int :=
  ((items.filter fun item => item.start.row == row).map fun item => item.tree.brace).sum

/-- No block comment and no token of several rows reaches into the row. -/
def PlainRow (trees : List Tree) (row : Nat) : Prop :=
  ∀ leaf ∈ Located.sideBySide {} (Tree.leavesOfAll trees),
    leaf.start.row ≤ row → row ≤ leaf.stop.row → leaf.tree.isRowwise

section Leaves

open Directive Go

theorem ordinary_of_isGap {text : Text} (gap : ∀ c ∈ text, isGap c) :
    ∀ c ∈ text, Lexeme.isOrdinary c :=
  fun c inside => Lexeme.isOrdinary_of (by decide) (gap c inside)

/-- Behind a line comment the row ends. -/
theorem comment?_line {text after : Text}
    (read : Lexeme.comment? (text ++ after) = some (text, after))
    (line : "//".toList.isPrefixOf text) :
    Text.breaks text = 0 ∧ Text.row 0 after = [] ∧ ∃ more, text = '/' :: '/' :: more := by
  obtain ⟨more, rfl⟩ := List.isPrefixOf_iff_prefix.1 line
  have parts : ('/' :: '/' :: (more ++ after).takeWhile (· != '\n'),
      (more ++ after).dropWhile (· != '\n')) = ('/' :: '/' :: more, after) := Option.some.inj read
  obtain ⟨taken, left⟩ := Prod.mk.inj parts
  have inner : (more ++ after).takeWhile (· != '\n') = more := by simpa using taken
  refine ⟨?_, ?_, more, rfl⟩
  · change Text.breaks ('/' :: '/' :: more) = 0
    rw [Text.breaks_other (by decide), Text.breaks_other (by decide), ← inner, Text.breaks,
      List.countP_eq_zero]
    intro c inside
    simpa [bne] using List.all_eq_true.1 List.all_takeWhile c inside
  · rw [Text.row_zero, ← left]
    have stopped := List.head?_dropWhile_not (· != '\n') (more ++ after)
    cases behind : (more ++ after).dropWhile (· != '\n') with
    | nil => rfl
    | cons c rest =>
      rw [behind] at stopped
      exact List.takeWhile_cons_of_neg (by simpa using stopped)

/-- A leaf is counted as the grammar reads it, where what is behind it is cut at the newline. -/
theorem balanceFrom_leaf {leaf : Tree} {after : Text}
    (fits : LeafFits (fun symbol => symbol.isPlain) leaf after) (rowwise : leaf.isRowwise) :
    balanceFrom none (leaf.text ++ Text.row 0 after) =
      leaf.brace + balanceFrom none (Text.row 0 after) := by
  cases fits with
  | @blank text _ gap =>
    have ordinary := ordinary_of_isGap gap
    rw [Tree.text, balanceFrom_ordinary ordinary, Tree.brace_of_ordinary ordinary, Int.zero_add]
  | @comment text _ read =>
    obtain ⟨_, nothing, more, rfl⟩ := comment?_line read rowwise
    rw [nothing, List.append_nil, balanceFrom_nil]
    rfl
  | @token symbol here text _ held code read =>
    rw [Tree.text]
    refine Token.balanceFrom_token held code read fun slash => ?_
    rw [Text.row_zero] at slash
    cases after with
    | nil => cases slash
    | cons c rest =>
      rw [List.takeWhile_cons] at slash
      split at slash
      · exact slash
      · cases slash

/-- A leaf with a newline in it is white space or a terminator, unless it reaches over rows. -/
theorem ordinary_of_breaks {leaf : Tree} {after : Text}
    (fits : LeafFits (fun symbol => symbol.isPlain) leaf after) (rowwise : leaf.isRowwise)
    (several : Text.breaks leaf.text ≠ 0) : ∀ c ∈ leaf.text, Lexeme.isOrdinary c := by
  cases fits with
  | blank gap => exact ordinary_of_isGap gap
  | comment read => exact absurd (comment?_line read rowwise).1 several
  | @token symbol here text _ held code read =>
    by_cases ends : symbol = .terminator
    · subst ends
      exact Token.read?_terminator read
    · have kind : symbol.leafKind = .token := by cases symbol <;> first | rfl | exact absurd rfl ends
      rw [kind] at rowwise several
      refine absurd (List.countP_eq_zero.2 fun c inside newline => ?_) several
      cases eq_of_beq newline
      simp only [Tree.isRowwise, Bool.not_eq_true', List.contains_eq_mem, decide_eq_false_iff_not]
        at rowwise
      exact rowwise inside

theorem bracesOn_cons (row : Nat) (item : Located) (items : List Located) :
    bracesOn row (item :: items) =
      (if item.start.row = row then item.tree.brace else 0) + bracesOn row items := by
  rw [bracesOn, List.filter_cons]
  by_cases here : item.start.row = row
  · simp [here, bracesOn]
  · simp [here, bracesOn]

theorem bracesOn_elsewhere {row : Nat} {items : List Located}
    (elsewhere : ∀ item ∈ items, item.start.row ≠ row) : bracesOn row items = 0 := by
  have nothing : items.filter (fun item => item.start.row == row) = [] := by
    rw [List.filter_eq_nil_iff]
    intro item inside
    rw [beq_iff_eq]
    exact elsewhere item inside
  rw [bracesOn, nothing]
  rfl

theorem row_le_of_mem_sideBySide {place : Place} {trees : List Tree} {item : Located}
    (inside : item ∈ Located.sideBySide place trees) : place.row ≤ item.start.row := by
  obtain ⟨front, _, _, start, _⟩ := Located.mem_sideBySide inside
  rw [start, Place.after]
  exact Nat.le_add_right _ _

/-- Leaf by leaf, the count of a row is that of its braces. -/
theorem balanceFrom_row {leaves : List Tree} (fits : Fits (fun symbol => symbol.isPlain) leaves [])
    {place : Place} {row : Nat} (below : place.row ≤ row)
    (plain : ∀ leaf ∈ Located.sideBySide place leaves,
      leaf.start.row ≤ row → row ≤ leaf.stop.row → leaf.tree.isRowwise) :
    balanceFrom none (Text.row (row - place.row) (Tree.textOfAll leaves)) =
      bracesOn row (Located.sideBySide place leaves) := by
  induction leaves generalizing place with
  | nil =>
    rw [Tree.textOfAll, Text.row_nil]
    rfl
  | cons leaf rest ih =>
    obtain ⟨own, others⟩ := fits
    rw [List.append_nil] at own
    have later : (place.after leaf.text).row = place.row + Text.breaks leaf.text := rfl
    have restPlain := fun other inside => plain other (List.mem_cons_of_mem _ inside)
    have first : row ≤ place.row + Text.breaks leaf.text → leaf.isRowwise :=
      plain ⟨leaf, place, place.after leaf.text⟩ List.mem_cons_self below
    rw [Tree.textOfAll, Located.sideBySide, bracesOn_cons]
    by_cases behind : place.row + Text.breaks leaf.text < row
    · -- The row is among the other leaves.
      have number : row - place.row =
          Text.breaks leaf.text + (row - (place.row + Text.breaks leaf.text) - 1 + 1) := by omega
      have found := ih others (Nat.le_of_lt (later ▸ behind)) restPlain
      have elsewhere : ¬ place.row = row := by omega
      rw [later] at found
      rw [number, Text.row_append_behind, if_neg elsewhere, Int.zero_add, ← found]
      congr 2
      omega
    · have rowwise := first (by omega)
      by_cases single : Text.breaks leaf.text = 0
      · -- The leaf is on the row, and the rest of the row behind it.
        have here : place.row = row := by omega
        have found := ih others (Nat.le_of_eq (by rw [later]; omega)) restPlain
        have zero : row - place.row = Text.breaks leaf.text := by omega
        rw [show row - (place.after leaf.text).row = 0 by omega] at found
        rw [zero, Text.row_append_last, single, Text.row_of_breaks_eq_zero single,
          balanceFrom_leaf own rowwise, found, if_pos here]
      · -- The leaf is white space that reaches over the start or the end of the row.
        have ordinary := ordinary_of_breaks own rowwise single
        have level : leaf.brace = 0 := by
          cases leaf with
          | leaf kind text => exact Tree.brace_of_ordinary ordinary
          | node => rfl
        have blank (number : Nat) (tail : Text) :
            balanceFrom none (Text.row number leaf.text ++ tail) = balanceFrom none tail :=
          balanceFrom_ordinary (fun c held => ordinary c (Text.mem_of_mem_row held)) tail
        rw [level, ite_self, Int.zero_add]
        by_cases last : row = place.row + Text.breaks leaf.text
        · have found := ih others (Nat.le_of_eq (by rw [later, last])) restPlain
          rw [show row - (place.after leaf.text).row = 0 by omega] at found
          rw [show row - place.row = Text.breaks leaf.text by omega, Text.row_append_last, blank, found]
        · rw [Text.row_append_inside (by omega), bracesOn_elsewhere]
          · have nothing := blank (row - place.row) []
            rwa [List.append_nil, balanceFrom_nil] at nothing
          · intro item inside
            have start := row_le_of_mem_sideBySide inside
            omega

end Leaves

/-- The count that is made of the line on a row is that of the braces on the row. -/
def CountedRow (source : Text) (trees : List Tree) (row : Nat) : Prop :=
  Directive.braceBalance (Text.line source row) =
    bracesOn row (Located.sideBySide {} (Tree.leavesOfAll trees))

instance (source : Text) (trees : List Tree) (row : Nat) : Decidable (CountedRow source trees row) :=
  inferInstanceAs (Decidable (_ = _))

theorem countedRow_of_plainRow {source : Text} {trees : List Tree}
    (parsed : Go.parse? source = some trees) {row : Nat} (ended : row < Text.breaks source)
    (plain : PlainRow trees row) : CountedRow source trees row := by
  have counted := @balanceFrom_row _ (Go.parse?_fits parsed) {} row (Nat.zero_le _) plain
  rw [Tree.textOfAll_leavesOfAll, Go.parse?_spelled parsed] at counted
  rw [CountedRow, Text.line_eq ended, Directive.braceBalance_chomp]
  exact counted

end GoGraft
