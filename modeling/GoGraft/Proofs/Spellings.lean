import GoGraft.Proofs.BraceDepth
import GoGraft.Proofs.Readings
import Mathlib.Data.List.Infix

/-! What readings are spelled like. A reading ends in a newline only where a terminator or a statement
does. Where a text holds no comments and no literals, there is only white space between the tokens, and
square brackets match. -/

namespace GoGraft.Go

open Grammar (skipsNewlines)

/-! ### Newlines at the end -/

/-- Whether a text ends in a character other than a newline, if it is not empty. -/
def Closed (text : Text) : Prop :=
  text.getLast? ≠ some '\n'

instance (text : Text) : Decidable (Closed text) :=
  inferInstanceAs (Decidable (text.getLast? ≠ some '\n'))

theorem Closed.append {first second : Text} (left : second = [] → Closed first) (right : Closed second) :
    Closed (first ++ second) := by
  intro last
  cases second with
  | nil =>
    rw [List.append_nil] at last
    exact left rfl last
  | cons c second =>
    rw [List.getLast?_append_of_ne_nil _ (List.cons_ne_nil c second)] at last
    exact right last

theorem closed_of_upTo {text rest : Text} {quote : Char} (other : quote ≠ '\n')
    (inside : quote :: rest <:+ text) : Closed (Lexeme.upTo text rest).1 := by
  obtain ⟨front, rfl⟩ := inside
  have whole := Lexeme.upTo_append ((List.suffix_cons quote rest).trans (List.suffix_append front _))
  have parts : (Lexeme.upTo (front ++ quote :: rest) rest).1 = front ++ [quote] := by
    refine List.append_cancel_right (whole.trans ?_)
    simp [Lexeme.upTo]
  rw [parts]
  intro last
  rw [List.getLast?_append_of_ne_nil _ (List.cons_ne_nil _ _)] at last
  exact other (Option.some.inj last)

theorem suffix_of_afterInterpreted {fuel : Nat} {text rest : Text}
    (read : Lexeme.afterInterpreted fuel text = some rest) : '\x22' :: rest <:+ text := by
  induction fuel generalizing text with
  | zero => cases read
  | succ fuel ih =>
    cases text with
    | nil => cases read
    | cons c text =>
      rw [Lexeme.afterInterpreted] at read
      split at read
      next quote =>
        cases read
        rw [eq_of_beq quote]
      next =>
        split at read
        next => cases read
        next =>
          refine List.IsSuffix.trans ?_ (List.suffix_cons c text)
          split at read
          next =>
            obtain ⟨left, escape, inner⟩ := Option.bind_eq_some_iff.1 read
            exact (ih inner).trans (Lexeme.afterEscape_suffix escape)
          next => exact ih read

theorem closed_of_string? {text found rest : Text}
    (read : Lexeme.string? text = some (found, rest)) : Closed found := by
  rw [Lexeme.string?] at read
  cases raw : Lexeme.rawString? text with
  | some literal =>
    rw [raw] at read
    cases read
    unfold Lexeme.rawString? at raw
    split at raw
    next =>
      split at raw
      next =>
        cases raw
        exact Closed.append (absurd · (List.cons_ne_nil _ _)) (by decide)
      next => cases raw
    next => cases raw
  | none =>
    rw [raw] at read
    change Lexeme.interpretedString? text = _ at read
    unfold Lexeme.interpretedString? at read
    split at read
    next rest =>
      obtain ⟨left, closing, same⟩ := Option.map_eq_some_iff.1 read
      cases same
      refine closed_of_upTo (by decide) ((suffix_of_afterInterpreted closing).trans ?_)
      exact List.suffix_cons _ _
    next => cases read

theorem closed_of_rune? {text found rest : Text} (read : Lexeme.rune? text = some (found, rest)) :
    Closed found := by
  unfold Lexeme.rune? at read
  split at read
  next text =>
    dsimp only at read
    split at read
    next left inner =>
      cases read
      refine @closed_of_upTo _ _ '\x27' (by decide) (List.IsSuffix.trans ?_ (List.suffix_cons _ _))
      split at inner
      next escape => exact (Lexeme.afterRuneEscape_suffix inner).trans (List.suffix_cons _ _)
      next =>
        split at inner
        next => cases inner
        next =>
          cases inner
          exact List.suffix_cons _ _
      next => cases inner
    next => cases read
  next => cases read

/-! ### Tokens -/

/-- The characters with which literals start. -/
def quotes : List Char :=
  "\x22\x27\x60".toList

namespace Token

/-- What a token can be spelled like. -/
def Spells (found : Text) : Token → Prop
  | mark spelling _ => found = spelling
  | word spelling => found = spelling
  | string => (∃ c ∈ quotes, found.head? = some c) ∧ Closed found
  | rune => (∃ c ∈ quotes, found.head? = some c) ∧ Closed found
  | terminator => ∀ c ∈ found, c ∉ "[]".toList
  | _ => ∀ c ∈ found, c ∉ "[]\n".toList

theorem spells_of_identifier? {text found rest : Text}
    (read : Lexeme.identifier? text = some (found, rest)) : ∀ c ∈ found, c ∉ "[]\n".toList := by
  obtain ⟨c, more, rfl, starts, continues, _⟩ := Lexeme.identifier?_parts read
  refine List.forall_mem_cons.2 ⟨Lexeme.not_mem_of (by decide) starts, fun d inside => ?_⟩
  exact Lexeme.not_mem_of (by decide) (continues d inside)

theorem spells_of_firstOf {spellings : List Text}
    (none : spellings.all (·.all (!"[]\n".toList.contains ·))) {text found rest : Text}
    (read : firstOf spellings text = some (found, rest)) : ∀ c ∈ found, c ∉ "[]\n".toList := by
  obtain ⟨spelling, among, offered⟩ := List.exists_of_findSome?_eq_some read
  obtain ⟨left, -, same⟩ := Option.map_eq_some_iff.1 offered
  cases same
  intro c inside
  have other := List.all_eq_true.1 (List.all_eq_true.1 none found among) c inside
  simpa using other

theorem spells_of_read? {symbol : Token} {here : Accepts} {text found rest : Text}
    (read : symbol.read? here text = some (found, rest)) : symbol.Spells found := by
  have quoted (starts : ∀ c, symbol.starts c → c ∈ quotes) (consumes : symbol.consumes) :
      ∃ c ∈ quotes, found.head? = some c := by
    have shorter := read?_shorter consumes read
    cases found with
    | nil =>
      rw [← read?_append read] at shorter
      exact absurd shorter (Nat.lt_irrefl _)
    | cons c found =>
      rw [← read?_append read] at read
      exact ⟨c, starts c (starts_of_read? read), rfl⟩
  cases symbol with
  | mark spelling notBefore =>
    simp only [read?] at read
    split at read
    next =>
      split at read
      next => cases read
      next => cases read; exact rfl
    next => cases read
  | word spelling =>
    simp only [read?] at read
    split at read
    next =>
      split at read
      next same => cases read; exact eq_of_beq same
      next => cases read
    next => cases read
  | name reserved =>
    simp only [read?] at read
    split at read
    next identifier =>
      split at read
      next => cases read
      next => cases read; exact spells_of_identifier? identifier
    next => cases read
  | number =>
    intro c inside
    exact Lexeme.not_mem_of (by decide) (Lexeme.number?_numeral read c inside)
  | string =>
    refine ⟨quoted (fun c opens => ?_) rfl, closed_of_string? read⟩
    rcases Bool.or_eq_true_iff.1 opens with same | same <;> rw [eq_of_beq same] <;> decide
  | rune =>
    refine ⟨quoted (fun c opens => ?_) rfl, closed_of_rune? read⟩
    rw [eq_of_beq opens]
    decide
  | operator =>
    simp only [read?] at read
    split at read
    next first =>
      split at read
      next => cases read
      next => cases read; exact spells_of_firstOf (by decide) first
    next => cases read
  | assignment => exact spells_of_firstOf (by decide) read
  | terminator =>
    simp only [read?] at read
    split at read
    next => cases read; exact List.forall_mem_nil _
    next c _ =>
      split at read
      next ends =>
        cases read
        refine List.forall_mem_singleton.2 ?_
        exact @Lexeme.not_mem_of (fun c => c == '\n' || c == ';' || c == '\x00') _ (by decide) c ends
      next => cases read
  | ending =>
    simp only [read?] at read
    split at read
    next => cases read; exact List.forall_mem_nil _
    next => cases read

end Token

/-- Whether what a token takes is not empty and does not end in a newline. -/
def Token.closes : Token → Bool
  | mark spelling _ => spelling.getLast?.any (· != '\n')
  | word spelling => spelling.getLast?.any (· != '\n')
  | terminator => false
  | ending => false
  | _ => true

theorem Token.Spells.closed {symbol : Token} {found : Text} (spells : symbol.Spells found)
    (closes : symbol.closes) : Closed found := by
  have known {spelling : Text} (last : spelling.getLast?.any (· != '\n')) : Closed spelling := by
    intro newline
    rw [newline] at last
    cases last
  cases symbol with
  | mark => cases spells; exact known closes
  | word => cases spells; exact known closes
  | string => exact spells.2
  | rune => exact spells.2
  | terminator => cases closes
  | ending => cases closes
  | _ =>
    intro last
    exact spells '\n' (List.mem_of_getLast? last) (by decide)

theorem Token.consumes_of_closes {symbol : Token} (closes : symbol.closes) : symbol.consumes := by
  cases symbol with
  | mark spelling =>
    cases spelling with
    | nil => cases closes
    | cons => rfl
  | terminator => cases closes
  | ending => cases closes
  | _ => rfl

namespace Rule

variable {Name : Type} {rules : Name → Rule Name}

/-- Whether a rule never ends in a newline, given the named rules that do not. -/
def closes (closing : Name → Bool) : Rule Name → Bool
  | empty => true
  | token symbol => symbol.closes
  | seq one two => two.closes closing && (two.consumes || one.closes closing)
  | alt one two => one.closes closing && two.closes closing
  | commit one two three =>
    two.closes closing && (two.consumes || one.closes closing) && three.closes closing
  | opt rule => rule.closes closing
  | many rule => rule.closes closing
  | tail rule => rule.closes closing
  | ref name => closing name
  | node _ rule => rule.closes closing
  | ahead _ => true
  | notAhead _ => true
  | within _ rule => rule.closes closing
  | expecting _ rule => rule.closes closing
  | across rule => rule.closes closing
  | unlessBody rule => rule.closes closing
  | whereBody rule => rule.closes closing
  | unlessGuard rule => rule.closes closing

theorem Reads.closed {closing : Name → Bool} (consumes : ∀ name, (rules name).consumes)
    (named : ∀ name, closing name → (rules name).closes closing)
    {rule : Rule Name} {here : Accepts} {text rest : Text} {trees : List Tree}
    (reads : Reads rules rule here text trees rest)
    (closes : rule.closes closing) : Closed (Tree.textOfAll trees) := by
  have both {one two : Rule Name} {other : Accepts} {middle rest : Text} {first second : List Tree}
      (made : Reads rules two other middle second rest)
      (left : one.closes closing → Closed (Tree.textOfAll first))
      (right : two.closes closing → Closed (Tree.textOfAll second))
      (closes : two.closes closing && (two.consumes || one.closes closing)) :
      Closed (Tree.textOfAll (first ++ second)) := by
    obtain ⟨last, front⟩ := Bool.and_eq_true_iff.1 closes
    rw [Tree.textOfAll_append]
    refine Closed.append (fun none => ?_) (right last)
    rcases Bool.or_eq_true_iff.1 front with takes | closes
    · have shorter := made.shorter consumes takes
      rw [← made.spelled, none] at shorter
      exact absurd shorter (Nat.lt_irrefl _)
    · exact left closes
  induction reads with
  | empty => exact nofun
  | @token symbol here text found rest read =>
    rw [Tree.textOfAll_append]
    simp only [Tree.textOfAll, Tree.text, List.append_nil]
    refine Closed.append (fun none => ?_) ((Token.spells_of_read? read).closed closes)
    have shorter := Token.read?_shorter (Token.consumes_of_closes closes) read
    rw [← Token.read?_append read, none] at shorter
    exact absurd shorter (Nat.lt_irrefl _)
  | seq _ made left right => exact both made left right closes
  | altLeft _ ih => exact ih (Bool.and_eq_true_iff.1 closes).1
  | altRight _ ih => exact ih (Bool.and_eq_true_iff.1 closes).2
  | commitFirst _ made left right =>
    exact both made left right (Bool.and_eq_true_iff.1 closes).1
  | commitLast _ ih => exact ih (Bool.and_eq_true_iff.1 closes).2
  | optNone => exact nofun
  | manyNone => exact nofun
  | manySome _ _ _ left right =>
    rw [Tree.textOfAll_append]
    exact Closed.append (fun _ => left closes) (right closes)
  | @ref name _ _ _ _ _ ih => exact ih (named name closes)
  | node _ ih =>
    rw [Tree.textOfAll_wrap]
    exact ih closes
  | ahead => exact nofun
  | notAhead => exact nofun
  | _ _ ih => exact ih closes

end Rule

namespace Grammar

/-- The rules that never end in a newline: those that are no statements. -/
def closing (name : Name) : Bool :=
  !([Name.statement, .statements].contains name)

theorem rules_closing (name : Name) (closes : closing name) : (rules name).closes closing := by
  cases name <;> first | exact absurd closes (by decide) | decide

end Grammar

/-! ### Texts without comments and literals -/

def opensComment : Text → Bool
  | '/' :: '/' :: _ => true
  | '/' :: '*' :: _ => true
  | _ => false

/-- Whether a text holds no comment and no literal. -/
def isBare (text : Text) : Bool :=
  text.all (!quotes.contains ·) && text.tails.all (!opensComment ·)

theorem isBare_iff {text : Text} :
    isBare text ↔ (∀ c ∈ text, c ∉ quotes) ∧ ∀ suffix, suffix <:+ text → opensComment suffix = false := by
  simp [isBare, List.mem_tails]

theorem opensComment_append {front : Text} (opens : opensComment front) (back : Text) :
    opensComment (front ++ back) := by
  unfold opensComment at opens
  split at opens
  · rfl
  · rfl
  · cases opens

theorem isBare_append {first second : Text} (bare : isBare (first ++ second)) :
    isBare first ∧ isBare second := by
  obtain ⟨plain, code⟩ := isBare_iff.1 bare
  obtain ⟨left, right⟩ := List.forall_mem_append.1 plain
  refine ⟨isBare_iff.2 ⟨left, ?_⟩, isBare_iff.2 ⟨right, ?_⟩⟩
  · rintro suffix ⟨front, rfl⟩
    have whole := code (suffix ++ second) ⟨front, by simp⟩
    rw [Bool.eq_false_iff] at whole ⊢
    exact fun opens => whole (opensComment_append opens second)
  · intro suffix tail
    exact code suffix (tail.trans (List.suffix_append first second))

theorem opensComment_of_comment? {text taken rest : Text}
    (read : Lexeme.comment? text = some (taken, rest)) : opensComment taken := by
  unfold Lexeme.comment? at read
  split at read
  · cases read
    rfl
  · obtain ⟨inner, -, same⟩ := Option.map_eq_some_iff.1 read
    cases same
    rfl
  · cases read

/-- Without comments, only white space is passed over. -/
theorem gap_of_isBare {newlines : Bool} {text : Text}
    (bare : isBare (Tree.textOfAll (gap newlines text))) :
    Tree.textOfAll (gap newlines text) = text.takeWhile (isBlank newlines) ∧
      pass newlines text = text.dropWhile (isBlank newlines) := by
  have whole := trivia_eq newlines text
  dsimp only at whole
  split at whole
  next comment left read =>
    obtain ⟨gaps, -⟩ := Prod.mk.inj whole
    have held : isBare comment := by
      rw [gaps] at bare
      split at bare
      · exact (isBare_append bare).1
      · exact (isBare_append (isBare_append bare).2).1
    have opens := (isBare_iff.1 held).2 comment (List.suffix_refl comment)
    rw [opensComment_of_comment? read] at opens
    cases opens
  next =>
    obtain ⟨gaps, passed⟩ := Prod.mk.inj whole
    refine ⟨?_, passed⟩
    rw [gaps]
    split
    next none => exact (List.isEmpty_iff.1 none).symm
    next => exact List.append_nil _

theorem pass_of_isBare {text : Text} (bare : isBare text) (newlines : Bool) :
    pass newlines text = text.dropWhile (isBlank newlines) := by
  rw [← textOfAll_gap newlines text] at bare
  exact (gap_of_isBare (isBare_append bare).1).2

/-- A character that can be no part of the opening of a comment, between two texts. -/
theorem opensComment_between {front : Text} {c : Char} (apart : c ∉ "/*".toList)
    (code : opensComment front = false) (back : Text) : opensComment (front ++ c :: back) = false := by
  have one : c ≠ '/' := fun same => apart (by simp [same])
  have two : c ≠ '*' := fun same => apart (by simp [same])
  cases front with
  | nil => simp [opensComment, one]
  | cons d front =>
    cases front with
    | nil => simp [opensComment, one, two]
    | cons e front =>
      unfold opensComment at code ⊢
      split
      next same => cases same; cases code
      next same => cases same; cases code
      next => rfl

theorem isBare_between {first second : Text} {c : Char} (apart : c ∉ "/*".toList) (bare : isBare first)
    (more : isBare (c :: second)) : isBare (first ++ c :: second) := by
  obtain ⟨plain, code⟩ := isBare_iff.1 bare
  obtain ⟨others, behind⟩ := isBare_iff.1 more
  refine isBare_iff.2 ⟨List.forall_mem_append.2 ⟨plain, others⟩, ?_⟩
  rintro suffix ⟨front, same⟩
  rcases List.append_eq_append_iff.1 same with ⟨tail, rfl, rfl⟩ | ⟨tail, rfl, parts⟩
  · exact opensComment_between apart (code tail (List.suffix_append front tail)) second
  · exact behind suffix ⟨tail, parts.symm⟩

theorem isBare_cons {c : Char} {text : Text} (plain : c ∉ '/' :: quotes) (bare : isBare text) :
    isBare (c :: text) := by
  obtain ⟨others, code⟩ := isBare_iff.1 bare
  obtain ⟨slash, quote⟩ := not_or.1 (mt List.mem_cons.2 plain)
  refine isBare_iff.2 ⟨List.forall_mem_cons.2 ⟨quote, others⟩, fun suffix tail => ?_⟩
  rcases List.suffix_cons_iff.1 tail with rfl | inside
  · simp [opensComment, slash]
  · exact code suffix inside

theorem isBare_of_all {text : Text} (plain : ∀ c ∈ text, c ∉ '/' :: quotes) : isBare text := by
  induction text with
  | nil => rfl
  | cons c text ih =>
    obtain ⟨first, others⟩ := List.forall_mem_cons.1 plain
    exact isBare_cons first (ih others)

theorem not_quoted_of_isBare {text : Text} (bare : isBare text) :
    ¬ ∃ c ∈ quotes, text.head? = some c := by
  rintro ⟨c, quote, first⟩
  exact (isBare_iff.1 bare).1 c (List.mem_of_head? first) quote

/-! ### Depth of square brackets -/

/-- The depth behind a character, unless it closes what is not open. -/
def bracketStep? (depth : Nat) (c : Char) : Option Nat :=
  if c == '[' then some (depth + 1)
  else if c == ']' then
    match depth with
    | 0 => none
    | depth + 1 => some depth
  else some depth

def bracketDepth? (depth : Nat) (text : Text) : Option Nat :=
  text.foldlM bracketStep? depth

theorem bracketDepth?_append (depth : Nat) (first second : Text) :
    bracketDepth? depth (first ++ second) =
      (bracketDepth? depth first).bind fun middle => bracketDepth? middle second :=
  List.foldlM_append

theorem bracketDepth?_flat {text : Text} (flat : ∀ c ∈ text, c ∉ "[]".toList) (depth : Nat) :
    bracketDepth? depth text = some depth := by
  induction text with
  | nil => rfl
  | cons c text ih =>
    obtain ⟨first, others⟩ := List.forall_mem_cons.1 flat
    have step : bracketStep? depth c = some depth := by
      simp only [bracketStep?, beq_iff_eq]
      rw [if_neg (by rintro rfl; simp at first), if_neg (by rintro rfl; simp at first)]
    rw [bracketDepth?, List.foldlM_cons, step]
    exact ih others

theorem bracketDepth?_lift {text : Text} {start stop : Nat} (known : bracketDepth? start text = some stop)
    (more : Nat) : bracketDepth? (start + more) text = some (stop + more) := by
  induction text generalizing start with
  | nil => cases known; rfl
  | cons c text ih =>
    rw [bracketDepth?, List.foldlM_cons] at known ⊢
    obtain ⟨middle, first, second⟩ := Option.bind_eq_some_iff.1 known
    have step : bracketStep? (start + more) c = some (middle + more) := by
      unfold bracketStep? at first ⊢
      split at first
      next opens =>
        cases first
        rw [if_pos opens, Nat.add_right_comm]
      next other =>
        rw [if_neg other]
        split at first
        next closes =>
          rw [if_pos closes]
          cases start with
          | zero => cases first
          | succ start =>
            cases first
            rw [Nat.add_right_comm]
        next flat =>
          cases first
          rw [if_neg flat]
    rw [step]
    exact ih second

/-- Whether a text is a pair of brackets and what stands between them. -/
def isBracketed : Text → Bool
  | '[' :: rest => rest.getLast? == some ']' && bracketDepth? 0 rest.dropLast == some 0
  | _ => false

theorem isBracketed_iff {text : Text} :
    isBracketed text ↔ ∃ inner, text = '[' :: (inner ++ [']']) ∧ bracketDepth? 0 inner = some 0 := by
  constructor
  · intro held
    unfold isBracketed at held
    split at held
    next rest =>
      obtain ⟨last, level⟩ := Bool.and_eq_true_iff.1 held
      refine ⟨rest.dropLast, ?_, eq_of_beq level⟩
      rw [List.dropLast_append_getLast? _ (eq_of_beq last)]
    next => cases held
  · rintro ⟨inner, rfl, level⟩
    simp [isBracketed, level]

/-- With more behind the brackets, a text is not bracketed. -/
theorem isBracketed_more {inner more : Text} (level : bracketDepth? 0 inner = some 0) (filled : more ≠ []) :
    isBracketed ('[' :: (inner ++ ']' :: more)) = false := by
  rw [Bool.eq_false_iff]
  intro held
  obtain ⟨other, same, closed⟩ := isBracketed_iff.1 held
  -- The other reading has the first closing bracket inside.
  obtain ⟨front, last, rfl⟩ : ∃ front last, more = front ++ [last] :=
    ⟨_, _, (List.dropLast_append_getLast filled).symm⟩
  have parts : (inner ++ ']' :: front) ++ [last] = other ++ [']'] := by
    simpa using (List.cons.inj same).2
  obtain ⟨rfl, -⟩ := List.append_inj' parts rfl
  rw [bracketDepth?_append, level] at closed
  cases closed

theorem bracketDepth?_gap {newlines : Bool} {text : Text}
    (bare : isBare (Tree.textOfAll (gap newlines text))) (depth : Nat) :
    bracketDepth? depth (Tree.textOfAll (gap newlines text)) = some depth := by
  rw [(gap_of_isBare bare).1]
  refine bracketDepth?_flat (fun c inside => ?_) depth
  have space := List.all_eq_true.1 List.all_takeWhile c inside
  exact Lexeme.not_mem_of (by cases newlines <;> decide) space

namespace Token

def bracketsAfter? (depth : Nat) : Token → Option Nat
  | mark spelling _ => bracketDepth? depth spelling
  | word spelling => bracketDepth? depth spelling
  | _ => some depth

theorem Spells.brackets {symbol : Token} {found : Text} (spells : symbol.Spells found)
    (bare : isBare found) {start stop : Nat} (known : symbol.bracketsAfter? start = some stop) :
    bracketDepth? start found = some stop := by
  cases symbol with
  | mark => cases spells; exact known
  | word => cases spells; exact known
  | string => exact absurd spells.1 (not_quoted_of_isBare bare)
  | rune => exact absurd spells.1 (not_quoted_of_isBare bare)
  | terminator => cases known; exact bracketDepth?_flat spells start
  | _ =>
    cases known
    refine bracketDepth?_flat (fun c inside bracket => spells c inside ?_) start
    exact List.mem_append_left ['\n'] bracket

end Token

namespace Rule

variable {Name : Type} {rules : Name → Rule Name}

/-- In a reading without comments and literals the brackets are those of the rule. -/
theorem Reads.brackets (level : ∀ name, (rules name).depthAfter? Token.bracketsAfter? 0 = some 0)
    {rule : Rule Name} {here : Accepts} {text rest : Text} {trees : List Tree}
    (reads : Reads rules rule here text trees rest) (bare : isBare (Tree.textOfAll trees))
    {start stop : Nat} (known : rule.depthAfter? Token.bracketsAfter? start = some stop) :
    bracketDepth? start (Tree.textOfAll trees) = some stop := by
  have both {first second : List Tree} {start stop : Nat} {one two : Rule Name}
      (left : isBare (Tree.textOfAll first) → ∀ {start stop : Nat},
        one.depthAfter? Token.bracketsAfter? start = some stop →
          bracketDepth? start (Tree.textOfAll first) = some stop)
      (right : isBare (Tree.textOfAll second) → ∀ {start stop : Nat},
        two.depthAfter? Token.bracketsAfter? start = some stop →
          bracketDepth? start (Tree.textOfAll second) = some stop)
      (bare : isBare (Tree.textOfAll (first ++ second)))
      (known : ((one.depthAfter? Token.bracketsAfter? start).bind fun middle =>
        two.depthAfter? Token.bracketsAfter? middle) = some stop) :
      bracketDepth? start (Tree.textOfAll (first ++ second)) = some stop := by
    obtain ⟨middle, before, behind⟩ := Option.bind_eq_some_iff.1 known
    rw [Tree.textOfAll_append] at bare ⊢
    obtain ⟨front, back⟩ := isBare_append bare
    rw [bracketDepth?_append, left front before]
    exact right back behind
  induction reads generalizing start stop with
  | empty => cases known; rfl
  | @token symbol here text found rest read =>
    rw [Tree.textOfAll_append] at bare ⊢
    obtain ⟨front, back⟩ := isBare_append bare
    rw [bracketDepth?_append, bracketDepth?_gap front]
    simp only [Tree.textOfAll, Tree.text, List.append_nil] at back ⊢
    exact (Token.spells_of_read? read).brackets back known
  | seq _ _ left right => exact both left right bare known
  | altLeft _ ih => exact ih bare (both_eq_some known).1
  | altRight _ ih => exact ih bare (both_eq_some known).2
  | commitFirst _ _ left right => exact both left right bare (both_eq_some known).1
  | commitLast _ ih => exact ih bare (both_eq_some known).2
  | optNone => cases (both_eq_some known).1; rfl
  | optSome _ ih => exact ih bare (both_eq_some known).2
  | manyNone => cases (both_eq_some known).1; rfl
  | manySome _ _ _ left right =>
    obtain ⟨same, first⟩ := both_eq_some known
    cases same
    exact both left right bare (Option.bind_eq_some_iff.2 ⟨start, first, known⟩)
  | ref _ ih =>
    cases known
    have lifted := bracketDepth?_lift (ih bare (level _)) start
    rwa [Nat.zero_add] at lifted
  | node _ ih =>
    rw [Tree.textOfAll_wrap] at bare ⊢
    exact ih bare known
  | ahead => cases known; rfl
  | notAhead => cases known; rfl
  | _ _ ih => exact ih bare known

end Rule

theorem Grammar.rules_bracketed (name : Grammar.Name) :
    (Grammar.rules name).depthAfter? Token.bracketsAfter? 0 = some 0 := by
  cases name <;> decide +kernel

section Brackets

open Rule Grammar

variable {here : Accepts} {text rest : Text} {trees : List Tree} {middle : List (Rule Name)}
  (level : ∀ rule ∈ middle, rule.depthAfter? Token.bracketsAfter? 0 = some 0)
include level

/-- The brackets match up to the closing one behind the rules. -/
theorem reads_closing (reads : Reads rules (.sequence (middle ++ [mark "]"])) here text trees rest)
    (bare : isBare (Tree.textOfAll trees)) :
    ∃ inner, Tree.textOfAll trees = inner ++ [']'] ∧ bracketDepth? 0 inner = some 0 := by
  induction middle generalizing here text trees with
  | nil =>
    obtain ⟨newlines, rfl, -⟩ := reads_mark reads
    rw [Tree.textOfAll_append] at bare ⊢
    exact ⟨_, rfl, bracketDepth?_gap (isBare_append bare).1 0⟩
  | cons rule middle ih =>
    obtain ⟨own, others⟩ := List.forall_mem_cons.1 level
    have parts : Reads rules (seq rule (.sequence (middle ++ [mark "]"]))) here text trees rest := by
      cases middle <;> exact reads
    obtain ⟨front, between, back, after, first, second, rfl⟩ := parts.parts
    rw [Tree.textOfAll_append] at bare ⊢
    obtain ⟨left, right⟩ := isBare_append bare
    obtain ⟨inner, same, depth⟩ := ih others second right
    refine ⟨Tree.textOfAll front ++ inner, by rw [same, List.append_assoc], ?_⟩
    rw [bracketDepth?_append, first.brackets rules_bracketed left own]
    exact depth

theorem reads_brackets
    (reads : Reads rules (seq (mark "[") (.sequence (middle ++ [mark "]"]))) here text trees rest)
    (bare : isBare (Tree.textOfAll trees)) :
    ∃ newlines inner, bracketDepth? 0 inner = some 0 ∧
      Tree.textOfAll trees = Tree.textOfAll (gap newlines text) ++ '[' :: (inner ++ [']']) := by
  obtain ⟨front, between, back, after, first, second, rfl⟩ := reads.parts
  obtain ⟨newlines, rfl, -⟩ := reads_mark first
  rw [Tree.textOfAll_append] at bare
  obtain ⟨inner, same, depth⟩ := reads_closing level second (isBare_append bare).2
  refine ⟨newlines, inner, depth, ?_⟩
  rw [Tree.textOfAll_append, Tree.textOfAll_append, same]
  simp [Tree.textOfAll, Tree.text]

end Brackets

end GoGraft.Go
