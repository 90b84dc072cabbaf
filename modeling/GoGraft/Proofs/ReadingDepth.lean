import GoGraft.Proofs.TreeShapes

/-! How deep a reading goes. A rule goes some way down before it must take a character, and the text
behind that character is shorter, so that the depth of a reading is bounded by the length of its
text. With more fuel than that a reading does not depend on its fuel: `reading` is the reading by a
rule of the grammar, and its equations speak of no fuel. -/

namespace GoGraft.Go

/-! ### Tokens that take something -/

namespace Lexeme

theorem shortest_le {ends : List (Option Text)} {text : Text} (held : some text ∈ ends) :
    ∃ rest, shortest ends = some rest ∧ rest.length ≤ text.length := by
  fun_induction shortest ends with
  | case1 => cases held
  | case2 ends ih => exact ih (by simpa using held)
  | case3 first ends other found shorter ih =>
    rcases List.mem_cons.1 held with same | later
    · cases same
      exact ⟨other, rfl, Nat.le_of_lt shorter⟩
    · obtain ⟨rest, same, bound⟩ := ih later
      cases found.symm.trans same
      exact ⟨other, rfl, bound⟩
  | case4 first ends other found longer ih =>
    rcases List.mem_cons.1 held with same | later
    · cases same
      exact ⟨text, rfl, Nat.le_refl _⟩
    · obtain ⟨rest, same, bound⟩ := ih later
      cases found.symm.trans same
      exact ⟨first, rfl, by omega⟩
  | case5 first ends none_left ih =>
    rcases List.mem_cons.1 held with same | later
    · cases same
      exact ⟨text, rfl, Nat.le_refl _⟩
    · obtain ⟨rest, same, _⟩ := ih later
      cases none_left.symm.trans same

theorem Skips.length_le {text rest : Text} (skips : Skips text rest) :
    rest.length ≤ text.length := by
  obtain ⟨taken, rfl, _⟩ := skips
  rw [List.length_append]
  exact Nat.le_add_left _ _

theorem fraction_length_le {text rest : Text} (read : (afterDigits Char.isDigit text).map
    (optionally (afterExponent ['e', 'E'])) = some rest) : rest.length ≤ text.length := by
  obtain ⟨middle, digits, rfl⟩ := Option.map_eq_some_iff.1 read
  refine Nat.le_trans ?_ (afterDigits_skips digits).length_le
  rw [optionally]
  cases exponent : afterExponent ['e', 'E'] middle with
  | none => exact Nat.le_refl _
  | some left => exact (afterExponent_skips (by decide) exponent).length_le

/-- The first character of a number is taken in each of the ways to read it. -/
theorem number?_shorter {text taken rest : Text} (read : number? text = some (taken, rest)) :
    rest.length < text.length := by
  cases text with
  | nil => cases read
  | cons c text =>
    rw [number?] at read
    split at read
    next starts =>
      obtain ⟨left, found, equal⟩ := Option.map_eq_some_iff.1 read
      cases equal
      by_cases digit : c.isDigit
      · have whole : some text ∈ integerEnds (c :: text) := by
          unfold integerEnds
          split
          next same => cases same; simp
          next same => cases same; simp [digit]
          next same => cases same
        have held := List.mem_append_left (floatEnds (c :: text)) whole
        obtain ⟨other, same, bound⟩ := shortest_le (List.mem_append_left
          ((afterDigits Char.isDigit (c :: text) :: _).map imaginaryEnd) held)
        cases found.symm.trans same
        exact Nat.lt_succ_of_le bound
      · obtain rfl : c = '.' := by simpa [digit] using starts
        have whole : integerEnds ('.' :: text) = [] := rfl
        have parts : floatEnds ('.' :: text) = [none, none,
            (afterDigits Char.isDigit text).map (optionally (afterExponent ['e', 'E']))] := rfl
        have digits : afterDigits Char.isDigit ('.' :: text) = none := rfl
        rw [whole, parts, digits] at found
        have held := shortest_mem found
        simp only [List.nil_append, List.cons_append, List.map_cons, List.map_nil, List.mem_cons,
          List.not_mem_nil, or_false, imaginaryEnd, reduceCtorEq, false_or] at held
        rcases held with read | read
        · exact Nat.lt_succ_of_le (fraction_length_le read.symm)
        · split at read
          next inner fraction =>
            cases read
            have bound := fraction_length_le fraction
            simp only [List.length_cons] at bound ⊢
            omega
          next => cases read
    next => cases read

theorem rune?_shorter {text taken rest : Text} (read : rune? text = some (taken, rest)) :
    rest.length < text.length := by
  cases text with
  | nil => cases read
  | cons c text =>
    by_cases quote : c = '\x27'
    · subst quote
      simp only [rune?] at read
      split at read
      next left inner =>
        cases read
        have inside : '\x27' :: rest <:+ text := by
          split at inner
          next escape => exact (afterRuneEscape_suffix inner).trans (List.suffix_cons _ _)
          next d more _ =>
            split at inner
            · cases inner
            · cases inner; exact List.suffix_cons _ _
          next => cases inner
        have bound := inside.length_le
        simp only [List.length_cons] at bound ⊢
        omega
      next => cases read
    · simp [rune?, quote] at read

theorem string?_shorter {text taken rest : Text} (read : string? text = some (taken, rest)) :
    rest.length < text.length := by
  rw [string?] at read
  cases raw : rawString? text with
  | some found =>
    have same : found = (taken, rest) := by simpa [raw] using read
    subst same
    revert raw
    fun_cases rawString? text with
    | case1 text c left found =>
      intro raw
      cases raw
      have bound := (List.dropWhile_sublist (· != '\x60') (l := text)).length_le
      rw [found] at bound
      simp only [List.length_cons] at bound ⊢
      omega
    | case2 => intro raw; cases raw
    | case3 => intro raw; cases raw
  | none =>
    have interpreted : interpretedString? text = some (taken, rest) := by simpa [raw] using read
    revert interpreted
    fun_cases interpretedString? text with
    | case1 text =>
      intro interpreted
      obtain ⟨left, found, same⟩ := Option.map_eq_some_iff.1 interpreted
      cases same
      exact Nat.lt_succ_of_le (afterInterpreted_suffix found).length_le
    | case2 => intro interpreted; cases interpreted

theorem identifier?_shorter {text taken rest : Text}
    (read : identifier? text = some (taken, rest)) : rest.length < text.length := by
  cases text with
  | nil => cases read
  | cons c text =>
    simp only [identifier?, List.span_eq_takeWhile_dropWhile] at read
    split at read
    · cases read
      exact Nat.lt_succ_of_le (List.dropWhile_sublist _).length_le
    · cases read

theorem comment?_shorter {text taken rest : Text} (read : comment? text = some (taken, rest)) :
    rest.length < text.length := by
  have whole := congrArg List.length (comment?_append read)
  rw [List.length_append] at whole
  revert read
  fun_cases comment? text with
  | case1 text =>
    intro read
    cases read
    simp only [List.length_cons] at whole ⊢
    omega
  | case2 text =>
    intro read
    obtain ⟨found, _, same⟩ := Option.map_eq_some_iff.1 read
    cases same
    simp only [List.length_cons] at whole ⊢
    omega
  | case3 => intro read; cases read

end Lexeme

namespace Token

/-- Whether a token takes at least one character. -/
def consumes : Token → Bool
  | mark spelling _ => !spelling.isEmpty
  | terminator => false
  | ending => false
  | _ => true

theorem firstOf_shorter {spellings : List Text} (filled : spellings.all (!·.isEmpty))
    {text taken rest : Text} (read : firstOf spellings text = some (taken, rest)) :
    rest.length < text.length := by
  obtain ⟨spelling, among, found⟩ := List.exists_of_findSome?_eq_some read
  obtain ⟨left, after, same⟩ := Option.map_eq_some_iff.1 found
  cases same
  rw [Text.after?_eq_some.1 after, List.length_append]
  have some_char := List.all_eq_true.1 filled _ among
  cases taken with
  | nil => cases some_char
  | cons c taken => simp

theorem read?_shorter {here : Accepts} {text taken rest : Text} {symbol : Token}
    (consumes : symbol.consumes) (read : symbol.read? here text = some (taken, rest)) :
    rest.length < text.length := by
  cases symbol with
  | mark spelling notBefore =>
    simp only [read?] at read
    split at read
    next left after =>
      split at read
      · cases read
      · cases read
        rw [Text.after?_eq_some.1 after, List.length_append]
        cases taken with
        | nil => cases consumes
        | cons c taken => simp
    next => cases read
  | word spelling =>
    simp only [read?] at read
    split at read
    next found left identifier =>
      split at read
      · cases read
        exact Lexeme.identifier?_shorter identifier
      · cases read
    next => cases read
  | name reserved =>
    simp only [read?] at read
    split at read
    next found left identifier =>
      split at read
      · cases read
      · cases read
        exact Lexeme.identifier?_shorter identifier
    next => cases read
  | number => exact Lexeme.number?_shorter read
  | string => exact Lexeme.string?_shorter read
  | rune => exact Lexeme.rune?_shorter read
  | operator =>
    simp only [read?] at read
    split at read
    next spelling left first =>
      split at read
      · cases read
      · cases read
        exact firstOf_shorter (by decide) first
    next => cases read
  | assignment => exact firstOf_shorter (by decide) read
  | terminator => cases consumes
  | ending => cases consumes

end Token

/-! ### Depth -/

theorem takeTrivia_of_le {newlines : Bool} {fuel more : Nat} {text : Text}
    (deep : text.length < fuel) (le : fuel ≤ more) :
    takeTrivia newlines more text = takeTrivia newlines fuel text := by
  induction fuel generalizing more text with
  | zero => cases deep
  | succ fuel ih =>
    obtain ⟨more, rfl⟩ := Nat.exists_eq_add_of_le' (Nat.one_le_of_lt le)
    simp only [takeTrivia]
    split
    next comment left read =>
      have shorter := Lexeme.comment?_shorter read
      have blanks (isBlank : Char → Bool) :
          (if (text.takeWhile isBlank).isEmpty then text else text.dropWhile isBlank).length ≤
            text.length := by
        split
        · exact Nat.le_refl _
        · exact (List.dropWhile_sublist _).length_le
      have bound := blanks fun c => Lexeme.isSpace c && (newlines || c != '\n')
      rw [ih (by omega) (by omega)]
    next => rfl

namespace Rule

variable {Name : Type}

/-- Whether a rule takes at least one character wherever it succeeds. All named rules do. -/
def consumes : Rule Name → Bool
  | empty => false
  | token symbol => symbol.consumes
  | seq one two => one.consumes || two.consumes
  | alt one two => one.consumes && two.consumes
  | commit one two three => (one.consumes || two.consumes) && three.consumes
  | opt _ => false
  | many _ => false
  | tail rule => rule.consumes
  | ref _ => true
  | node _ rule => rule.consumes
  | ahead _ => false
  | notAhead _ => false
  | within _ rule => rule.consumes
  | expecting _ rule => rule.consumes
  | across rule => rule.consumes
  | unlessBody rule => rule.consumes
  | whereBody rule => rule.consumes
  | unlessGuard rule => rule.consumes

/-- How deep a rule goes before it has taken a character. -/
def depth (named : Name → Nat) : Rule Name → Nat
  | empty => 1
  | token _ => 2
  | seq one two => max (one.depth named) (if one.consumes then 0 else two.depth named) + 1
  | alt one two => max (one.depth named) (two.depth named) + 1
  | commit one two three =>
    max (max (one.depth named) (if one.consumes then 0 else two.depth named))
      (three.depth named) + 1
  | opt rule => rule.depth named + 1
  | many rule => rule.depth named + 1
  | tail rule => rule.depth named + 1
  | ref name => named name + 1
  | node _ rule => rule.depth named + 1
  | ahead rule => rule.depth named + 1
  | notAhead rule => rule.depth named + 1
  | within _ rule => rule.depth named + 1
  | expecting _ rule => rule.depth named + 1
  | across rule => rule.depth named + 1
  | unlessBody rule => rule.depth named + 1
  | whereBody rule => rule.depth named + 1
  | unlessGuard rule => rule.depth named + 1

/-- Whether what a rule goes on with, once it has taken a character, goes down at most 128 steps,
and each of its repetitions takes a character every time. -/
def bounded (named : Name → Nat) : Rule Name → Bool
  | empty => true
  | token _ => true
  | seq one two => one.bounded named && two.bounded named && two.depth named ≤ 128
  | alt one two => one.bounded named && two.bounded named
  | commit one two three =>
    one.bounded named && two.bounded named && two.depth named ≤ 128 && three.bounded named
  | opt rule => rule.bounded named
  | many rule => rule.bounded named && rule.consumes
  | tail rule => rule.bounded named
  | ref _ => true
  | node _ rule => rule.bounded named
  | ahead rule => rule.bounded named
  | notAhead rule => rule.bounded named
  | within _ rule => rule.bounded named
  | expecting _ rule => rule.bounded named
  | across rule => rule.bounded named
  | unlessBody rule => rule.bounded named
  | whereBody rule => rule.bounded named
  | unlessGuard rule => rule.bounded named

theorem run_length_le {rules : Name → Rule Name} {fuel : Nat} {rule : Rule Name}
    {here next : Accepts} {text rest : Text} {trees : List Tree}
    (read : run rules fuel rule here next text = some (trees, rest)) :
    rest.length ≤ text.length := by
  rw [← (run_taken read).spelled, List.length_append]
  exact Nat.le_add_left _ _

theorem run_shorter {rules : Name → Rule Name} (named : ∀ name, (rules name).consumes) {fuel : Nat}
    {rule : Rule Name} {here next : Accepts} {text rest : Text} {trees : List Tree}
    (read : run rules fuel rule here next text = some (trees, rest)) (consumes : rule.consumes) :
    rest.length < text.length := by
  induction fuel generalizing rule here next text trees rest with
  | zero => cases read
  | succ fuel ih =>
    have both {one two : Rule Name} {here next here' next' : Accepts} {text middle rest : Text}
        {trees more : List Tree} (first : run rules fuel one here next text = some (trees, middle))
        (second : run rules fuel two here' next' middle = some (more, rest))
        (either : one.consumes || two.consumes) : rest.length < text.length := by
      have one_le := run_length_le first
      have two_le := run_length_le second
      rcases Bool.or_eq_true_iff.1 either with left | right
      · have shorter := ih first left
        omega
      · have shorter := ih second right
        omega
    cases rule with
    | empty => cases consumes
    | token symbol =>
      simp only [run] at read
      split at read
      next trivia rest blank =>
        split at read
        next found left spelled =>
          cases read
          have shorter := Token.read?_shorter consumes spelled
          have whole := congrArg List.length (takeTrivia_append blank)
          rw [List.length_append] at whole
          omega
        next => cases read
      next => cases read
    | seq one two =>
      simp only [run] at read
      split at read
      next first =>
        split at read
        next second => cases read; exact both first second consumes
        next => cases read
      next => cases read
    | alt one two =>
      obtain ⟨left, right⟩ := Bool.and_eq_true_iff.1 consumes
      simp only [run] at read
      split at read
      next first => cases read; exact ih first left
      next => exact ih read right
    | commit one two three =>
      obtain ⟨either, last⟩ := Bool.and_eq_true_iff.1 consumes
      simp only [run] at read
      split at read
      next first =>
        split at read
        next second => cases read; exact both first second either
        next => cases read
      next => exact ih read last
    | opt rule => cases consumes
    | many rule => cases consumes
    | tail rule => exact ih read consumes
    | ref name => exact ih read (named name)
    | node kind rule =>
      simp only [run] at read
      split at read
      next found => cases read; exact ih found consumes
      next => cases read
    | ahead rule => cases consumes
    | notAhead rule => cases consumes
    | within more rule => exact ih read consumes
    | expecting more rule => exact ih read consumes
    | across rule => exact ih read consumes
    | unlessBody rule =>
      simp only [run] at read
      split at read
      · cases read
      · exact ih read consumes
    | whereBody rule =>
      simp only [run] at read
      split at read
      · exact ih read consumes
      · cases read
    | unlessGuard rule =>
      simp only [run] at read
      split at read
      · cases read
      · exact ih read consumes

/-- Bounds on the depth of the rules of a grammar. -/
structure Bounds (rules : Name → Rule Name) (named : Name → Nat) : Prop where
  consumes : ∀ name, (rules name).consumes
  bounded : ∀ name, (rules name).bounded named
  depth : ∀ name, (rules name).depth named ≤ named name

/-- What a rule goes on with has a shorter text, or the depth of the whole counts it. -/
theorem depth_behind {rules : Name → Rule Name} {named : Name → Nat} (bounds : Bounds rules named)
    {fuel : Nat} {one two : Rule Name} {here next : Accepts} {text rest : Text} {trees : List Tree}
    (first : run rules fuel one here next text = some (trees, rest))
    (wide : two.depth named ≤ 128) :
    128 * rest.length + two.depth named ≤
      128 * text.length + if one.consumes then 0 else two.depth named := by
  have left := run_length_le first
  split
  next consumes =>
    have shorter := run_shorter bounds.consumes first consumes
    omega
  next => omega

theorem run_of_le {rules : Name → Rule Name} {named : Name → Nat} (bounds : Bounds rules named)
    {fuel more : Nat} {rule : Rule Name} {here next : Accepts} {text : Text}
    (bounded : rule.bounded named) (deep : 128 * text.length + rule.depth named ≤ fuel)
    (le : fuel ≤ more) :
    run rules more rule here next text = run rules fuel rule here next text := by
  induction fuel generalizing more rule here next text with
  | zero =>
    have some_depth : 0 < rule.depth named := by cases rule <;> simp [Rule.depth]
    omega
  | succ fuel ih =>
    obtain ⟨more, rfl⟩ := Nat.exists_eq_add_of_le' (Nat.one_le_of_lt le)
    replace le : fuel ≤ more := by omega
    have inner (rule : Rule Name) {here next : Accepts} (bounded : rule.bounded named)
        (deep : 128 * text.length + (rule.depth named + 1) ≤ fuel + 1) :
        run rules more rule here next text = run rules fuel rule here next text :=
      ih bounded (by omega) le
    cases rule with
    | empty => rfl
    | token symbol =>
      simp only [Rule.depth] at deep
      simp only [run, takeTrivia_of_le (show text.length < fuel by omega) le]
    | seq one two =>
      simp only [Rule.bounded, Bool.and_eq_true, decide_eq_true_eq] at bounded
      obtain ⟨⟨left, right⟩, wide⟩ := bounded
      simp only [Rule.depth] at deep
      simp only [run]
      rw [ih left (by omega) le]
      cases first : run rules fuel one here (two.following next) text with
      | none => rfl
      | some found =>
        have deeper := depth_behind bounds first wide
        simp only [ih right (show 128 * found.2.length + _ ≤ fuel by omega) le]
    | alt one two =>
      obtain ⟨left, right⟩ := Bool.and_eq_true_iff.1 bounded
      simp only [Rule.depth] at deep
      simp only [run, inner one left (by omega), inner two right (by omega)]
    | commit one two three =>
      simp only [Rule.bounded, Bool.and_eq_true, decide_eq_true_eq] at bounded
      obtain ⟨⟨⟨left, right⟩, wide⟩, last⟩ := bounded
      simp only [Rule.depth] at deep
      simp only [run]
      rw [ih left (by omega) le]
      cases first : run rules fuel one here (two.following next) text with
      | none => exact ih last (by omega) le
      | some found =>
        have deeper := depth_behind bounds first wide
        simp only [ih right (show 128 * found.2.length + _ ≤ fuel by omega) le]
    | opt rule => simp only [run, inner rule bounded deep]
    | many rule =>
      obtain ⟨inside, consumes⟩ := Bool.and_eq_true_iff.1 bounded
      simp only [run]
      rw [inner rule inside deep]
      cases first : run rules fuel rule (here ∪ next) (rule.first ∪ next) text with
      | none => rfl
      | some found =>
        have shorter := run_shorter bounds.consumes first consumes
        simp only [ih bounded (show 128 * found.2.length + _ ≤ fuel by omega) le]
    | tail rule => exact inner rule bounded deep
    | ref name =>
      have named := bounds.depth name
      simp only [Rule.depth] at deep
      exact ih (bounds.bounded name) (by omega) le
    | node kind rule => simp only [run, inner rule bounded deep]
    | ahead rule => simp only [run, inner rule bounded deep]
    | notAhead rule => simp only [run, inner rule bounded deep]
    | within more rule => exact inner rule bounded deep
    | expecting more rule => exact inner rule bounded deep
    | across rule => exact inner rule bounded deep
    | unlessBody rule => simp only [run, inner rule bounded deep]
    | whereBody rule => simp only [run, inner rule bounded deep]
    | unlessGuard rule => simp only [run, inner rule bounded deep]

end Rule

/-! ### Reading without fuel -/

namespace Grammar

open Rule

/-- How deep the named rules of Go go before they have taken a character. -/
def depthOf : Name → Nat
  | .simpleType => 13
  | .anyType => 15
  | .typeElement => 17
  | .instantiated => 9
  | .parameters => 3
  | .expression => 25
  | .literal => 3
  | .statement => 46
  | .statements => 49
  | .ifStatement => 3

theorem bounds : Bounds rules depthOf where
  consumes name := by cases name <;> decide
  bounded name := by cases name <;> decide
  depth name := by cases name <;> decide

/-- Reads the front of a text by a rule of Go. -/
def reading (rule : Rule) (here next : Accepts) (text : Text) : Option (List Tree × Text) :=
  run rules (128 * text.length + rule.depth depthOf) rule here next text

/-- With enough fuel a reading does not depend on its fuel. -/
theorem run_eq_reading {rule : Rule} (bounded : rule.bounded depthOf) {fuel : Nat} {text : Text}
    (deep : 128 * text.length + rule.depth depthOf ≤ fuel) (here next : Accepts) :
    run rules fuel rule here next text = reading rule here next text :=
  run_of_le bounds bounded (Nat.le_refl _) deep

section Equations

variable {one two rule : Rule} (here next : Accepts) (text : Text)

theorem reading_seq (bounded : (seq one two).bounded depthOf) :
    reading (seq one two) here next text =
      (reading one here (two.following next) text).bind fun (trees, rest) =>
        (reading two (if trees.isEmpty then here else {}) next rest).map fun (more, left) =>
          (trees ++ more, left) := by
  simp only [Rule.bounded, Bool.and_eq_true, decide_eq_true_eq] at bounded
  obtain ⟨⟨left, right⟩, wide⟩ := bounded
  rw [reading, Rule.depth, ← Nat.add_assoc]
  simp only [run]
  rw [run_eq_reading left (by omega)]
  cases first : reading one here (two.following next) text with
  | none => rfl
  | some found =>
    have deeper := depth_behind bounds first wide
    simp only [Option.bind_some]
    rw [run_eq_reading right (by omega)]
    cases reading two (if found.1.isEmpty then here else {}) next found.2 <;> rfl

theorem reading_alt (bounded : (alt one two).bounded depthOf) :
    reading (alt one two) here next text =
      (reading one here next text).or (reading two here next text) := by
  obtain ⟨left, right⟩ := Bool.and_eq_true_iff.1 bounded
  rw [reading, Rule.depth, ← Nat.add_assoc]
  simp only [run]
  rw [run_eq_reading left (by omega), run_eq_reading right (by omega)]
  cases reading one here next text <;> rfl

theorem reading_opt :
    reading (opt rule) here next text =
      some ((reading rule (here ∪ next) next text).getD ([], text)) := by
  rw [reading, Rule.depth, ← Nat.add_assoc]
  simp only [run]
  rw [← reading]
  cases reading rule (here ∪ next) next text <;> rfl

theorem reading_many (bounded : (many rule).bounded depthOf) :
    reading (many rule) here next text =
      match reading rule (here ∪ next) (rule.first ∪ next) text with
      | some (trees, rest) =>
        (reading (many rule) {} next rest).map fun (more, left) => (trees ++ more, left)
      | none => some ([], text) := by
  obtain ⟨inside, consumes⟩ := Bool.and_eq_true_iff.1 bounded
  conv_lhs => rw [reading, Rule.depth, ← Nat.add_assoc]
  simp only [run]
  rw [run_eq_reading inside (Nat.le_refl _)]
  cases first : reading rule (here ∪ next) (rule.first ∪ next) text with
  | none => rfl
  | some found =>
    obtain ⟨trees, rest⟩ := found
    have shorter := run_shorter bounds.consumes first consumes
    -- A round takes a character, so it makes a tree.
    have some_tree : ¬ trees.isEmpty := by
      intro empty
      have spelled := (run_taken first).spelled
      rw [List.isEmpty_iff.1 empty] at spelled
      cases spelled
      exact Nat.lt_irrefl _ shorter
    simp only [some_tree, Bool.false_eq_true, if_false]
    rw [run_eq_reading bounded (by simp only [Rule.depth]; omega)]
    cases reading (many rule) {} next rest <;> rfl

theorem reading_node (kind : NodeKind) :
    reading (node kind rule) here next text =
      (reading rule here next text).map fun (trees, rest) => (Tree.wrap kind trees, rest) := by
  rw [reading, Rule.depth, ← Nat.add_assoc]
  simp only [run]
  rw [← reading]
  cases reading rule here next text <;> rfl

theorem reading_within (more : Accepts) :
    reading (within more rule) here next text = reading rule (here ∪ more) next text := by
  rw [reading, Rule.depth, ← Nat.add_assoc]
  simp only [run]
  rfl

end Equations

end Grammar

open Grammar in
/-- The fuel with which a file is read is never used up. -/
theorem parse?_eq (source : Text) : parse? source =
    (reading file {} {} (takeByteOrderMark source).2).map fun found =>
      (takeByteOrderMark source).1 ++ found.1 := by
  have whole := (takeByteOrderMark_taken source).1
  have deep : 128 * (takeByteOrderMark source).2.length + file.depth depthOf ≤
      readingDepth source.length := by
    have length := congrArg List.length whole
    have file_depth : file.depth depthOf ≤ 1024 := by decide
    rw [List.length_append] at length
    rw [readingDepth]
    omega
  unfold parse?
  generalize takeByteOrderMark source = marked at deep
  obtain ⟨mark, text⟩ := marked
  simp only [run_eq_reading (show file.bounded depthOf by decide) deep]
  cases reading file {} {} text with
  | none => rfl
  | some found => rfl

end GoGraft.Go
