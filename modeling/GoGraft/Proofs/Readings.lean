import GoGraft.Proofs.ItemLists

/-! Readings as a relation. `Reads` says how a rule reads the front of a text, without fuel and
whatever may follow, so that a reading can be taken apart case by case. The first character of a text
tells which tokens are not there, and from that `Rule.outlook` works out that a rule fails there or
takes nothing. -/

namespace GoGraft.Go

open Grammar (skipsNewlines)

namespace Rule

variable {Name : Type}

/-- How a rule reads the front of a text: the trees that it makes, and what is left. -/
inductive Reads (rules : Name → Rule Name) :
    Rule Name → Accepts → Text → List Tree → Text → Prop where
  | empty {here : Accepts} {text : Text} : Reads rules .empty here text [] text
  | token {symbol : Token} {here : Accepts} {text found rest : Text}
      (read : symbol.read? here (pass (skipsNewlines here symbol) text) = some (found, rest)) :
      Reads rules (.token symbol) here text
        (gap (skipsNewlines here symbol) text ++ [.leaf symbol.leafKind found]) rest
  | seq {one two : Rule Name} {here : Accepts} {text middle rest : Text} {trees more : List Tree}
      (left : Reads rules one here text trees middle)
      (right : Reads rules two (if trees.isEmpty then here else {}) middle more rest) :
      Reads rules (.seq one two) here text (trees ++ more) rest
  | altLeft {one two : Rule Name} {here : Accepts} {text rest : Text} {trees : List Tree}
      (made : Reads rules one here text trees rest) : Reads rules (.alt one two) here text trees rest
  | altRight {one two : Rule Name} {here : Accepts} {text rest : Text} {trees : List Tree}
      (made : Reads rules two here text trees rest) : Reads rules (.alt one two) here text trees rest
  | commitFirst {one two three : Rule Name} {here : Accepts} {text middle rest : Text}
      {trees more : List Tree} (left : Reads rules one here text trees middle)
      (right : Reads rules two (if trees.isEmpty then here else {}) middle more rest) :
      Reads rules (.commit one two three) here text (trees ++ more) rest
  | commitLast {one two three : Rule Name} {here : Accepts} {text rest : Text} {trees : List Tree}
      (made : Reads rules three here text trees rest) :
      Reads rules (.commit one two three) here text trees rest
  | optNone {rule : Rule Name} {here : Accepts} {text : Text} : Reads rules (.opt rule) here text [] text
  | optSome {rule : Rule Name} {here next : Accepts} {text rest : Text} {trees : List Tree}
      (made : Reads rules rule (here ∪ next) text trees rest) :
      Reads rules (.opt rule) here text trees rest
  | manyNone {rule : Rule Name} {here : Accepts} {text : Text} :
      Reads rules (.many rule) here text [] text
  | manySome {rule : Rule Name} {here next : Accepts} {text middle rest : Text}
      {trees more : List Tree} (filled : trees ≠ [])
      (left : Reads rules rule (here ∪ next) text trees middle)
      (right : Reads rules (.many rule) {} middle more rest) :
      Reads rules (.many rule) here text (trees ++ more) rest
  | tail {rule : Rule Name} {here next : Accepts} {text rest : Text} {trees : List Tree}
      (made : Reads rules rule (here ∪ next) text trees rest) :
      Reads rules (.tail rule) here text trees rest
  | ref {name : Name} {here : Accepts} {text rest : Text} {trees : List Tree}
      (made : Reads rules (rules name) here text trees rest) : Reads rules (.ref name) here text trees rest
  | node {kind : NodeKind} {rule : Rule Name} {here : Accepts} {text rest : Text} {trees : List Tree}
      (made : Reads rules rule here text trees rest) :
      Reads rules (.node kind rule) here text (Tree.wrap kind trees) rest
  | ahead {rule : Rule Name} {here : Accepts} {text rest : Text} {trees : List Tree}
      (made : Reads rules rule here text trees rest) : Reads rules (.ahead rule) here text [] text
  | notAhead {rule : Rule Name} {here : Accepts} {text : Text} :
      Reads rules (.notAhead rule) here text [] text
  | within {more : Accepts} {rule : Rule Name} {here : Accepts} {text rest : Text} {trees : List Tree}
      (made : Reads rules rule (here ∪ more) text trees rest) :
      Reads rules (.within more rule) here text trees rest
  | expecting {more : Accepts} {rule : Rule Name} {here : Accepts} {text rest : Text}
      {trees : List Tree} (made : Reads rules rule here text trees rest) :
      Reads rules (.expecting more rule) here text trees rest
  | across {rule : Rule Name} {here : Accepts} {text rest : Text} {trees : List Tree}
      (made : Reads rules rule {} text trees rest) : Reads rules (.across rule) here text trees rest
  | unlessBody {rule : Rule Name} {here : Accepts} {text rest : Text} {trees : List Tree}
      (made : Reads rules rule here text trees rest) :
      Reads rules (.unlessBody rule) here text trees rest
  | whereBody {rule : Rule Name} {here : Accepts} {text rest : Text} {trees : List Tree}
      (made : Reads rules rule here text trees rest) :
      Reads rules (.whereBody rule) here text trees rest
  | unlessGuard {rule : Rule Name} {here : Accepts} {text rest : Text} {trees : List Tree}
      (made : Reads rules rule here text trees rest) :
      Reads rules (.unlessGuard rule) here text trees rest

theorem run_reads {rules : Name → Rule Name} {fuel : Nat} {rule : Rule Name} {here next : Accepts}
    {text rest : Text} {trees : List Tree}
    (read : run rules fuel rule here next text = some (trees, rest)) :
    Reads rules rule here text trees rest := by
  induction fuel generalizing rule here next text trees rest with
  | zero => cases read
  | succ fuel ih =>
    cases rule with
    | empty => cases read; exact .empty
    | token symbol =>
      simp only [run] at read
      split at read
      next trivia left blank =>
        split at read
        next found last spelled =>
          cases read
          obtain ⟨rfl, rfl⟩ := takeTrivia_eq_some blank
          exact .token spelled
        next => cases read
      next => cases read
    | seq one two =>
      simp only [run] at read
      split at read
      next first =>
        split at read
        next second => cases read; exact .seq (ih first) (ih second)
        next => cases read
      next => cases read
    | alt one two =>
      simp only [run] at read
      split at read
      next first => cases read; exact .altLeft (ih first)
      next => exact .altRight (ih read)
    | commit one two three =>
      simp only [run] at read
      split at read
      next first =>
        split at read
        next second => cases read; exact .commitFirst (ih first) (ih second)
        next => cases read
      next => exact .commitLast (ih read)
    | opt rule =>
      simp only [run] at read
      split at read
      next found => cases read; exact .optSome (ih found)
      next => cases read; exact .optNone
    | many rule =>
      simp only [run] at read
      split at read
      next first =>
        split at read
        · cases read; exact .manyNone
        next filled =>
          split at read
          next second =>
            cases read
            exact .manySome (fun none => filled (List.isEmpty_iff.2 none)) (ih first) (ih second)
          next => cases read
      next => cases read; exact .manyNone
    | tail rule => exact .tail (ih read)
    | ref name => exact .ref (ih read)
    | node kind rule =>
      simp only [run] at read
      split at read
      next found => cases read; exact .node (ih found)
      next => cases read
    | ahead rule =>
      simp only [run] at read
      split at read
      next found => cases read; exact .ahead (ih found)
      next => cases read
    | notAhead rule =>
      simp only [run] at read
      split at read
      next => cases read
      next => cases read; exact .notAhead
    | within more rule => exact .within (ih read)
    | expecting more rule => exact .expecting (ih read)
    | across rule => exact .across (ih read)
    | unlessBody rule =>
      simp only [run] at read
      split at read
      next => cases read
      next => exact .unlessBody (ih read)
    | whereBody rule =>
      simp only [run] at read
      split at read
      next => exact .whereBody (ih read)
      next => cases read
    | unlessGuard rule =>
      simp only [run] at read
      split at read
      next => cases read
      next => exact .unlessGuard (ih read)

theorem Reads.spelled {rules : Name → Rule Name} {rule : Rule Name} {here : Accepts}
    {text rest : Text} {trees : List Tree} (reads : Reads rules rule here text trees rest) :
    Tree.textOfAll trees ++ rest = text := by
  induction reads with
  | empty => rfl
  | token read =>
    rw [Tree.textOfAll_append, List.append_assoc]
    simp only [Tree.textOfAll, Tree.text, List.append_nil]
    rw [Token.read?_append read, textOfAll_gap]
  | seq _ _ left right => rw [Tree.textOfAll_append, List.append_assoc, right, left]
  | commitFirst _ _ left right => rw [Tree.textOfAll_append, List.append_assoc, right, left]
  | manySome _ _ _ left right => rw [Tree.textOfAll_append, List.append_assoc, right, left]
  | optNone => rfl
  | manyNone => rfl
  | node _ ih => rw [Tree.textOfAll_wrap, ih]
  | ahead => rfl
  | notAhead => rfl
  | _ _ ih => exact ih

theorem Reads.derives {rules : Name → Rule Name} {rule : Rule Name} {here : Accepts}
    {text rest : Text} {trees : List Tree} (reads : Reads rules rule here text trees rest) :
    Derives rules rule trees := by
  induction reads with
  | empty => exact .empty
  | token read =>
    rw [← Token.read?_append read] at read
    exact .token isTrivia_of_mem_gap read
  | seq _ _ left right => exact .seq left right
  | altLeft _ ih => exact .altLeft ih
  | altRight _ ih => exact .altRight ih
  | commitFirst _ _ left right => exact .commitFirst left right
  | commitLast _ ih => exact .commitLast ih
  | optNone => exact .optNone
  | optSome _ ih => exact .optSome ih
  | manyNone => exact .manyNone
  | manySome _ _ _ left right => exact .manySome left right
  | tail _ ih => exact .tail ih
  | ref _ ih => exact .ref ih
  | node _ ih => exact .node ih
  | ahead => exact .ahead
  | notAhead => exact .notAhead
  | within _ ih => exact .within ih
  | expecting _ ih => exact .expecting ih
  | across _ ih => exact .across ih
  | unlessBody _ ih => exact .unlessBody ih
  | whereBody _ ih => exact .whereBody ih
  | unlessGuard _ ih => exact .unlessGuard ih

theorem Reads.shorter {rules : Name → Rule Name} (named : ∀ name, (rules name).consumes)
    {rule : Rule Name} {here : Accepts} {text rest : Text} {trees : List Tree}
    (reads : Reads rules rule here text trees rest) (consumes : rule.consumes) :
    rest.length < text.length := by
  have both {one two : Rule Name} {here other : Accepts} {text middle rest : Text}
      {trees more : List Tree} (left : Reads rules one here text trees middle)
      (right : Reads rules two other middle more rest)
      (first : one.consumes → middle.length < text.length)
      (second : two.consumes → rest.length < middle.length)
      (either : one.consumes || two.consumes) : rest.length < text.length := by
    have front := congrArg List.length left.spelled
    have back := congrArg List.length right.spelled
    rw [List.length_append] at front back
    rcases Bool.or_eq_true_iff.1 either with takes | takes
    · have shorter := first takes
      omega
    · have shorter := second takes
      omega
  induction reads with
  | @token symbol here text found rest read =>
    have shorter := Token.read?_shorter consumes read
    have passed := congrArg List.length (textOfAll_gap (skipsNewlines here symbol) text)
    rw [List.length_append] at passed
    omega
  | seq left right first second => exact both left right first second consumes
  | altLeft _ ih => exact ih (Bool.and_eq_true_iff.1 consumes).1
  | altRight _ ih => exact ih (Bool.and_eq_true_iff.1 consumes).2
  | commitFirst left right first second =>
    exact both left right first second (Bool.and_eq_true_iff.1 consumes).1
  | commitLast _ ih => exact ih (Bool.and_eq_true_iff.1 consumes).2
  | tail _ ih => exact ih consumes
  | @ref name _ _ _ _ _ ih => exact ih (named name)
  | node _ ih => exact ih consumes
  | within _ ih => exact ih consumes
  | expecting _ ih => exact ih consumes
  | across _ ih => exact ih consumes
  | unlessBody _ ih => exact ih consumes
  | whereBody _ ih => exact ih consumes
  | unlessGuard _ ih => exact ih consumes
  | _ => cases consumes
/-! ### Rules that fail or take nothing -/

/-- What is to be expected of a rule at the front of a text. -/
inductive Outlook where
  | fails
  | idles
  | unknown
  deriving DecidableEq

namespace Outlook

/-- Of a rule behind another one. -/
def before : Outlook → Outlook → Outlook
  | fails, _ => fails
  | idles, second => second
  | unknown, _ => unknown

def either : Outlook → Outlook → Outlook
  | fails, fails => fails
  | unknown, _ => unknown
  | _, unknown => unknown
  | _, _ => idles

/-- Of a rule that need not succeed. -/
def perhaps : Outlook → Outlook
  | unknown => unknown
  | _ => idles

/-- Of a rule that only looks. -/
def looking : Outlook → Outlook
  | fails => fails
  | _ => idles

/-- Of a rule with a node over its trees. -/
def filled : Outlook → Outlook
  | fails => fails
  | _ => unknown

def Allows : Outlook → List Tree → Prop
  | fails, _ => False
  | idles, trees => trees = []
  | unknown, _ => True

end Outlook

/-- What is to be expected of a rule where some tokens are not there and some named rules fail. -/
def outlook (absent : Token → Bool) (failing : Name → Bool) : Rule Name → Outlook
  | empty => .idles
  | token symbol => if absent symbol then .fails else .unknown
  | seq one two => (one.outlook absent failing).before (two.outlook absent failing)
  | alt one two => (one.outlook absent failing).either (two.outlook absent failing)
  | commit one two three =>
    ((one.outlook absent failing).before (two.outlook absent failing)).either
      (three.outlook absent failing)
  | opt rule => (rule.outlook absent failing).perhaps
  | many rule => (rule.outlook absent failing).perhaps
  | tail rule => rule.outlook absent failing
  | ref name => if failing name then .fails else .unknown
  | node _ rule => (rule.outlook absent failing).filled
  | ahead rule => (rule.outlook absent failing).looking
  | notAhead _ => .idles
  | within _ rule => rule.outlook absent failing
  | expecting _ rule => rule.outlook absent failing
  | across _ => .unknown
  | unlessBody rule => rule.outlook absent failing
  | whereBody rule => rule.outlook absent failing
  | unlessGuard rule => rule.outlook absent failing

end Rule

/-- Some tokens are not at the front of a text, as long as the grammar takes certain things there. -/
structure Lacks (absent : Token → Bool) (taken : Accepts → Prop) (text : Text) : Prop where
  grows : ∀ {here : Accepts} (more : Accepts), taken here → taken (here ∪ more)
  unread : ∀ {symbol : Token} {here : Accepts}, absent symbol → taken here →
    ∀ newlines, symbol.read? here (pass newlines text) = none

namespace Rule

variable {Name : Type}

theorem Outlook.allows_before {first second : Outlook} {trees more : List Tree}
    (left : first.Allows trees) (right : trees = [] → second.Allows more) :
    (first.before second).Allows (trees ++ more) := by
  cases first with
  | fails => exact left.elim
  | idles =>
    cases left
    exact right rfl
  | unknown => trivial

theorem Outlook.allows_either_left {first second : Outlook} {trees : List Tree}
    (left : first.Allows trees) : (first.either second).Allows trees := by
  cases first with
  | fails => exact left.elim
  | idles => cases second <;> first | exact left | trivial
  | unknown => trivial

theorem Outlook.allows_either_right {first second : Outlook} {trees : List Tree}
    (right : second.Allows trees) : (first.either second).Allows trees := by
  cases second with
  | fails => exact right.elim
  | idles => cases first <;> first | exact right | trivial
  | unknown => cases first <;> trivial

theorem Outlook.allows_perhaps {outlook : Outlook} {trees : List Tree}
    (allows : trees ≠ [] → outlook.Allows trees) : outlook.perhaps.Allows trees := by
  cases outlook with
  | fails => exact Classical.not_not.1 fun filled => allows filled
  | idles => exact Classical.not_not.1 fun filled => filled (allows filled)
  | unknown => trivial

variable {absent : Token → Bool} {failing : Name → Bool} {taken : Accepts → Prop}
  {rules : Name → Rule Name}

/-- A rule does what its outlook says. -/
theorem Reads.allows
    (named : ∀ name, failing name → (rules name).outlook absent failing = .fails)
    {rule : Rule Name} {here : Accepts} {text rest : Text} {trees : List Tree}
    (reads : Reads rules rule here text trees rest) (lacks : Lacks absent taken text)
    (held : taken here) : (rule.outlook absent failing).Allows trees := by
  -- Where the first of two rules takes nothing, the second stands at the same place.
  have both {one two : Rule Name} {here : Accepts} {text middle : Text} {trees more : List Tree}
      (left : Reads rules one here text trees middle)
      (first : Lacks absent taken text → taken here → (one.outlook absent failing).Allows trees)
      (second : Lacks absent taken middle → taken (if trees.isEmpty then here else {}) →
        (two.outlook absent failing).Allows more)
      (lacks : Lacks absent taken text) (held : taken here) :
      ((one.outlook absent failing).before (two.outlook absent failing)).Allows (trees ++ more) := by
    refine Outlook.allows_before (first lacks held) fun none => ?_
    subst none
    cases left.spelled
    exact second lacks held
  induction reads with
  | empty => rfl
  | @token symbol here text found rest read =>
    rw [outlook]
    split
    next gone =>
      rw [lacks.unread gone held] at read
      cases read
    next => trivial
  | seq left _ first second => exact both left first second lacks held
  | altLeft _ ih => exact Outlook.allows_either_left (ih lacks held)
  | altRight _ ih => exact Outlook.allows_either_right (ih lacks held)
  | commitFirst left _ first second =>
    exact Outlook.allows_either_left (both left first second lacks held)
  | commitLast _ ih => exact Outlook.allows_either_right (ih lacks held)
  | optNone => exact Outlook.allows_perhaps fun filled => absurd rfl filled
  | optSome _ ih => exact Outlook.allows_perhaps fun _ => ih lacks (lacks.grows _ held)
  | manyNone => exact Outlook.allows_perhaps fun filled => absurd rfl filled
  | @manySome rule here next text middle rest trees more filled left _ first _ =>
    have round := first lacks (lacks.grows next held)
    rw [outlook]
    cases looks : rule.outlook absent failing with
    | fails =>
      rw [looks] at round
      exact round.elim
    | idles =>
      rw [looks] at round
      exact absurd round filled
    | unknown => trivial
  | tail _ ih => exact ih lacks (lacks.grows _ held)
  | @ref name here text rest trees made ih =>
    rw [outlook]
    split
    next fails =>
      have inner := ih lacks held
      rwa [named name fails] at inner
    next => trivial
  | @node kind rule here text rest trees made ih =>
    have inner := ih lacks held
    rw [outlook]
    cases looks : rule.outlook absent failing with
    | fails => rwa [looks] at inner
    | idles => trivial
    | unknown => trivial
  | @ahead rule here text rest trees made ih =>
    have inner := ih lacks held
    rw [outlook]
    cases looks : rule.outlook absent failing with
    | fails => rwa [looks] at inner
    | idles => rfl
    | unknown => rfl
  | notAhead => rfl
  | within _ ih => exact ih lacks (lacks.grows _ held)
  | expecting _ ih => exact ih lacks held
  | across _ ih => trivial
  | unlessBody _ ih => exact ih lacks held
  | whereBody _ ih => exact ih lacks held
  | unlessGuard _ ih => exact ih lacks held

theorem run_of_fails (named : ∀ name, failing name → (rules name).outlook absent failing = .fails)
    {rule : Rule Name} (fails : rule.outlook absent failing = .fails) {here : Accepts} {text : Text}
    (lacks : Lacks absent taken text) (held : taken here) (fuel : Nat) (next : Accepts) :
    run rules fuel rule here next text = none := by
  cases read : run rules fuel rule here next text with
  | none => rfl
  | some found =>
    have allows := (run_reads read).allows named lacks held
    rw [fails] at allows
    exact allows.elim

end Rule

/-! ### First characters -/

namespace Token

/-- Whether a token can start with a character. -/
def starts (c : Char) : Token → Bool
  | mark spelling _ => spelling.isEmpty || spelling.head? == some c
  | word spelling => spelling.head? == some c
  | name _ => Text.startsIdentifier c
  | number => c.isDigit || c == '.'
  | string => c == '\x22' || c == '\x60'
  | rune => c == '\x27'
  | operator => operators.any (·.head? == some c)
  | assignment => assignments.any (·.head? == some c)
  | terminator => c == '\n' || c == ';' || c == '\x00'
  | ending => false

theorem head?_of_after? {spelling text rest : Text} {c : Char}
    (after : Text.after? spelling (c :: text) = some rest) (filled : spelling ≠ []) :
    spelling.head? = some c := by
  cases spelling with
  | nil => exact absurd rfl filled
  | cons d spelling =>
    have split := Text.after?_eq_some.1 after
    rw [List.cons_append] at split
    rw [(List.cons.inj split).1]
    rfl

theorem starts_of_firstOf {spellings : List Text} (filled : spellings.all (!·.isEmpty)) {c : Char}
    {text found rest : Text} (read : firstOf spellings (c :: text) = some (found, rest)) :
    spellings.any (·.head? == some c) := by
  obtain ⟨spelling, among, offered⟩ := List.exists_of_findSome?_eq_some read
  obtain ⟨left, after, -⟩ := Option.map_eq_some_iff.1 offered
  have some_char : spelling ≠ [] := by simpa using List.all_eq_true.1 filled spelling among
  exact List.any_eq_true.2 ⟨spelling, among, by simp [head?_of_after? after some_char]⟩

theorem starts_of_string? {c : Char} {text : Text} {found : Text × Text}
    (read : Lexeme.string? (c :: text) = some found) : starts c .string := by
  by_cases raw : c = '\x60'
  · simp [starts, raw]
  · by_cases quote : c = '\x22'
    · simp [starts, quote]
    · simp [Lexeme.string?, Lexeme.rawString?, Lexeme.interpretedString?, raw, quote] at read

theorem starts_of_identifier? {c : Char} {text found rest : Text}
    (read : Lexeme.identifier? (c :: text) = some (found, rest)) :
    Text.startsIdentifier c ∧ found.head? = some c := by
  simp only [Lexeme.identifier?] at read
  split at read
  next opens =>
    cases read
    exact ⟨opens, rfl⟩
  next => cases read

theorem starts_of_read? {symbol : Token} {here : Accepts} {c : Char} {text found rest : Text}
    (read : symbol.read? here (c :: text) = some (found, rest)) : symbol.starts c := by
  cases symbol with
  | mark spelling notBefore =>
    simp only [read?] at read
    split at read
    next after =>
      by_cases filled : spelling = []
      · simp [starts, filled]
      · simp [starts, head?_of_after? after filled]
    next => cases read
  | word spelling =>
    simp only [read?] at read
    split at read
    next identifier =>
      split at read
      next same =>
        rw [starts, ← eq_of_beq same, (starts_of_identifier? identifier).2]
        exact beq_self_eq_true _
      next => cases read
    next => cases read
  | name reserved =>
    simp only [read?] at read
    split at read
    next identifier => exact (starts_of_identifier? identifier).1
    next => cases read
  | number =>
    simp only [read?, Lexeme.number?] at read
    split at read
    next opens => exact opens
    next => cases read
  | string => exact starts_of_string? read
  | rune =>
    by_cases quote : c = '\x27'
    · simp [starts, quote]
    · simp [read?, Lexeme.rune?, quote] at read
  | operator =>
    simp only [read?] at read
    split at read
    next first => exact starts_of_firstOf (by decide) first
    next => cases read
  | assignment => exact starts_of_firstOf (by decide) read
  | terminator =>
    simp only [read?] at read
    split at read
    next ends => exact ends
    next => cases read
  | ending => simp [read?] at read

/-- Whether a token starts with none of some characters. -/
def avoids (heads : List Char) (symbol : Token) : Bool :=
  heads.all (!symbol.starts ·)

end Token

/-- A text that starts with one of some characters behind its trivia, where newlines are trivia and
where they are not. -/
def Opens (heads : List Char) (text : Text) : Prop :=
  ∀ newlines, ∃ c ∈ heads, ∃ rest, pass newlines text = c :: rest

theorem lacks_of_opens {heads : List Char} {text : Text} (opens : Opens heads text) :
    Lacks (Token.avoids heads) (fun _ => True) text where
  grows _ _ := trivial
  unread {symbol here} avoids _ newlines := by
    obtain ⟨c, among, rest, passed⟩ := opens newlines
    cases read : symbol.read? here (pass newlines text) with
    | none => rfl
    | some found =>
      rw [passed] at read
      have other := List.all_eq_true.1 avoids c among
      rw [Token.starts_of_read? read] at other
      cases other

/-! ### Taking readings apart -/

namespace Rule

variable {Name : Type} {rules : Name → Rule Name} {one two rule : Rule Name} {here : Accepts}
  {text rest : Text} {trees : List Tree}

theorem Reads.parts (reads : Reads rules (.seq one two) here text trees rest) :
    ∃ front middle back after, Reads rules one here text front middle ∧
      Reads rules two after middle back rest ∧ trees = front ++ back := by
  cases reads with
  | seq left right => exact ⟨_, _, _, _, left, right, rfl⟩

theorem Reads.choice (reads : Reads rules (.alt one two) here text trees rest) :
    Reads rules one here text trees rest ∨ Reads rules two here text trees rest := by
  cases reads with
  | altLeft made => exact .inl made
  | altRight made => exact .inr made

theorem Reads.option (reads : Reads rules (.opt rule) here text trees rest) :
    (trees = [] ∧ rest = text) ∨ ∃ after, Reads rules rule after text trees rest := by
  cases reads with
  | optNone => exact .inl ⟨rfl, rfl⟩
  | optSome made => exact .inr ⟨_, made⟩

theorem Reads.rounds (reads : Reads rules (.many rule) here text trees rest) :
    (trees = [] ∧ rest = text) ∨ ∃ front middle back after, Reads rules rule after text front middle ∧
      Reads rules (.many rule) {} middle back rest ∧ trees = front ++ back := by
  cases reads with
  | manyNone => exact .inl ⟨rfl, rfl⟩
  | manySome _ left right => exact .inr ⟨_, _, _, _, left, right, rfl⟩

theorem Reads.children {kind : NodeKind} (reads : Reads rules (.node kind rule) here text trees rest) :
    ∃ inner, Reads rules rule here text inner rest ∧ trees = Tree.wrap kind inner := by
  cases reads with
  | node made => exact ⟨_, made, rfl⟩

theorem Reads.looked (reads : Reads rules (.ahead rule) here text trees rest) :
    trees = [] ∧ rest = text ∧ ∃ found left, Reads rules rule here text found left := by
  cases reads with
  | ahead made => exact ⟨rfl, rfl, _, _, made⟩

theorem Reads.fails {absent : Token → Bool} {failing : Name → Bool} {taken : Accepts → Prop}
    (reads : Reads rules rule here text trees rest) (looks : rule.outlook absent failing = .fails)
    (named : ∀ name, failing name → (rules name).outlook absent failing = .fails)
    (lacks : Lacks absent taken text) (held : taken here) : False := by
  have allows := reads.allows named lacks held
  rwa [looks] at allows

theorem Reads.idles {absent : Token → Bool} {failing : Name → Bool} {taken : Accepts → Prop}
    (reads : Reads rules rule here text trees rest) (looks : rule.outlook absent failing = .idles)
    (named : ∀ name, failing name → (rules name).outlook absent failing = .fails)
    (lacks : Lacks absent taken text) (held : taken here) : trees = [] ∧ rest = text := by
  have allows := reads.allows named lacks held
  rw [looks] at allows
  have none : trees = [] := allows
  subst none
  exact ⟨rfl, reads.spelled⟩

/-- Where the first tokens decide, named rules need not be looked at. -/
theorem Reads.fails_at {absent : Token → Bool} {taken : Accepts → Prop}
    (reads : Reads rules rule here text trees rest)
    (looks : rule.outlook absent (fun _ => false) = .fails) (lacks : Lacks absent taken text)
    (held : taken here) : False :=
  reads.fails looks (fun _ => nofun) lacks held

theorem Reads.idles_at {absent : Token → Bool} {taken : Accepts → Prop}
    (reads : Reads rules rule here text trees rest)
    (looks : rule.outlook absent (fun _ => false) = .idles) (lacks : Lacks absent taken text)
    (held : taken here) : trees = [] ∧ rest = text :=
  reads.idles looks (fun _ => nofun) lacks held

theorem Reads.of_choice {options : List (Rule Name)} (filled : options ≠ [])
    (reads : Reads rules (.choice options) here text trees rest) :
    ∃ option ∈ options, Reads rules option here text trees rest := by
  induction options with
  | nil => exact absurd rfl filled
  | cons option others ih =>
    cases others with
    | nil => exact ⟨option, List.mem_cons_self, reads⟩
    | cons next others =>
      rcases reads.choice with made | made
      · exact ⟨option, List.mem_cons_self, made⟩
      · obtain ⟨found, among, made⟩ := ih (List.cons_ne_nil _ _) made
        exact ⟨found, List.mem_cons_of_mem _ among, made⟩

/-- Of alternatives that fail but for one, that one is read. -/
theorem Reads.only {absent : Token → Bool} {failing : Name → Bool} {taken : Accepts → Prop}
    {front back : List (Rule Name)}
    (reads : Reads rules (.choice (front ++ rule :: back)) here text trees rest)
    (others : ∀ other ∈ front ++ back, other.outlook absent failing = .fails)
    (named : ∀ name, failing name → (rules name).outlook absent failing = .fails)
    (lacks : Lacks absent taken text) (held : taken here) : Reads rules rule here text trees rest := by
  obtain ⟨option, among, made⟩ := reads.of_choice (by simp)
  by_cases same : option = rule
  · exact same ▸ made
  · have other : option ∈ front ++ back := by simpa [same] using among
    exact (made.fails (others option other) named lacks held).elim

end Rule

namespace Grammar

open Rule

variable {here : Accepts} {text rest : Text} {trees : List Tree}

theorem reads_mark {spelling : Text} {notBefore : List Char}
    (reads : Reads rules (token (.mark spelling notBefore)) here text trees rest) :
    ∃ newlines, trees = gap newlines text ++ [.leaf .token spelling] ∧
      pass newlines text = spelling ++ rest := by
  cases reads with
  | token read =>
    simp only [Token.read?] at read
    split at read
    next after =>
      split at read
      next => cases read
      next =>
        cases read
        exact ⟨_, rfl, Text.after?_eq_some.1 after⟩
    next => cases read

theorem reads_word {spelling : String} (reads : Reads rules (word spelling) here text trees rest) :
    ∃ newlines, trees = gap newlines text ++ [.leaf .token spelling.toList] ∧
      Lexeme.identifier? (pass newlines text) = some (spelling.toList, rest) := by
  unfold word at reads
  cases reads with
  | token read =>
    simp only [Token.read?] at read
    split at read
    next found left identifier =>
      split at read
      next same =>
        cases read
        rw [← eq_of_beq same]
        exact ⟨_, rfl, identifier⟩
      next => cases read
    next => cases read

theorem reads_name {reserved : List Text}
    (reads : Reads rules (token (.name reserved)) here text trees rest) :
    ∃ newlines found, trees = gap newlines text ++ [.leaf .token found] ∧
      Lexeme.identifier? (pass newlines text) = some (found, rest) := by
  cases reads with
  | token read =>
    simp only [Token.read?] at read
    split at read
    next found left identifier =>
      split at read
      next => cases read
      next =>
        cases read
        exact ⟨_, _, rfl, identifier⟩
    next => cases read

theorem reads_terminator (reads : Reads rules terminator here text trees rest) :
    ∃ ending, trees = gap false text ++ [.leaf .terminator ending] ∧ pass false text = ending ++ rest ∧
      (ending = [] ∧ rest = [] ∨ ∃ c, ending = [c] ∧ endsItem c) := by
  unfold terminator at reads
  cases reads with
  | token read =>
    have narrow : skipsNewlines here .terminator = false := by simp [skipsNewlines, Token.leafKind]
    rw [narrow] at read ⊢
    refine ⟨_, rfl, (Token.read?_append read).symm, ?_⟩
    simp only [Token.read?] at read
    split at read
    next => cases read; exact .inl ⟨rfl, rfl⟩
    next c left _ =>
      split at read
      next ends =>
        cases read
        exact .inr ⟨c, rfl, by simpa [endsItem] using ends⟩
      next => cases read

end Grammar

end GoGraft.Go
