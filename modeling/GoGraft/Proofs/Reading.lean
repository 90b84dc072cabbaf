import GoGraft.Go.Grammar
import GoGraft.Proofs.Lexemes
import GoGraft.Proofs.Texts

/-! What reading by a rule gives. The trees that a rule makes spell exactly the text that it took,
and they are built as the rule says: `Derives` relates a rule to its trees without fuel, order of
alternatives or look-ahead. -/

namespace GoGraft.Go

namespace Tree

@[simp] theorem textOfAll_append (first second : List Tree) :
    textOfAll (first ++ second) = textOfAll first ++ textOfAll second := by
  induction first with
  | nil => rfl
  | cons tree rest ih => simp [textOfAll, ih]

@[simp] theorem textOfAll_wrap (kind : NodeKind) (trees : List Tree) :
    textOfAll (wrap kind trees) = textOfAll trees := by
  have halves := congrArg textOfAll (List.takeWhile_append_dropWhile (p := isTrivia) (l := trees))
  rw [textOfAll_append] at halves
  simpa only [wrap, textOfAll_append, textOfAll, text, List.append_nil] using halves

end Tree

/-- A leaf with the blanks in front of something, if there are any. -/
private theorem blank_leaf {blank : Text} (trees : List Tree) :
    Tree.textOfAll (if blank.isEmpty then trees else .leaf .blank blank :: trees) =
      blank ++ Tree.textOfAll trees := by
  cases blank with
  | nil => rfl
  | cons c blank => rfl

theorem takeTrivia_append {newlines : Bool} {fuel : Nat} {text rest : Text} {trivia : List Tree}
    (taken : takeTrivia newlines fuel text = some (trivia, rest)) :
    Tree.textOfAll trivia ++ rest = text := by
  induction fuel generalizing text trivia with
  | zero => cases taken
  | succ fuel ih =>
    have whole (isBlank : Char → Bool) : text.takeWhile isBlank ++
        (if (text.takeWhile isBlank).isEmpty then text else text.dropWhile isBlank) = text := by
      split
      next nothing => rw [List.isEmpty_iff.1 nothing, List.nil_append]
      next => exact List.takeWhile_append_dropWhile
    simp only [takeTrivia] at taken
    split at taken
    next comment left read =>
      split at taken
      next trees last more =>
        cases taken
        rw [blank_leaf, Tree.textOfAll, Tree.text, List.append_assoc, List.append_assoc, ih more,
          Lexeme.comment?_append read, whole]
      next => cases taken
    next =>
      cases taken
      rw [blank_leaf, Tree.textOfAll, List.append_nil, whole]

theorem takeTrivia_isTrivia {newlines : Bool} {fuel : Nat} {text rest : Text} {trivia : List Tree}
    (taken : takeTrivia newlines fuel text = some (trivia, rest)) :
    ∀ tree ∈ trivia, tree.isTrivia := by
  have blank_too {trees : List Tree} (blank : Text) (trivia : ∀ tree ∈ trees, tree.isTrivia) :
      ∀ tree ∈ (if blank.isEmpty then trees else .leaf .blank blank :: trees), tree.isTrivia := by
    split
    · exact trivia
    · exact List.forall_mem_cons.2 ⟨rfl, trivia⟩
  induction fuel generalizing text trivia with
  | zero => cases taken
  | succ fuel ih =>
    simp only [takeTrivia] at taken
    split at taken
    next =>
      split at taken
      next trees last more =>
        cases taken
        exact blank_too _ (List.forall_mem_cons.2 ⟨rfl, ih more⟩)
      next => cases taken
    next =>
      cases taken
      exact blank_too _ (List.forall_mem_nil _)

namespace Token

theorem firstOf_append {spellings : List Text} {text taken rest : Text}
    (read : firstOf spellings text = some (taken, rest)) : taken ++ rest = text := by
  obtain ⟨spelling, _, found⟩ := List.exists_of_findSome?_eq_some read
  obtain ⟨left, after, same⟩ := Option.map_eq_some_iff.1 found
  cases same
  exact (Text.after?_eq_some.1 after).symm

theorem read?_append {here : Accepts} {text taken rest : Text} {symbol : Token}
    (read : symbol.read? here text = some (taken, rest)) : taken ++ rest = text := by
  cases symbol with
  | mark spelling notBefore =>
    simp only [read?] at read
    split at read
    next left after =>
      split at read
      · cases read
      · cases read
        exact (Text.after?_eq_some.1 after).symm
    next => cases read
  | word spelling =>
    simp only [read?] at read
    split at read
    next found left identifier =>
      split at read
      · cases read
        exact Lexeme.identifier?_append identifier
      · cases read
    next => cases read
  | name reserved =>
    simp only [read?] at read
    split at read
    next found left identifier =>
      split at read
      · cases read
      · cases read
        exact Lexeme.identifier?_append identifier
    next => cases read
  | number => exact Lexeme.number?_append read
  | string => exact Lexeme.string?_append read
  | rune => exact Lexeme.rune?_append read
  | operator =>
    simp only [read?] at read
    split at read
    next spelling left first =>
      split at read
      · cases read
      · cases read
        exact firstOf_append first
    next => cases read
  | assignment => exact firstOf_append read
  | terminator =>
    simp only [read?] at read
    split at read
    next => cases read; rfl
    next c left =>
      split at read
      · cases read; rfl
      · cases read
  | ending =>
    simp only [read?] at read
    split at read
    next nothing => cases read; exact (List.isEmpty_iff.1 nothing).symm
    next => cases read

end Token

namespace Rule

variable {Name : Type}

/-- The trees that a rule can make. -/
inductive Derives (rules : Name → Rule Name) : Rule Name → List Tree → Prop where
  | empty : Derives rules .empty []
  | token {symbol : Token} {here : Accepts} {trivia : List Tree} {found rest : Text}
      (between : ∀ tree ∈ trivia, tree.isTrivia)
      (spelled : symbol.read? here (found ++ rest) = some (found, rest)) :
      Derives rules (.token symbol) (trivia ++ [.leaf symbol.leafKind found])
  | seq {one two : Rule Name} {trees more : List Tree}
      (left : Derives rules one trees) (right : Derives rules two more) :
      Derives rules (.seq one two) (trees ++ more)
  | altLeft {one two : Rule Name} {trees : List Tree} (made : Derives rules one trees) :
      Derives rules (.alt one two) trees
  | altRight {one two : Rule Name} {trees : List Tree} (made : Derives rules two trees) :
      Derives rules (.alt one two) trees
  | commitFirst {one two three : Rule Name} {trees more : List Tree}
      (left : Derives rules one trees) (right : Derives rules two more) :
      Derives rules (.commit one two three) (trees ++ more)
  | commitLast {one two three : Rule Name} {trees : List Tree} (made : Derives rules three trees) :
      Derives rules (.commit one two three) trees
  | optNone {rule : Rule Name} : Derives rules (.opt rule) []
  | optSome {rule : Rule Name} {trees : List Tree} (made : Derives rules rule trees) :
      Derives rules (.opt rule) trees
  | manyNone {rule : Rule Name} : Derives rules (.many rule) []
  | manySome {rule : Rule Name} {trees more : List Tree}
      (left : Derives rules rule trees) (right : Derives rules (.many rule) more) :
      Derives rules (.many rule) (trees ++ more)
  | tail {rule : Rule Name} {trees : List Tree} (made : Derives rules rule trees) :
      Derives rules (.tail rule) trees
  | ref {name : Name} {trees : List Tree} (made : Derives rules (rules name) trees) :
      Derives rules (.ref name) trees
  | node {kind : NodeKind} {rule : Rule Name} {trees : List Tree}
      (made : Derives rules rule trees) :
      Derives rules (.node kind rule) (Tree.wrap kind trees)
  | ahead {rule : Rule Name} : Derives rules (.ahead rule) []
  | notAhead {rule : Rule Name} : Derives rules (.notAhead rule) []
  | within {more : Accepts} {rule : Rule Name} {trees : List Tree}
      (made : Derives rules rule trees) : Derives rules (.within more rule) trees
  | expecting {more : Accepts} {rule : Rule Name} {trees : List Tree}
      (made : Derives rules rule trees) : Derives rules (.expecting more rule) trees
  | across {rule : Rule Name} {trees : List Tree} (made : Derives rules rule trees) :
      Derives rules (.across rule) trees
  | unlessBody {rule : Rule Name} {trees : List Tree} (made : Derives rules rule trees) :
      Derives rules (.unlessBody rule) trees
  | whereBody {rule : Rule Name} {trees : List Tree} (made : Derives rules rule trees) :
      Derives rules (.whereBody rule) trees
  | unlessGuard {rule : Rule Name} {trees : List Tree} (made : Derives rules rule trees) :
      Derives rules (.unlessGuard rule) trees

/-- A reading takes what its trees spell, and its trees are some that the rule can make. -/
structure Taken (rules : Name → Rule Name) (rule : Rule Name) (text : Text) (trees : List Tree)
    (rest : Text) : Prop where
  made : Derives rules rule trees
  spelled : Tree.textOfAll trees ++ rest = text

theorem Taken.nothing {rules : Name → Rule Name} {rule : Rule Name} {text : Text}
    (made : Derives rules rule []) : Taken rules rule text [] text :=
  ⟨made, rfl⟩

theorem Taken.map {rules : Name → Rule Name} {inner outer : Rule Name} {text rest : Text}
    {trees : List Tree} (taken : Taken rules inner text trees rest)
    (step : Derives rules inner trees → Derives rules outer trees) :
    Taken rules outer text trees rest :=
  ⟨step taken.made, taken.spelled⟩

theorem Taken.append {rules : Name → Rule Name} {one two outer : Rule Name}
    {text middle rest : Text} {trees more : List Tree}
    (first : Taken rules one text trees middle) (second : Taken rules two middle more rest)
    (step : Derives rules one trees → Derives rules two more → Derives rules outer (trees ++ more)) :
    Taken rules outer text (trees ++ more) rest where
  made := step first.made second.made
  spelled := by
    rw [Tree.textOfAll_append, List.append_assoc, second.spelled, first.spelled]

theorem run_taken {rules : Name → Rule Name} {fuel : Nat} {rule : Rule Name} {here next : Accepts}
    {text rest : Text} {trees : List Tree}
    (read : run rules fuel rule here next text = some (trees, rest)) :
    Taken rules rule text trees rest := by
  -- On the fuel and not on the rule: a reference goes to a rule that is no part of this one.
  induction fuel generalizing rule here next text trees rest with
  | zero => cases read
  | succ fuel ih =>
    cases rule with
    | empty => cases read; exact .nothing .empty
    | token symbol =>
      simp only [run] at read
      split at read
      next trivia rest blank =>
        split at read
        next found left spelled =>
          cases read
          have tokens := Token.read?_append spelled
          constructor
          · exact .token (takeTrivia_isTrivia blank) (tokens ▸ spelled)
          · rw [Tree.textOfAll_append, List.append_assoc]
            simp only [Tree.textOfAll, Tree.text, List.append_nil]
            rw [tokens, takeTrivia_append blank]
        next => cases read
      next => cases read
    | seq one two =>
      simp only [run] at read
      split at read
      next first =>
        split at read
        next second => cases read; exact (ih first).append (ih second) .seq
        next => cases read
      next => cases read
    | alt one two =>
      simp only [run] at read
      split at read
      next first => cases read; exact (ih first).map .altLeft
      next => exact (ih read).map .altRight
    | commit one two three =>
      simp only [run] at read
      split at read
      next first =>
        split at read
        next second => cases read; exact (ih first).append (ih second) .commitFirst
        next => cases read
      next => exact (ih read).map .commitLast
    | opt rule =>
      simp only [run] at read
      split at read
      next found => cases read; exact (ih found).map .optSome
      next => cases read; exact .nothing .optNone
    | many rule =>
      simp only [run] at read
      split at read
      next first =>
        -- A round without trees ends the repetition, and the text is left where the round began.
        split at read
        · cases read; exact .nothing .manyNone
        · split at read
          next second => cases read; exact (ih first).append (ih second) .manySome
          next => cases read
      next => cases read; exact .nothing .manyNone
    | tail rule => exact (ih read).map .tail
    | ref name => exact (ih read).map .ref
    | node kind rule =>
      simp only [run] at read
      split at read
      next found =>
        cases read
        obtain ⟨made, spelled⟩ := ih found
        exact ⟨.node made, by rw [Tree.textOfAll_wrap, spelled]⟩
      next => cases read
    | ahead rule =>
      simp only [run] at read
      split at read
      · cases read; exact .nothing .ahead
      · cases read
    | notAhead rule =>
      simp only [run] at read
      split at read
      · cases read
      · cases read; exact .nothing .notAhead
    | within more rule => exact (ih read).map .within
    | expecting more rule => exact (ih read).map .expecting
    | across rule => exact (ih read).map .across
    | unlessBody rule =>
      simp only [run] at read
      split at read
      · cases read
      · exact (ih read).map .unlessBody
    | whereBody rule =>
      simp only [run] at read
      split at read
      · exact (ih read).map .whereBody
      · cases read
    | unlessGuard rule =>
      simp only [run] at read
      split at read
      · cases read
      · exact (ih read).map .unlessGuard

end Rule

end GoGraft.Go
