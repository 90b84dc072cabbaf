import GoGraft.Proofs.Leaves

/-! How the leaves of a reading were read. Each leaf is what its reader takes at the front of the
text that follows it in the source, and a token is read only where no comment starts. -/

namespace GoGraft.Go

open GoGraft.Go.Tree (leavesOfAll)

namespace Rule

variable {Name : Type}

/-- The tokens that a rule may take; those of the rules that it names are left out. -/
def tokens : Rule Name → List Token
  | empty => []
  | token symbol => [symbol]
  | seq one two => one.tokens ++ two.tokens
  | alt one two => one.tokens ++ two.tokens
  | commit one two three => one.tokens ++ two.tokens ++ three.tokens
  | opt rule => rule.tokens
  | many rule => rule.tokens
  | tail rule => rule.tokens
  | ref _ => []
  | node _ rule => rule.tokens
  | ahead _ => []
  | notAhead _ => []
  | within _ rule => rule.tokens
  | expecting _ rule => rule.tokens
  | across rule => rule.tokens
  | unlessBody rule => rule.tokens
  | whereBody rule => rule.tokens
  | unlessGuard rule => rule.tokens

end Rule

/-- White space, or the mark that a file may start with. -/
def isGap (c : Char) : Bool :=
  Lexeme.isSpace c || c == '﻿'

/-- How a leaf is read in front of a text; a token is one of those that are known. -/
inductive LeafFits (known : Token → Prop) : Tree → Text → Prop where
  | blank {text after : Text} (gap : ∀ c ∈ text, isGap c) : LeafFits known (.leaf .blank text) after
  | comment {text after : Text} (read : Lexeme.comment? (text ++ after) = some (text, after)) :
    LeafFits known (.leaf .comment text) after
  | token {symbol : Token} {here : Accepts} {text after : Text} (held : known symbol)
      (code : Lexeme.comment? (text ++ after) = none)
      (read : symbol.read? here (text ++ after) = some (text, after)) :
    LeafFits known (.leaf symbol.leafKind text) after

/-- Each leaf fits what comes behind it: the other leaves, and then a text. -/
def Fits (known : Token → Prop) : List Tree → Text → Prop
  | [], _ => True
  | leaf :: rest, after => LeafFits known leaf (Tree.textOfAll rest ++ after) ∧ Fits known rest after

variable {known : Token → Prop}

theorem fits_append {first second : List Tree} {after : Text} :
    Fits known (first ++ second) after ↔
      Fits known first (Tree.textOfAll second ++ after) ∧ Fits known second after := by
  induction first with
  | nil => simp [Fits]
  | cons leaf rest ih =>
    rw [List.cons_append, Fits, Fits, ih, Tree.textOfAll_append, List.append_assoc, and_assoc]

theorem Fits.mem {leaves : List Tree} {after : Text} (fits : Fits known leaves after) {leaf : Tree}
    (inside : leaf ∈ leaves) : ∃ behind, LeafFits known leaf behind := by
  obtain ⟨front, back, rfl⟩ := List.append_of_mem inside
  exact ⟨_, (fits_append.1 fits).2.1⟩

theorem takeTrivia_fits {newlines : Bool} {fuel : Nat} {text rest : Text} {trivia : List Tree}
    (taken : takeTrivia newlines fuel text = some (trivia, rest)) :
    Fits known trivia rest ∧ Lexeme.comment? rest = none := by
  induction fuel generalizing text trivia with
  | zero => cases taken
  | succ fuel ih =>
    have with_blank (blank : Text) {trees : List Tree} (gap : ∀ c ∈ blank, isGap c)
        (fits : Fits known trees rest) :
        Fits known (if blank.isEmpty then trees else .leaf .blank blank :: trees) rest := by
      split
      · exact fits
      · exact ⟨.blank gap, fits⟩
    have spaces : ∀ c ∈ text.takeWhile fun c => Lexeme.isSpace c && (newlines || c != '\n'), isGap c := by
      intro c inside
      have space := List.all_eq_true.1 List.all_takeWhile c inside
      rw [Bool.and_eq_true] at space
      simp [isGap, space.1]
    simp only [takeTrivia] at taken
    split at taken
    next comment left read =>
      split at taken
      next trees last more =>
        cases taken
        obtain ⟨fits, code⟩ := ih more
        refine ⟨with_blank _ spaces ⟨.comment ?_, fits⟩, code⟩
        rw [takeTrivia_append more, Lexeme.comment?_append read, read]
      next => cases taken
    next code =>
      cases taken
      exact ⟨with_blank _ spaces trivial, code⟩

namespace Rule

variable {Name : Type}

theorem run_fits {rules : Name → Rule Name}
    (named : ∀ name, ∀ symbol ∈ (rules name).tokens, known symbol) {fuel : Nat} {rule : Rule Name}
    {here next : Accepts} {text rest : Text} {trees : List Tree}
    (read : run rules fuel rule here next text = some (trees, rest))
    (own : ∀ symbol ∈ rule.tokens, known symbol) : Fits known (leavesOfAll trees) rest := by
  induction fuel generalizing rule here next text trees rest with
  | zero => cases read
  | succ fuel ih =>
    have both {one two : Rule Name} {here next here' next' : Accepts} {text middle rest : Text}
        {trees more : List Tree} (first : run rules fuel one here next text = some (trees, middle))
        (second : run rules fuel two here' next' middle = some (more, rest))
        (left : ∀ symbol ∈ one.tokens, known symbol) (right : ∀ symbol ∈ two.tokens, known symbol) :
        Fits known (leavesOfAll (trees ++ more)) rest := by
      rw [Tree.leavesOfAll_append, fits_append, Tree.textOfAll_leavesOfAll, (run_taken second).spelled]
      exact ⟨ih first left, ih second right⟩
    cases rule with
    | empty => cases read; trivial
    | token symbol =>
      simp only [run] at read
      split at read
      next trivia rest blank =>
        split at read
        next found left spelled =>
          have flat := Tree.leavesOfAll_trivia (takeTrivia_isTrivia blank)
          have tokens := Token.read?_append spelled
          obtain ⟨fits, code⟩ := @takeTrivia_fits known _ _ _ _ _ blank
          have last : LeafFits known (.leaf symbol.leafKind found) left :=
            .token (own symbol List.mem_cons_self) (tokens ▸ code) (tokens ▸ spelled)
          cases read
          rw [Tree.leavesOfAll_append, flat, fits_append]
          refine ⟨?_, last, trivial⟩
          simpa [Tree.leavesOfAll, Tree.leaves, Tree.textOfAll, Tree.text, tokens] using fits
        next => cases read
      next => cases read
    | seq one two =>
      obtain ⟨left, right⟩ := List.forall_mem_append.1 own
      simp only [run] at read
      split at read
      next first =>
        split at read
        next second => cases read; exact both first second left right
        next => cases read
      next => cases read
    | alt one two =>
      obtain ⟨left, right⟩ := List.forall_mem_append.1 own
      simp only [run] at read
      split at read
      next first => cases read; exact ih first left
      next => exact ih read right
    | commit one two three =>
      obtain ⟨committed, last⟩ := List.forall_mem_append.1 own
      obtain ⟨left, right⟩ := List.forall_mem_append.1 committed
      simp only [run] at read
      split at read
      next first =>
        split at read
        next second => cases read; exact both first second left right
        next => cases read
      next => exact ih read last
    | opt rule =>
      simp only [run] at read
      split at read
      next found => cases read; exact ih found own
      next => cases read; trivial
    | many rule =>
      simp only [run] at read
      split at read
      next first =>
        split at read
        · cases read; trivial
        · split at read
          next second => cases read; exact both first second own own
          next => cases read
      next => cases read; trivial
    | tail rule => exact ih read own
    | ref name => exact ih read (named name)
    | node kind rule =>
      simp only [run] at read
      split at read
      next found =>
        cases read
        rw [Tree.leavesOfAll_wrap]
        exact ih found own
      next => cases read
    | ahead rule =>
      simp only [run] at read
      split at read
      · cases read; trivial
      · cases read
    | notAhead rule =>
      simp only [run] at read
      split at read
      · cases read
      · cases read; trivial
    | within more rule => exact ih read own
    | expecting more rule => exact ih read own
    | across rule => exact ih read own
    | unlessBody rule =>
      simp only [run] at read
      split at read
      · cases read
      · exact ih read own
    | whereBody rule =>
      simp only [run] at read
      split at read
      · exact ih read own
      · cases read
    | unlessGuard rule =>
      simp only [run] at read
      split at read
      · cases read
      · exact ih read own

end Rule

namespace Token

/-- A token without quotes and slashes, in which a brace stands alone. -/
def isPlain : Token → Bool
  | mark spelling _ =>
    spelling == ['\x7b'] || spelling == ['\x7d'] || spelling.all Lexeme.isOrdinary
  | _ => true

end Token

namespace Grammar

theorem rules_plain (name : Name) : ∀ symbol ∈ (rules name).tokens, symbol.isPlain := by
  rw [← List.all_eq_true]
  cases name <;> decide +kernel

theorem file_plain : ∀ symbol ∈ file.tokens, symbol.isPlain := by
  rw [← List.all_eq_true]
  decide +kernel

end Grammar

theorem takeByteOrderMark_fits (source after : Text) :
    Fits known (leavesOfAll (takeByteOrderMark source).1) after := by
  fun_cases takeByteOrderMark source with
  | case1 rest => exact ⟨.blank (by simp [isGap]), trivial⟩
  | case2 => trivial

/-- The leaves of a file fit one another, and nothing comes behind them. -/
theorem parse?_fits_of (named : ∀ name, ∀ symbol ∈ (Grammar.rules name).tokens, known symbol)
    (own : ∀ symbol ∈ Grammar.file.tokens, known symbol) {source : Text} {trees : List Tree}
    (parsed : parse? source = some trees) : Fits known (leavesOfAll trees) [] := by
  have front := @takeByteOrderMark_fits known source
  unfold parse? at parsed
  generalize takeByteOrderMark source = marked at parsed front
  obtain ⟨mark, text⟩ := marked
  dsimp only at parsed
  split at parsed
  next body rest read =>
    cases parsed
    have fits := Rule.run_fits named read own
    rw [Grammar.run_ending read] at fits
    rw [Tree.leavesOfAll_append, fits_append]
    exact ⟨front _, fits⟩
  next => cases parsed

theorem parse?_fits {source : Text} {trees : List Tree} (parsed : parse? source = some trees) :
    Fits (fun symbol => symbol.isPlain) (leavesOfAll trees) [] :=
  parse?_fits_of Grammar.rules_plain Grammar.file_plain parsed

end GoGraft.Go
