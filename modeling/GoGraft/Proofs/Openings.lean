import GoGraft.Proofs.Readings

/-! What a rule can do at the front of a text. A rule that makes trees starts with blanks and comments
and then a tree that is no part of a preamble. Where items of a file stand, the words `import` and
`package` are keywords, so a text that starts with one of them is no statement. -/

namespace GoGraft.Go

/-- A tree that may stand in front of the declarations of a file. The terminator that ends the last
item of a file without a character is not meant. -/
def Tree.isPreamble : Tree → Bool
  | .leaf .terminator text => !text.isEmpty
  | .node .package _ => true
  | .node .importDeclaration _ => true
  | tree => tree.isTrivia

theorem Tree.isPreamble_of_isTrivia {tree : Tree} (trivia : tree.isTrivia) : tree.isPreamble := by
  cases tree with
  | leaf kind text => cases kind <;> first | exact trivia | cases trivia
  | node => cases trivia

theorem Tree.isTrivia_of_isPreamble {tree : Tree} (solid : tree.isPreamble = false) :
    tree.isTrivia = false := by
  rw [Bool.eq_false_iff]
  intro trivia
  rw [Tree.isPreamble_of_isTrivia trivia] at solid
  cases solid

namespace Rule

variable {Name : Type}

/-- Whether the first tree of a rule that is no trivia is no part of a preamble either. -/
def leads : Rule Name → Bool
  | empty => true
  | token symbol => symbol.leafKind == .token
  | seq one two => one.leads && (one.consumes || two.leads)
  | alt one two => one.leads && two.leads
  | commit one two three => one.leads && (one.consumes || two.leads) && three.leads
  | opt rule => rule.leads
  | many rule => rule.leads
  | tail rule => rule.leads
  | ref _ => true
  | node kind rule => !(Tree.node kind []).isPreamble && rule.leads && rule.consumes
  | ahead _ => true
  | notAhead _ => true
  | within _ rule => rule.leads
  | expecting _ rule => rule.leads
  | across rule => rule.leads
  | unlessBody rule => rule.leads
  | whereBody rule => rule.leads
  | unlessGuard rule => rule.leads

/-- No trees, or blanks and comments and a tree that is no part of a preamble. -/
def Led (text : Text) (trees : List Tree) : Prop :=
  trees = [] ∨ ∃ newlines tree more,
    tree.isPreamble = false ∧ trees = gap newlines text ++ tree :: more

theorem Led.append {text : Text} {trees : List Tree} (led : Led text trees) (filled : trees ≠ [])
    (more : List Tree) : Led text (trees ++ more) := by
  obtain rfl | ⟨newlines, tree, others, own, rfl⟩ := led
  · exact absurd rfl filled
  · exact .inr ⟨newlines, tree, others ++ more, own, by simp⟩

theorem Reads.led {rules : Name → Rule Name} (consumes : ∀ name, (rules name).consumes)
    (leads : ∀ name, (rules name).leads) {rule : Rule Name} {here : Accepts} {text rest : Text}
    {trees : List Tree} (reads : Reads rules rule here text trees rest) (own : rule.leads) :
    Led text trees := by
  -- Two rules in a row: where the first takes nothing, the second starts at the same place.
  have behind {one two : Rule Name} {here : Accepts} {text middle : Text} {trees more : List Tree}
      (first : Reads rules one here text trees middle) (left : Led text trees)
      (right : two.leads → Led middle more) (own : one.consumes || two.leads) :
      Led text (trees ++ more) := by
    cases trees with
    | cons tree trees => exact left.append (List.cons_ne_nil _ _) more
    | nil =>
      have spelled : middle = text := first.spelled
      subst spelled
      rcases Bool.or_eq_true_iff.1 own with takes | leads
      · exact absurd (first.shorter consumes takes) (Nat.lt_irrefl _)
      · exact right leads
  induction reads with
  | token read =>
    refine .inr ⟨_, _, [], ?_, rfl⟩
    rw [eq_of_beq own]
    rfl
  | seq first _ left right =>
    obtain ⟨front, back⟩ := Bool.and_eq_true_iff.1 own
    exact behind first (left front) right back
  | altLeft _ ih => exact ih (Bool.and_eq_true_iff.1 own).1
  | altRight _ ih => exact ih (Bool.and_eq_true_iff.1 own).2
  | commitFirst first _ left right =>
    obtain ⟨front, back⟩ := Bool.and_eq_true_iff.1 (Bool.and_eq_true_iff.1 own).1
    exact behind first (left front) right back
  | commitLast _ ih => exact ih (Bool.and_eq_true_iff.1 own).2
  | manySome filled _ _ left _ => exact (left own).append filled _
  | @ref name _ _ _ _ _ ih => exact ih (leads name)
  | @node kind _ _ text rest _ made ih =>
    obtain ⟨both, takes⟩ := Bool.and_eq_true_iff.1 own
    obtain ⟨kept, inner⟩ := Bool.and_eq_true_iff.1 both
    obtain rfl | ⟨newlines, tree, more, solid, rfl⟩ := ih inner
    · have spelled : rest = text := made.spelled
      subst spelled
      exact absurd (made.shorter consumes takes) (Nat.lt_irrefl _)
    · have code := Tree.isTrivia_of_isPreamble solid
      refine .inr ⟨newlines, .node kind (tree :: more), [], ?_, wrap_gap _ _ _ _ _ code⟩
      cases kind <;> first | rfl | cases kept
  | empty => exact .inl rfl
  | optNone => exact .inl rfl
  | manyNone => exact .inl rfl
  | ahead => exact .inl rfl
  | notAhead => exact .inl rfl
  | _ _ ih => exact ih own

end Rule

/-! ### Words that no statement starts with -/

/-- A text that starts with one of some words, or with the end of a line in front of it. -/
inductive OpensWord (words : List Text) : Text → Prop where
  | newline {rest : Text} : OpensWord words ('\n' :: rest)
  | word {text word rest : Text} (among : word ∈ words)
      (read : Lexeme.identifier? text = some (word, rest)) : OpensWord words text

theorem OpensWord.head {words : List Text} {text : Text} (opens : OpensWord words text) :
    ∃ c ∈ '\n' :: words.filterMap List.head?, ∃ rest, text = c :: rest := by
  cases opens with
  | newline => exact ⟨'\n', List.mem_cons_self, _, rfl⟩
  | @word text word rest among read =>
    cases text with
    | nil => cases read
    | cons c text =>
      have first := (Token.starts_of_identifier? read).2
      exact ⟨c, List.mem_cons_of_mem _ (List.mem_filterMap.2 ⟨word, among, first⟩), text, rfl⟩

namespace Token

/-- Whether a token cannot be read where one of some words stands, given whether they are keywords. -/
def refuses (words : List Text) (keywords : Bool) : Token → Bool
  | word spelling => !words.contains spelling
  | name reserved => keywords || words.all reserved.contains
  | symbol => symbol.avoids ('\n' :: words.filterMap List.head?)

theorem isKeyword_union {here : Accepts} {word : Text} (keyword : isKeyword here word)
    (more : Accepts) : isKeyword (here ∪ more) word := by
  have wider : here ∪ more = here.union more := rfl
  simp only [isKeyword, wider, Accepts.union, Bool.or_eq_true, Bool.and_eq_true] at keyword ⊢
  refine keyword.imp (Or.imp (Or.imp (Or.imp ?_ ?_) ?_) ?_) ?_ <;>
    exact fun ⟨held, among⟩ => ⟨.inl held, among⟩

theorem isKeyword_of_statement {here : Accepts} (statement : here.statement) {word : Text}
    (among : word ∈ statementWords) : isKeyword here word := by
  simp [isKeyword, statement, among]

end Token

/-- Words that are keywords where the grammar takes certain things. -/
def Keywords (words : List Text) (here : Accepts) : Prop :=
  ∀ word ∈ words, Token.isKeyword here word

instance (words : List Text) (here : Accepts) : Decidable (Keywords words here) :=
  inferInstanceAs (Decidable (∀ word ∈ words, Token.isKeyword here word))

theorem lacks_of_opensWord {words : List Text} {text : Text}
    (opens : ∀ newlines, OpensWord words (pass newlines text)) (keywords : Bool) :
    Lacks (Token.refuses words keywords) (fun here => keywords → Keywords words here) text where
  grows more held keyword word among := Token.isKeyword_union (held keyword word among) more
  unread {symbol here} refuses held newlines := by
    have start := (opens newlines).head
    have opens := opens newlines
    generalize pass newlines text = text at start opens
    obtain ⟨c, among, rest, head⟩ := start
    cases read : symbol.read? here text with
    | none => rfl
    | some found =>
      cases symbol with
      | word spelling =>
        simp only [Token.read?] at read
        cases opens with
        | newline => cases read
        | word inside identifier =>
          rw [identifier] at read
          dsimp only at read
          split at read
          next same =>
            rw [eq_of_beq same] at inside
            simp [Token.refuses, inside] at refuses
          next => cases read
      | name reserved =>
        simp only [Token.read?] at read
        cases opens with
        | newline => cases read
        | word inside identifier =>
          rw [identifier] at read
          dsimp only at read
          split at read
          next => cases read
          next free =>
            refine absurd (Bool.or_eq_true_iff.2 ?_) free
            refine (Bool.or_eq_true_iff.1 refuses).symm.imp ?_ fun keyword => held keyword _ inside
            exact fun all => List.all_eq_true.1 all _ inside
      | _ =>
        rw [head] at read
        have other := List.all_eq_true.1 refuses c among
        rw [Token.starts_of_read? read] at other
        cases other

namespace Grammar

open Rule

theorem rules_leads (name : Name) : (rules name).leads := by
  cases name <;> decide

/-- No rule starts with a keyword of a file. -/
theorem rules_refuse_items (name : Name) :
    (rules name).outlook (Token.refuses Token.itemWords true) (fun _ => true) = .fails := by
  cases name <;> decide

end Grammar

end GoGraft.Go
