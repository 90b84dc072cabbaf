import GoGraft.Proofs.BareTokens
import GoGraft.Proofs.BodyComments
import GoGraft.Proofs.FieldMatches

/-! The tokens of a field that is written again. A field with names keeps them: its type and its tag are
copied, and its names are written with commas as they were. An embedded field is written without the
blanks of its type, and keeps its tokens exactly if the type has the same tokens without its blanks. -/

namespace GoGraft.Go

open Rule Grammar Lexeme Text
open GoGraft.Go.Tree (leavesOfAll)

/-! ### Trees of a field -/

/-- What stands behind the type of a field. -/
inductive TagTrees : List Tree → Option Text → Prop where
  | none : TagTrees [] none
  | some {trivia : List Tree} {literal rest : Text} (between : ∀ tree ∈ trivia, tree.isTrivia)
      (read : string? (literal ++ rest) = some (literal, rest)) :
      TagTrees (trivia ++ [.node .fieldTag [.leaf .token literal]]) (some literal)

/-- A word that is read as an identifier somewhere. -/
def IsWord (word : Text) : Prop :=
  ∃ rest, identifier? (word ++ rest) = some (word, rest)

/-- The further names of a field, each behind a comma. -/
inductive NameTrees : List Tree → List Text → Prop where
  | nil : NameTrees [] []
  | cons {trivia between more : List Tree} {name : Text} {names : List Text}
      (before : ∀ tree ∈ trivia, tree.isTrivia) (behind : ∀ tree ∈ between, tree.isTrivia)
      (word : IsWord name) (later : NameTrees more names) :
      NameTrees (trivia ++ (.leaf .token [','] ::
        (between ++ (.node .fieldName [.leaf .token name] :: more)))) (name :: names)

/-- What a field node holds: names and a type, or a type alone with at most a star in front of it. -/
inductive FieldTrees : List Tree → List Text → Option Text → Prop where
  | named {name : Text} {names : List Text} {more between inner tagged : List Tree} {tag : Option Text}
      (word : IsWord name) (others : NameTrees more names) (gap : ∀ tree ∈ between, tree.isTrivia)
      (ending : TagTrees tagged tag) :
      FieldTrees (.node .fieldName [.leaf .token name] ::
        (more ++ (between ++ (.node .fieldType inner :: tagged)))) (name :: names) tag
  | embedded {front inner tagged : List Tree} {tag : Option Text}
      (unnamed : ∀ tree ∈ front, ∃ kind text, tree = .leaf kind text) (ending : TagTrees tagged tag) :
      FieldTrees (front ++ (.node .fieldType inner :: tagged)) [] tag

theorem wrap_trivia (kind : NodeKind) {trivia : List Tree} (between : ∀ tree ∈ trivia, tree.isTrivia)
    (text : Text) :
    Tree.wrap kind (trivia ++ [.leaf .token text]) = trivia ++ [.node kind [.leaf .token text]] := by
  have solid : (Tree.leaf .token text).isTrivia = false := rfl
  rw [Tree.wrap, List.takeWhile_append_of_pos between, List.dropWhile_append_of_pos between]
  simp [solid]

theorem derives_name {trees : List Tree} (made : Derives rules (node .fieldName name) trees) :
    ∃ trivia word, (∀ tree ∈ trivia, tree.isTrivia) ∧ IsWord word ∧
      trees = trivia ++ [.node .fieldName [.leaf .token word]] := by
  cases made with
  | node made =>
    unfold name at made
    cases made with
    | @token _ here trivia word rest between spelled =>
      have read : identifier? (word ++ rest) = some (word, rest) := by
        simp only [Token.read?] at spelled
        split at spelled
        next found left same =>
          split at spelled
          · cases spelled
          · cases spelled; exact same
        next => cases spelled
      exact ⟨trivia, word, between, ⟨rest, read⟩, wrap_trivia .fieldName between word⟩

theorem derives_tag {trees : List Tree} (made : Derives rules (opt fieldTag) trees) :
    ∃ tag, TagTrees trees tag := by
  cases made with
  | optNone => exact ⟨none, .none⟩
  | optSome made =>
    unfold fieldTag at made
    cases made with
    | node made =>
      unfold string at made
      cases made with
      | @token _ here trivia literal rest between spelled =>
        refine ⟨some literal, ?_⟩
        have shape : Tree.wrap .fieldTag (trivia ++ [.leaf Token.string.leafKind literal]) = _ :=
          wrap_trivia .fieldTag between literal
        rw [shape]
        exact .some between spelled

theorem derives_names {trees : List Tree}
    (made : Derives rules (many (seq (mark ",") (node .fieldName name))) trees) :
    ∃ names, NameTrees trees names := by
  generalize round : many (seq (mark ",") (node .fieldName name)) = rule at made
  induction made with
  | manyNone => exact ⟨[], .nil⟩
  | @manySome rule trees more left right _ later =>
    cases round
    obtain ⟨names, others⟩ := later rfl
    cases left with
    | seq comma word =>
      obtain ⟨trivia, before, rfl⟩ := derives_mark comma
      obtain ⟨between, name, behind, isWord, rfl⟩ := derives_name word
      refine ⟨name :: names, ?_⟩
      have all := NameTrees.cons before behind isWord others
      simpa using all
  | _ => cases round

theorem derives_field {trees : List Tree}
    (made : Derives rules (alt (embeddedField fieldTypeArguments) namedField) trees) :
    ∃ names tag, FieldTrees (trees.dropWhile Tree.isTrivia) names tag := by
  have drops {trivia rest : List Tree} (gap : ∀ tree ∈ trivia, tree.isTrivia) {tree : Tree}
      (solid : tree.isTrivia = false) : (trivia ++ tree :: rest).dropWhile Tree.isTrivia = tree :: rest := by
    rw [List.dropWhile_append_of_pos gap, List.dropWhile_cons_of_neg (by simp [solid])]
  have isLeaf {tree : Tree} (trivia : tree.isTrivia) : ∃ kind text, tree = .leaf kind text := by
    cases tree with
    | leaf kind text => exact ⟨kind, text, rfl⟩
    | node kind children => cases trivia
  cases made with
  | altLeft made =>
    cases made with
    | seq type rest =>
      cases rest with
      | seq ending ahead =>
        cases ahead
        obtain ⟨tag, tagged⟩ := derives_tag ending
        rw [List.append_nil]
        cases type with
        | altLeft type =>
          obtain ⟨trivia, inner, gap, rfl⟩ := derives_node type
          refine ⟨[], tag, ?_⟩
          rw [List.append_assoc, List.singleton_append, drops gap rfl]
          exact .embedded (List.forall_mem_nil _) tagged
        | altRight pointer =>
          cases pointer with
          | seq star type =>
            obtain ⟨trivia, gap, rfl⟩ := derives_mark star
            obtain ⟨between, inner, behind, rfl⟩ := derives_node type
            refine ⟨[], tag, ?_⟩
            rw [List.append_assoc, List.append_assoc, List.singleton_append, drops gap rfl]
            have unnamed : ∀ tree ∈ .leaf .token "*".toList :: between,
                ∃ kind text, tree = .leaf kind text :=
              List.forall_mem_cons.2 ⟨⟨_, _, rfl⟩, fun tree inside => isLeaf (behind tree inside)⟩
            have all := @FieldTrees.embedded _ inner _ _ unnamed tagged
            simpa using all
  | altRight made =>
    cases made with
    | seq names rest =>
      cases rest with
      | seq type ending =>
        obtain ⟨tag, tagged⟩ := derives_tag ending
        cases names with
        | seq first others =>
          obtain ⟨trivia, name, gap, word, rfl⟩ := derives_name first
          obtain ⟨names, later⟩ := derives_names others
          obtain ⟨between, inner, behind, rfl⟩ := derives_node type
          refine ⟨name :: names, tag, ?_⟩
          rw [List.append_assoc, List.append_assoc, List.singleton_append, drops gap rfl]
          have all := @FieldTrees.named _ _ _ _ inner _ _ word later behind tagged
          simpa using all

/-! ### Words -/

/-- A mark that does not start as a word does. -/
def Token.keepsWords : Token → Bool
  | mark spelling _ => spelling.head?.all (!startsIdentifier ·)
  | _ => true

/-- What all tokens of the grammar have in common. -/
def Token.Known (symbol : Token) : Prop :=
  symbol.isPlain ∧ symbol.keepsWords

theorem Grammar.rules_known (name : Name) : ∀ symbol ∈ (rules name).tokens, symbol.Known := by
  have all : (rules name).tokens.all fun symbol => symbol.isPlain && symbol.keepsWords := by
    cases name <;> decide +kernel
  simpa [Token.Known] using List.all_eq_true.1 all

theorem Grammar.file_known : ∀ symbol ∈ file.tokens, symbol.Known := by
  have all : file.tokens.all fun symbol => symbol.isPlain && symbol.keepsWords := by decide +kernel
  simpa [Token.Known] using List.all_eq_true.1 all

theorem startsIdentifier_of_isDigit {c : Char} (digit : c.isDigit) : startsIdentifier c = false := by
  have digits : ∀ code < 58, 48 ≤ code → startsIdentifier (Char.ofNat code) = false := by decide
  have range : 48 ≤ c.toNat ∧ c.toNat ≤ 57 := by
    simpa [Char.isDigit, UInt32.le_iff_toNat_le] using digit
  rw [← Char.ofNat_toNat c]
  exact digits c.toNat (by omega) range.1

/-- The characters with which the other tokens start. -/
def otherHeads : List Char :=
  ".\x22\x60\x27\n;\x00<>&=!|*/%+-^:".toList

theorem otherHeads_start_none : otherHeads.all (!startsIdentifier ·) := by
  decide +kernel

theorem Token.word_of_starts {symbol : Token} {c : Char} (keeps : symbol.keepsWords)
    (letter : startsIdentifier c) (starts : symbol.starts c) :
    (∃ spelling, symbol = .word spelling) ∨ (∃ reserved, symbol = .name reserved) ∨
      ∃ notBefore, symbol = .mark [] notBefore := by
  have other (inside : c ∈ otherHeads) : False := by
    have none := List.all_eq_true.1 otherHeads_start_none c inside
    rw [letter] at none
    cases none
  have tabled {spellings : List Text} (known : spellings.all (·.head?.all (otherHeads.contains ·)))
      (first : spellings.any (·.head? == some c)) : c ∈ otherHeads := by
    obtain ⟨spelling, inside, head⟩ := List.any_eq_true.1 first
    have held := List.all_eq_true.1 known spelling inside
    rw [beq_iff_eq.1 head] at held
    simpa using held
  cases symbol with
  | word spelling => exact .inl ⟨spelling, rfl⟩
  | name reserved => exact .inr (.inl ⟨reserved, rfl⟩)
  | mark spelling notBefore =>
    cases spelling with
    | nil => exact .inr (.inr ⟨notBefore, rfl⟩)
    | cons d spelling =>
      have same : d = c := by simpa [Token.starts] using starts
      rw [Token.keepsWords, same] at keeps
      simp [letter] at keeps
  | number =>
    simp only [Token.starts, Bool.or_eq_true, beq_iff_eq] at starts
    rcases starts with digit | rfl
    · rw [startsIdentifier_of_isDigit digit] at letter
      cases letter
    · exact (other (by decide)).elim
  | string =>
    simp only [Token.starts, Bool.or_eq_true, beq_iff_eq] at starts
    rcases starts with rfl | rfl <;> exact (other (by decide)).elim
  | rune => exact (other (by rw [beq_iff_eq.1 starts]; decide)).elim
  | operator => exact (other (tabled (by decide) starts)).elim
  | assignment => exact (other (tabled (by decide) starts)).elim
  | terminator =>
    simp only [Token.starts, Bool.or_eq_true, beq_iff_eq] at starts
    rcases starts with (rfl | rfl) | rfl <;> exact (other (by decide)).elim
  | ending => cases starts

/-- A word in a file is read as one where it stands. -/
theorem IsWord.read {word after : Text} (isWord : IsWord word)
    (fits : LeafFits Token.Known (.leaf .token word) after) :
    identifier? (word ++ after) = some (word, after) := by
  obtain ⟨rest, whole⟩ := isWord
  obtain ⟨c, more, rfl, letter, -, -⟩ := identifier?_parts whole
  generalize leaf : Tree.leaf .token (c :: more) = tree at fits
  cases fits with
  | blank => cases leaf
  | comment => cases leaf
  | @token symbol here text after held code read =>
    obtain ⟨-, rfl⟩ := Tree.leaf.inj leaf
    rcases Token.word_of_starts held.2 letter (Token.starts_of_read? read) with
      ⟨spelling, rfl⟩ | ⟨reserved, rfl⟩ | ⟨notBefore, rfl⟩
    · simp only [Token.read?] at read
      split at read
      next found left same =>
        split at read
        next => cases read; exact same
        next => cases read
      next => cases read
    · simp only [Token.read?] at read
      split at read
      next found left same =>
        split at read
        next => cases read
        next => cases read; exact same
      next => cases read
    · simp only [Token.read?, after?] at read
      split at read
      · cases read
      · cases read

/-! ### Tokens of the parts of a field -/

theorem LeafFits.mono {known more : Token → Prop} (weaker : ∀ symbol, known symbol → more symbol)
    {leaf : Tree} {after : Text} (fits : LeafFits known leaf after) : LeafFits more leaf after := by
  cases fits with
  | blank gap => exact .blank gap
  | comment read => exact .comment read
  | token held code read => exact .token (weaker _ held) code read

theorem Fits.mono {known more : Token → Prop} (weaker : ∀ symbol, known symbol → more symbol)
    {leaves : List Tree} {after : Text} (fits : Fits known leaves after) : Fits more leaves after := by
  induction leaves with
  | nil => trivial
  | cons leaf rest ih => exact ⟨fits.1.mono weaker, ih fits.2⟩

section Parts

variable {known : Token → Prop} {trivia : List Tree} {after tail : Text}

/-- Trivia is white space or a comment. -/
theorem LeafFits.passed {leaf : Tree} (fits : LeafFits known leaf after) (isTrivia : leaf.isTrivia) :
    (∀ c ∈ leaf.text, isGap c) ∨ comment? (leaf.text ++ after) = some (leaf.text, after) := by
  cases fits with
  | blank gap => exact .inl gap
  | comment read => exact .inr read
  | @token symbol => cases symbol <;> cases isTrivia

theorem tokens_trivia (fits : Fits known trivia after) (between : ∀ tree ∈ trivia, tree.isTrivia)
    (initial : tail <+: after) : tokens (Tree.textOfAll trivia ++ tail) = tokens tail := by
  induction trivia with
  | nil => rfl
  | cons leaf rest ih =>
    obtain ⟨first, others⟩ := List.forall_mem_cons.1 between
    rw [Tree.textOfAll, List.append_assoc]
    rcases fits.1.passed first with gap | read
    · rw [tokens_gap gap]
      exact ih fits.2 others
    · have shorter := (List.prefix_append_right_inj (Tree.textOfAll rest)).2 initial
      rw [tokens_comment (comment?_shortened shorter read)]
      exact ih fits.2 others

theorem bordered_trivia (fits : Fits known trivia after) (between : ∀ tree ∈ trivia, tree.isTrivia)
    (bordered : Bordered tail) : Bordered (Tree.textOfAll trivia ++ tail) := by
  induction trivia with
  | nil => exact bordered
  | cons leaf rest ih =>
    obtain ⟨first, others⟩ := List.forall_mem_cons.1 between
    have later := ih fits.2 others
    rw [Tree.textOfAll, List.append_assoc]
    cases text : leaf.text with
    | nil => exact later
    | cons c more =>
      intro b head
      cases head
      rcases fits.1.passed first with gap | read
      · rw [text] at gap
        exact List.mem_append_right _ (mem_gaps_of_isGap (gap c List.mem_cons_self))
      · have slash := comment?_head read
        rw [text] at slash
        cases slash
        decide

theorem leavesOfAll_wrapped (kind : NodeKind) (text : Text) (rest : List Tree) :
    leavesOfAll (.node kind [.leaf .token text] :: rest) = .leaf .token text :: leavesOfAll rest :=
  rfl

theorem textOfAll_wrapped (kind : NodeKind) (text : Text) (rest : List Tree) :
    Tree.textOfAll (.node kind [.leaf .token text] :: rest) = text ++ Tree.textOfAll rest := by
  simp [Tree.textOfAll, Tree.text]

theorem bordered_string {literal rest : Text} (read : string? (literal ++ rest) = some (literal, rest))
    (other : Text) : Bordered (literal ++ other) := by
  intro b head
  cases literal with
  | nil => exact absurd (string?_shorter read) (Nat.lt_irrefl _)
  | cons c more =>
    cases head
    have quote := Token.starts_of_string? read
    simp only [Token.starts, Bool.or_eq_true, beq_iff_eq] at quote
    rcases quote with rfl | rfl <;> decide

theorem identifier?_shortened {word : Text} (read : identifier? (word ++ after) = some (word, after))
    (initial : tail <+: after) : identifier? (word ++ tail) = some (word, tail) := by
  obtain ⟨-, -, -, -, -, stops⟩ := identifier?_parts read
  refine identifier?_behind read fun c head => stops c ?_
  obtain ⟨more, rfl⟩ := initial
  rw [List.head?_append, head]
  rfl

theorem tokens_tag {tagged : List Tree} {tag : Option Text} (ending : TagTrees tagged tag)
    (fits : Fits known (leavesOfAll tagged) after) :
    tokens (Tree.textOfAll tagged) = tag.toList ∧ Bordered (Tree.textOfAll tagged) := by
  cases ending with
  | none => exact ⟨rfl, nofun⟩
  | @some trivia literal rest between read =>
    rw [Tree.leavesOfAll_append, Tree.leavesOfAll_trivia between, leavesOfAll_wrapped, fits_append] at fits
    have closed := string?_closed read []
    have spelled : Tree.textOfAll (leavesOfAll []) = [] := rfl
    rw [Tree.textOfAll_append, textOfAll_wrapped]
    constructor
    · have initial : literal ++ [] <+: Tree.textOfAll (.leaf .token literal :: leavesOfAll []) ++ after := by
        simp [Tree.textOfAll, Tree.text, spelled]
      rw [show Tree.textOfAll [] = [] from rfl, tokens_trivia fits.1 between initial, tokens_string closed]
      rfl
    · exact bordered_trivia fits.1 between (bordered_string read _)

theorem tokens_names {trees : List Tree} {names : List Text} (others : NameTrees trees names)
    (fits : Fits Token.Known (leavesOfAll trees) after) (initial : tail <+: after) :
    tokens (Tree.textOfAll trees ++ tail) = names.flatMap (fun name => [[','], name]) ++ tokens tail := by
  induction others with
  | nil => rfl
  | @cons trivia between more name names before behind word later ih =>
    have leaves : leavesOfAll (trivia ++ (.leaf .token [','] ::
        (between ++ (.node .fieldName [.leaf .token name] :: more)))) =
        trivia ++ (.leaf .token [','] :: (between ++ (.leaf .token name :: leavesOfAll more))) := by
      rw [Tree.leavesOfAll_append, Tree.leavesOfAll_trivia before]
      show trivia ++ (.leaf .token [','] :: leavesOfAll (between ++ _)) = _
      rw [Tree.leavesOfAll_append, Tree.leavesOfAll_trivia behind]
      rfl
    rw [leaves, fits_append] at fits
    obtain ⟨first, -, rest⟩ := fits
    rw [fits_append] at rest
    obtain ⟨second, own, others⟩ := rest
    have spelled : Tree.textOfAll (leavesOfAll more) = Tree.textOfAll more := Tree.textOfAll_leavesOfAll more
    have shorter := (List.prefix_append_right_inj (Tree.textOfAll more)).2 initial
    rw [spelled] at own
    have read := identifier?_shortened (word.read own) shorter
    have named := (List.prefix_append_right_inj name).2 shorter
    have spaced := (List.prefix_append_right_inj (Tree.textOfAll between)).2 named
    have marked := (List.prefix_append_right_inj [',']).2 spaced
    calc tokens (Tree.textOfAll (trivia ++ (.leaf .token [','] ::
          (between ++ (.node .fieldName [.leaf .token name] :: more)))) ++ tail)
        = tokens (Tree.textOfAll trivia ++ ([','] ++ (Tree.textOfAll between ++
            (name ++ (Tree.textOfAll more ++ tail))))) := by simp [Tree.textOfAll, Tree.text]
      _ = tokens (',' :: (Tree.textOfAll between ++ (name ++ (Tree.textOfAll more ++ tail)))) := by
        refine tokens_trivia first before ?_
        simpa [Tree.textOfAll, Tree.text, spelled] using marked
      _ = [','] :: tokens (name ++ (Tree.textOfAll more ++ tail)) := by
        rw [tokens_comma, tokens_trivia second behind]
        simpa [Tree.textOfAll, Tree.text, spelled] using named
      _ = [','] :: name :: (names.flatMap (fun name => [[','], name]) ++ tokens tail) := by
        rw [tokens_identifier read, ih others]

/-- Names with commas between them. -/
theorem tokens_join {name : Text} {names : List Text} (word : IsWord name)
    (words : ∀ name ∈ names, IsWord name) :
    tokens (join ", ".toList (name :: names)) = name :: names.flatMap fun name => [[','], name] := by
  induction names generalizing name with
  | nil =>
    obtain ⟨rest, read⟩ := word
    have alone : identifier? (name ++ []) = some (name, []) :=
      identifier?_behind read fun c head => nomatch head
    have whole := tokens_identifier alone
    rwa [List.append_nil] at whole
  | cons next names ih =>
    obtain ⟨own, others⟩ := List.forall_mem_cons.1 words
    obtain ⟨rest, read⟩ := word
    have shape : join ", ".toList (name :: next :: names) =
        name ++ ',' :: ([' '] ++ join ", ".toList (next :: names)) := by
      simp [join]
    have first := identifier?_behind read (fun c head => by cases head; decide : ∀ c,
      (',' :: ([' '] ++ join ", ".toList (next :: names))).head? = some c → continuesIdentifier c = false)
    rw [shape, tokens_identifier first, tokens_comma, tokens_gap (List.forall_mem_singleton.2 rfl),
      ih own others]
    rfl

/-- A tag stands apart from what is in front of it. -/
theorem tokens_tagged {typed tagged : List Tree} {tag : Option Text} (ending : TagTrees tagged tag)
    (fits : Fits Token.Known (leavesOfAll (typed ++ tagged)) after) :
    tokens (Tree.textOfAll (typed ++ tagged)) = tokens (Tree.textOfAll typed) ++ tag.toList := by
  rw [Tree.leavesOfAll_append, fits_append, Tree.textOfAll_leavesOfAll] at fits
  obtain ⟨found, bordered⟩ := tokens_tag ending fits.2
  have plain := fits.1.mono fun symbol known => known.1
  have runs : Runs (Tree.textOfAll tagged) (Tree.textOfAll (leavesOfAll typed)) :=
    Runs.leaves plain (List.prefix_append _ after)
  rw [Tree.textOfAll_leavesOfAll] at runs
  rw [Tree.textOfAll_append, tokens_append runs bordered, found]

theorem NameTrees.words {trees : List Tree} {names : List Text} (others : NameTrees trees names) :
    ∀ name ∈ names, IsWord name := by
  induction others with
  | nil => exact List.forall_mem_nil _
  | cons before behind word later ih => exact List.forall_mem_cons.2 ⟨word, ih⟩

/-- The tokens of a field with names: those of its names, of its type and of its tag. -/
theorem tokens_named {name : Text} {names : List Text} {more between tagged : List Tree} {type : Tree}
    {tag : Option Text} (word : IsWord name) (others : NameTrees more names)
    (gap : ∀ tree ∈ between, tree.isTrivia) (ending : TagTrees tagged tag)
    (fits : Fits Token.Known (leavesOfAll (.node .fieldName [.leaf .token name] ::
      (more ++ (between ++ (type :: tagged))))) after) :
    tokens (Tree.textOfAll (.node .fieldName [.leaf .token name] ::
        (more ++ (between ++ (type :: tagged))))) =
      tokens (join ", ".toList (name :: names)) ++ (tokens type.text ++ tag.toList) := by
  rw [leavesOfAll_wrapped] at fits
  obtain ⟨own, rest⟩ := fits
  rw [Tree.textOfAll_leavesOfAll] at own
  rw [Tree.leavesOfAll_append, fits_append, Tree.textOfAll_leavesOfAll] at rest
  obtain ⟨second, rest⟩ := rest
  rw [Tree.leavesOfAll_append, Tree.leavesOfAll_trivia gap, fits_append, Tree.textOfAll_leavesOfAll] at rest
  obtain ⟨third, last⟩ := rest
  have typed : tokens (Tree.textOfAll (type :: tagged)) = tokens type.text ++ tag.toList := by
    have both := @tokens_tagged after [type] tagged tag ending last
    simpa [Tree.textOfAll] using both
  have read := identifier?_shortened (word.read own) (List.prefix_append _ after)
  rw [textOfAll_wrapped, tokens_identifier read, Tree.textOfAll_append,
    tokens_names others second (List.prefix_append _ after), Tree.textOfAll_append,
    tokens_trivia third gap (List.prefix_append _ after), typed, tokens_join word others.words]
  rfl

end Parts

/-! ### The parts that a field is read from -/

theorem isNode_of_isTrivia {tree : Tree} (trivia : tree.isTrivia) (kind : NodeKind) :
    tree.isNode kind = false := by
  cases tree with
  | leaf => rfl
  | node => cases trivia

/-- No part in front of the type is a type or a tag. -/
def Leads (front : List Tree) (names : List Text) : Prop :=
  (∀ tree ∈ front, tree.isNode .fieldType = false ∧ tree.isNode .fieldTag = false) ∧
    (front.filter (Tree.isNode .fieldName)).map Tree.text = names

theorem leads_of_others {front : List Tree}
    (others : ∀ tree ∈ front, ∀ kind, tree.isNode kind = false) : Leads front [] := by
  refine ⟨fun tree inside => ⟨others tree inside _, others tree inside _⟩, ?_⟩
  rw [List.filter_eq_nil_iff.2 fun tree inside => by simp [others tree inside]]
  rfl

theorem Leads.append {first second : List Tree} {names more : List Text} (one : Leads first names)
    (other : Leads second more) : Leads (first ++ second) (names ++ more) := by
  refine ⟨fun tree inside => (List.mem_append.1 inside).elim (one.1 tree) (other.1 tree), ?_⟩
  rw [List.filter_append, List.map_append, one.2, other.2]

theorem leads_trivia {trivia : List Tree} (between : ∀ tree ∈ trivia, tree.isTrivia) : Leads trivia [] :=
  leads_of_others fun tree inside => isNode_of_isTrivia (between tree inside)

theorem leads_name (name : Text) : Leads [.node .fieldName [.leaf .token name]] [name] :=
  ⟨by simp [Tree.isNode], by simp [Tree.isNode, Tree.text, Tree.textOfAll]⟩

theorem NameTrees.leads {trees : List Tree} {names : List Text} (others : NameTrees trees names) :
    Leads trees names := by
  induction others with
  | nil => exact leads_of_others (List.forall_mem_nil _)
  | @cons trivia between more name names before behind word later ih =>
    have comma : Leads [.leaf .token [',']] [] := leads_of_others (by simp [Tree.isNode])
    have all := (leads_trivia before).append (comma.append ((leads_trivia behind).append
      ((leads_name name).append ih)))
    simpa using all

/-- The tokens of a field, where it is cut at its type. -/
theorem FieldTrees.tokens_parts {parts : List Tree} {names : List Text} {tag : Option Text} {after : Text}
    (trees : FieldTrees parts names tag) (fits : Fits Token.Known (leavesOfAll parts) after) :
    ∃ front inner tagged, parts = front ++ .node .fieldType inner :: tagged ∧ Leads front names ∧
      TagTrees tagged tag ∧
      tokens (Tree.textOfAll parts) =
        (if names.isEmpty then tokens (Tree.textOfAll (front ++ [.node .fieldType inner]))
          else tokens (join ", ".toList names) ++ tokens (Tree.textOfAll inner)) ++ tag.toList := by
  cases trees with
  | @named name names more between inner tagged tag word others gap ending =>
    refine ⟨.node .fieldName [.leaf .token name] :: (more ++ between), inner, tagged, by simp, ?_,
      ending, ?_⟩
    · have all := (leads_name name).append (others.leads.append (leads_trivia gap))
      simpa using all
    · rw [tokens_named word others gap ending fits, ← List.append_assoc]
      rfl
  | @embedded front inner tagged tag unnamed ending =>
    refine ⟨front, inner, tagged, rfl, leads_of_others fun tree inside kind => ?_, ending, ?_⟩
    · obtain ⟨leafKind, text, rfl⟩ := unnamed tree inside
      rfl
    · rw [List.append_cons] at fits ⊢
      exact tokens_tagged ending fits

theorem TagTrees.find? {tagged : List Tree} {tag : Option Text} (ending : TagTrees tagged tag) :
    (tagged.find? (Tree.isNode .fieldTag)).map Tree.text = tag ∧
      tagged.filter (Tree.isNode .fieldName) = [] := by
  cases ending with
  | none => exact ⟨rfl, rfl⟩
  | @some trivia literal rest between read =>
    have others (kind : NodeKind) : ∀ tree ∈ trivia, ¬ tree.isNode kind := by
      intro tree inside
      simp [isNode_of_isTrivia (between tree inside)]
    rw [List.find?_append, List.find?_eq_none.2 (others .fieldTag), List.filter_append,
      List.filter_eq_nil_iff.2 (others .fieldName)]
    simp [Tree.isNode, Tree.text, Tree.textOfAll]

theorem TagTrees.tokens_own {tagged : List Tree} {tag : Option Text} (ending : TagTrees tagged tag) :
    ∀ literal ∈ tag, tokens literal = [literal] := by
  cases ending with
  | none => nofun
  | @some trivia literal rest between read =>
    rintro _ ⟨⟩
    have alone := tokens_string (string?_closed read [])
    rwa [List.append_nil] at alone

end GoGraft.Go

namespace GoGraft

open Go

/-- The text of a field up to the end of its type. -/
def Located.upToType (node : Located) : Text :=
  (node.children.takeWhile fun child => !child.isNode .fieldType).flatMap Located.text ++
    ((node.node? .fieldType).map Located.text).getD []

/-- The type of an embedded field is written without its blanks. -/
theorem Field.type_of_isEmbedded {node : Located} (embedded : (Field.ofNode node).isEmbedded) :
    (Field.ofNode node).type = bare node.upToType :=
  if_pos embedded

/-- Whether the cells of a line with a field have the tokens that the field has in the source. -/
def Located.KeepsTokens (node : Located) (comment : Option Text) : Prop :=
  ((Field.ofNode node).cells comment).flatMap tokens = tokens node.text

/-- The tokens of the cells behind the type: that of the tag. -/
theorem Field.tokens_ending {field : Field} {comment : Option Text}
    (silent : ∀ text ∈ comment, tokens text = []) (own : ∀ tag ∈ field.tag, tokens tag = [tag]) :
    (match field.tag, comment with
      | some tag, some comment => [tag, comment]
      | some tag, none => [tag]
      | none, some comment => List.replicate (if field.isEmbedded then 2 else 1) [] ++ [comment]
      | none, none => []).flatMap tokens = field.tag.toList := by
  cases tag : field.tag with
  | none =>
    cases comment with
    | none => rfl
    | some text => cases field.isEmbedded <;> simp [silent text rfl, List.replicate]
  | some literal =>
    have alone := own literal tag
    cases comment with
    | none => simp [alone]
    | some text => simp [alone, silent text rfl]

/-- The tokens of the cells: those of the names, of the type and of the tag. -/
theorem Field.tokens_cells {field : Field} {comment : Option Text}
    (silent : ∀ text ∈ comment, tokens text = []) (own : ∀ tag ∈ field.tag, tokens tag = [tag]) :
    (field.cells comment).flatMap tokens =
      (if field.names.isEmpty then tokens field.type
        else tokens (Text.join ", ".toList field.names) ++ tokens field.type) ++ field.tag.toList := by
  have front : (if field.isEmbedded then [] else [Text.join ", ".toList field.names]).flatMap tokens ++
      tokens field.type = if field.names.isEmpty then tokens field.type
        else tokens (Text.join ", ".toList field.names) ++ tokens field.type := by
    rw [Field.isEmbedded]
    split <;> simp
  rw [← front, ← Field.tokens_ending silent own, List.append_assoc, ← List.flatMap_cons,
    ← List.flatMap_append]
  rfl

/-- A field with names keeps its tokens, and an embedded one if its type does. -/
theorem keepsTokens_of_parts {node : Located} {parts : List Go.Tree} {names : List Text}
    {tag comment : Option Text} {after : Text} (form : node.tree = .node .field parts)
    (trees : FieldTrees parts names tag) (fits : Fits Token.Known (Go.Tree.leavesOfAll parts) after)
    (silent : ∀ text ∈ comment, tokens text = []) :
    ((Field.ofNode node).isEmbedded = false → node.KeepsTokens comment) ∧
      ((Field.ofNode node).isEmbedded → (node.KeepsTokens comment ↔
        tokens (bare node.upToType) = tokens node.upToType)) := by
  obtain ⟨front, inner, tagged, split, leads, ending, all⟩ := trees.tokens_parts fits
  have untyped : ∀ tree ∈ front, tree.isNode .fieldType = false :=
    fun tree inside => (leads.1 tree inside).1
  have untagged : front.find? (Go.Tree.isNode .fieldTag) = none :=
    List.find?_eq_none.2 fun tree inside => by simp [(leads.1 tree inside).2]
  have ownNames : (Field.ofNode node).names = names := by
    rw [names_ofNode form, split, List.filter_append, List.filter_cons_of_neg (by simp [Go.Tree.isNode]),
      ending.find?.2, List.append_nil, leads.2]
  have ownTag : (Field.ofNode node).tag = tag := by
    rw [tag_ofNode form, split, List.find?_append, untagged,
      List.find?_cons_of_neg (by simp [Go.Tree.isNode])]
    exact ending.find?.1
  obtain ⟨type, before⟩ := type_of_parts form split untyped
  have declared : node.upToType = Go.Tree.textOfAll (front ++ [.node .fieldType inner]) := by
    rw [Located.upToType, type, before, Go.Tree.textOfAll_append]
    simp [Go.Tree.textOfAll, Go.Tree.text]
  have text : node.text = Go.Tree.textOfAll parts := by
    rw [Located.text, form, Go.Tree.text]
  have cells := @Field.tokens_cells (Field.ofNode node) comment silent (ownTag ▸ ending.tokens_own)
  rw [Located.KeepsTokens, cells, ownNames, ownTag, text, all, type_ofNode form split untyped, ownNames,
    Field.isEmbedded, ownNames, declared]
  cases names with
  | nil => exact ⟨fun named => (by cases named), fun _ => List.append_left_inj _⟩
  | cons => exact ⟨fun _ => rfl, fun unnamed => by cases unnamed⟩

section Read

variable {source : Text} {trees : List Go.Tree} (parsed : Go.parse? source = some trees)
include parsed

theorem fits_within {located : Located} (within : Located.Within (Located.sideBySide {} trees) located) :
    ∃ after, Fits Token.Known located.tree.leaves after := by
  have whole := parse?_fits_of Grammar.rules_known Grammar.file_known parsed
  obtain ⟨front, back, leaves, -, -⟩ := within.split
  rw [leaves, List.append_assoc, fits_append, fits_append] at whole
  exact ⟨_, whole.2.1⟩

theorem tokens_of_isComment {item : Located} (within : Located.Within (Located.sideBySide {} trees) item)
    (comment : item.isComment) : tokens item.text = [] := by
  obtain ⟨text, same⟩ := Located.isComment_iff.1 comment
  obtain ⟨after, fits⟩ := fits_within parsed within
  rw [same] at fits
  have alone := tokens_trivia fits (by simp [Go.Tree.isTrivia, Go.Tree.leaves]) List.nil_prefix
  rw [Located.text, same]
  simpa [Go.Tree.leaves, Go.Tree.textOfAll] using alone

/-- What holds for any field line of a list of fields. -/
theorem keepsTokens_of_line {line : ItemLine} (placed : line.Placed trees) (single : line.isFieldLine)
    {comment : Option Text} (texts : line.rest.map Located.text = comment.toList) :
    ((Field.ofNode line.first).isEmbedded = false → line.first.KeepsTokens comment) ∧
      ((Field.ofNode line.first).isEmbedded → (line.first.KeepsTokens comment ↔
        tokens (bare line.first.upToType) = tokens line.first.upToType)) := by
  obtain ⟨kind, behind, rest, comments⟩ := ItemLine.of_isFieldLine single
  obtain ⟨children, form⟩ := Located.isNode_iff.1 kind
  have within := placed.within line.first List.mem_cons_self
  obtain ⟨after, fits⟩ := fits_within parsed within
  rw [form] at fits
  obtain ⟨rule, whole, rfl, made, rfl⟩ := node_contents parsed (form ▸ (within.partOf parsed).occurs)
  obtain ⟨names, tag, fieldTrees⟩ := derives_field made
  refine keepsTokens_of_parts form fieldTrees fits fun text held => ?_
  obtain ⟨item, inside, rfl⟩ : ∃ item ∈ line.rest, item.text = text := by
    have listed : text ∈ comment.toList := Option.mem_toList.2 held
    rw [← texts] at listed
    exact List.mem_map.1 listed
  have isComment : item.isComment := comments item (by simpa [rest] using inside)
  exact tokens_of_isComment parsed (placed.within item (List.mem_cons_of_mem _ inside)) isComment

end Read

/-- The cells of each line with a field have the tokens that the field has in the source, if it has
names. An embedded field keeps them exactly if its type does without blanks: where only blanks stand
between tokens, if each token is still read by itself. -/
theorem field_cells_keep_tokens {source : Text} {file : SourceFile}
    (read : SourceFile.parse? source = some file) :
    ∃ trees, Go.parse? source = some trees ∧
      ∀ struct ∈ file.structs, ∀ index comment, BodyLine.field index comment ∈ struct.body.lines →
        ∃ node : Located, node.PartOf source trees ∧ node.isNode .field ∧
          struct.fields[index]? = some (Field.ofNode node) ∧
          ((Field.ofNode node).isEmbedded = false → node.KeepsTokens comment) ∧
          ((Field.ofNode node).isEmbedded →
            (node.KeepsTokens comment ↔ tokens (Field.ofNode node).type = tokens node.upToType) ∧
            (Uncommented node.upToType → (node.KeepsTokens comment ↔ ReadsBare node.upToType))) := by
  obtain ⟨trees, parsed, same⟩ := Option.map_eq_some_iff.1 read
  refine ⟨trees, parsed, fun struct inside index comment held => ?_⟩
  rw [← same] at inside
  obtain ⟨spec, declared, made⟩ := List.mem_filterMap.1 inside
  obtain ⟨type, list, -, readFrom⟩ := ofSpec?_readFrom declared made
  have shown : BodyLine.field index comment ∈ struct.body.lines.filter (· ≠ .blank) := by
    simpa using held
  obtain ⟨line, among, single, found, texts⟩ := exists_left_of_forall₂ readFrom.lines _ shown
  have placed : line.Placed trees := ItemLine.placed_of_mem_divide readFrom.list_within among
  have part := (placed.within line.first List.mem_cons_self).partOf parsed
  obtain ⟨named, embedded⟩ := keepsTokens_of_line parsed placed single texts
  refine ⟨line.first, part, (ItemLine.of_isFieldLine single).1, found, named, fun unnamed => ?_⟩
  have kept := embedded unnamed
  rw [Field.type_of_isEmbedded unnamed]
  exact ⟨kept, fun plain => kept.trans plain.tokens_bare_iff⟩

/-- Two names with a comment between them, a type with blanks, a tag and a comment behind it. -/
theorem field_cells_keep_tokens_of_names :
    let source := "package a\ntype A struct \x7b\n\tB, /**/ C [ ] d \x60e f\x60 // g\n\x7d".toList
    ∃ file, SourceFile.parse? source = some file ∧ ∃ struct ∈ file.structs,
      struct.body.lines = [.field 0 (some "// g".toList)] ∧ ∃ node : Located, node.StandsIn source ∧
        struct.fields = [Field.ofNode node] ∧ node.KeepsTokens (some "// g".toList) ∧
        tokens node.text = ["B".toList, ",".toList, "C".toList, "[".toList, "]".toList, "d".toList,
          "\x60e f\x60".toList] := by
  intro source
  let found := ["B".toList, ",".toList, "C".toList, "[".toList, "]".toList, "d".toList,
    "\x60e f\x60".toList]
  have rows : (SourceFile.parse? source).map (fun file => file.structs.map (·.body.lines)) =
      some [[.field 0 (some "// g".toList)]] := by decide +kernel
  have shown : (SourceFile.parse? source).map (fun file => file.structs.map fun struct =>
      struct.fields.map fun field => (field.isEmbedded, (field.cells (some "// g".toList)).flatMap tokens)) =
        some [[(false, found)]] := by decide +kernel
  obtain ⟨file, read, structs⟩ := Option.map_eq_some_iff.1 rows
  obtain ⟨struct, others, same, lines, -⟩ := List.map_eq_cons_iff.1 structs
  rw [read, Option.map_some, same] at shown
  have fields := (List.cons.inj (Option.some.inj shown)).1
  obtain ⟨field, more, listed, single, none⟩ := List.map_eq_cons_iff.1 fields
  obtain ⟨unembedded, cells⟩ := Prod.mk.inj single
  cases List.map_eq_nil_iff.1 none
  have inside : struct ∈ file.structs := same ▸ List.mem_cons_self
  obtain ⟨trees, -, all⟩ := field_cells_keep_tokens read
  obtain ⟨node, part, -, present, named, -⟩ :=
    all struct inside 0 (some "// g".toList) (lines ▸ List.mem_singleton_self _)
  rw [listed] at present
  cases present
  have kept := named unembedded
  exact ⟨file, read, struct, inside, lines, node, part.stands, listed, kept, kept.symm.trans cells⟩

/-- Where words stand in the arguments of an embedded type, they are written as one. -/
theorem embedded_field_joins_words :
    let source := "package a\n\ntype A struct \x7b\n\tB[chan int] // @gofield: X int\n\x7d\n".toList
    ∃ file, SourceFile.parse? source = some file ∧ ∃ struct ∈ file.structs, ∃ comment,
      struct.body.lines = [.field 0 (some comment)] ∧
        ∀ node : Located, node.StandsIn source → struct.fields[0]? = some (Field.ofNode node) →
          ¬ node.KeepsTokens (some comment) := by
  intro source
  let comment := "// @gofield: X int".toList
  have shown : (SourceFile.parse? source).map (fun file => file.structs.map fun struct =>
      (struct.body.lines, struct.fields.map fun field => (field.cells (some comment)).flatMap tokens)) =
        some [([.field 0 (some comment)], [["B".toList, "[".toList, "chanint".toList, "]".toList]])] := by
    decide +kernel
  obtain ⟨file, read, structs⟩ := Option.map_eq_some_iff.1 shown
  obtain ⟨struct, others, same, own, -⟩ := List.map_eq_cons_iff.1 structs
  obtain ⟨lines, fields⟩ := Prod.mk.inj own
  obtain ⟨field, more, listed, cells, -⟩ := List.map_eq_cons_iff.1 fields
  refine ⟨file, read, struct, same ▸ List.mem_cons_self, comment, lines, fun node stands found kept => ?_⟩
  rw [listed] at found
  cases found
  rw [Located.KeepsTokens, cells] at kept
  have within : "chanint".toList <:+: node.text := infix_of_mem_tokens (kept ▸ by decide)
  obtain ⟨front, back, split, -, -⟩ := stands
  have absent : ¬ "chanint".toList <:+: source := by decide +kernel
  exact absent (within.trans ⟨front, back, split.symm⟩)

end GoGraft
