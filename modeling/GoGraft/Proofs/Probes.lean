import GoGraft.FieldSpec
import GoGraft.Proofs.FileLayout
import GoGraft.Proofs.ImportGroups

/-! A file with a struct around a declaration. Whatever the declaration is, such a file is read as a
package clause and a struct, whose body starts with the declaration. -/

namespace GoGraft.Go

open Rule Grammar

/-! ### Blanks in front of code -/

/-- A character that is neither white space nor the first of a comment. -/
def isCode (c : Char) : Bool :=
  !(" \t\n\r\x0b\x0c/".toList.contains c)

theorem isCode_of {holds : Char → Bool} (apart : " \t\n\r\x0b\x0c/".toList.all (!holds ·)) {c : Char}
    (held : holds c) : isCode c := by
  rw [isCode, Bool.not_eq_true', List.contains_eq_mem, decide_eq_false_iff_not]
  exact Lexeme.not_mem_of apart held

theorem solid_of_isCode {newlines : Bool} {c : Char} (code : isCode c) (text : Text) :
    Solid newlines (c :: text) := by
  have apart (d : Char) (other : isCode d = false) : c ≠ d := by
    rintro rfl
    rw [code] at other
    cases other
  refine ⟨?_, ?_⟩
  · intro d first
    cases first
    simp [isBlank, Lexeme.isSpace, apart ' ' (by decide), apart '\t' (by decide),
      apart '\n' (by decide), apart '\r' (by decide), apart '\x0b' (by decide),
      apart '\x0c' (by decide)]
  · cases read : Lexeme.comment? (c :: text) with
    | none => rfl
    | some found =>
      exact absurd (Option.some.inj (Lexeme.comment?_head read)) (apart '/' (by decide))

theorem trivia_of_solid {newlines : Bool} {blanks text : Text}
    (blank : ∀ c ∈ blanks, isBlank newlines c) (solid : Solid newlines text) :
    gap newlines (blanks ++ text) = (if blanks.isEmpty then [] else [.leaf .blank blanks]) ∧
      pass newlines (blanks ++ text) = text := by
  have stop : text.takeWhile (isBlank newlines) = [] := by
    cases text with
    | nil => rfl
    | cons c text => exact List.takeWhile_cons_of_neg (by simp [solid.first c rfl])
  have whole := @takeTrivia_eq newlines _ (blanks ++ text) (Nat.lt_succ_self _)
  rw [takeTrivia_succ, List.takeWhile_append_of_pos blank, List.dropWhile_append_of_pos blank, stop,
    Text.dropWhile_of_head solid.first, List.append_nil] at whole
  simp only [solid.code] at whole
  obtain ⟨gaps, passes⟩ := Prod.mk.inj (Option.some.inj whole)
  exact ⟨gaps.symm, passes.symm⟩

theorem gap_solid {newlines : Bool} {text : Text} (solid : Solid newlines text) : gap newlines text = [] :=
  (@trivia_of_solid newlines [] text (List.forall_mem_nil _) solid).1

/-- A space between two pieces of code. -/
theorem trivia_space {newlines : Bool} {c : Char} (code : isCode c) (text : Text) :
    gap newlines (' ' :: c :: text) = [.leaf .blank [' ']] ∧ pass newlines (' ' :: c :: text) = c :: text :=
  @trivia_of_solid newlines [' '] (c :: text)
    (by intro d inside; cases List.mem_singleton.1 inside; cases newlines <;> rfl)
    (solid_of_isCode code text)

theorem opens_space {c : Char} (code : isCode c) (text : Text) :
    Opens [c] (' ' :: c :: text) := by
  intro newlines
  exact ⟨c, List.mem_singleton_self c, text, (trivia_space code text).2⟩

namespace Grammar

variable {here : Accepts} {rest : Text} {trees : List Tree}

/-! ### Declarations of types -/

/-- The named rules that fail at the word `type`; only statements start with it. -/
def failsAtType (name : Name) : Bool :=
  !([Name.statement, .statements].contains name)

theorem rules_fail_at_type (name : Name) (fails : failsAtType name) :
    (rules name).outlook (Token.refuses ["type".toList] true) failsAtType = .fails := by
  cases name <;> first | exact absurd fails (by decide) | decide

/-- An item that starts with the word `type` is a declaration of types. -/
theorem reads_item_type {text left : Text}
    (opens : Lexeme.identifier? (pass true text) = some ("type".toList, left))
    (reads : Reads rules item here text trees rest) :
    ∃ after, Reads rules typeDeclaration after text trees rest := by
  have lacks := lacks_of_opensWord (opensWord_pass (List.mem_singleton_self "type".toList) opens)
  have items : item = choice ([packageClause, importDeclaration, functionDeclaration,
    methodDeclaration] ++ within { item := true } (ref .statement) :: []) := rfl
  rw [items] at reads
  have inner := @Reads.only _ _ _ _ _ _ _ _ (fun _ => false) _ _ _ reads (by decide) (fun _ => nofun)
    (lacks false) nofun
  cases inner with
  | within inner =>
    cases inner with
    | ref inner =>
      change Reads rules statement _ _ _ _ at inner
      unfold statement at inner
      cases inner with
      | within inner =>
        cases inner with
        | expecting inner =>
          -- Where a statement may start, the word is a keyword, and so neither a label nor a name.
          have keywords : Keywords ["type".toList]
              (here ∪ { item := true } ∪ { statement := true }) := by
            intro word among
            rw [List.mem_singleton.1 among]
            exact Token.isKeyword_of_statement (Bool.or_true _) (by decide)
          cases inner with
          | commitFirst label _ =>
            exact (label.fails (by decide) rules_fail_at_type (lacks true) fun _ => keywords).elim
          | commitLast inner =>
            exact ⟨_, @Reads.only _ _ typeDeclaration _ _ _ _ _ _ _ [] _ inner (by decide)
              rules_fail_at_type (lacks true) fun _ => keywords⟩

/-- A type that starts with the word `struct` is a struct. -/
theorem reads_struct {text left : Text}
    (opens : Lexeme.identifier? (pass true text) = some ("struct".toList, left))
    (reads : Reads rules anyType here text trees rest) :
    Reads rules structType here text trees rest := by
  have lacks := lacks_of_opensWord (opensWord_pass (List.mem_singleton_self "struct".toList) opens)
  cases reads with
  | ref reads =>
    rcases reads.choice with simple | parenthesized
    · cases simple with
      | ref simple =>
        exact @Reads.only _ _ structType _ _ _ _ _ (fun _ => false) _
          [seq (typeName typeWords) (opt typeArguments), seq (mark "*") anyType,
            seq sliceHead anyType, seq arrayHead anyType] _ simple (by decide) (fun _ => nofun)
          (lacks false) nofun
    · exact (parenthesized.fails_at (by decide) (lacks false) nofun).elim

theorem identifier?_space {word : Text} (read : Lexeme.identifier? word = some (word, []))
    (text : Text) : Lexeme.identifier? (word ++ ' ' :: text) = some (word, ' ' :: text) := by
  apply Lexeme.identifier?_behind read
  intro c first
  cases first
  rfl

/-- Blanks and a word in front of a space. -/
theorem trivia_word {word : Text} (read : Lexeme.identifier? word = some (word, [])) (newlines : Bool)
    (text : Text) :
    gap newlines (' ' :: (word ++ ' ' :: text)) = [.leaf .blank [' ']] ∧
      Lexeme.identifier? (pass newlines (' ' :: (word ++ ' ' :: text))) = some (word, ' ' :: text) := by
  obtain ⟨c, more, rfl, starts, -⟩ := Lexeme.identifier?_parts read
  have blank := @trivia_space newlines c (isCode_of (by decide) starts) (more ++ ' ' :: text)
  refine ⟨blank.1, ?_⟩
  rw [List.cons_append, blank.2]
  exact identifier?_space read text

/-- A word on the next line is there only where newlines are white space. -/
theorem trivia_word_below {word text found rest : Text} {newlines : Bool}
    (read : Lexeme.identifier? word = some (word, []))
    (taken : Lexeme.identifier? (pass newlines ('\n' :: (word ++ ' ' :: text))) = some (found, rest)) :
    newlines = true ∧ gap newlines ('\n' :: (word ++ ' ' :: text)) = [.leaf .blank ['\n']] ∧
      rest = ' ' :: text := by
  obtain ⟨c, more, rfl, starts, -⟩ := Lexeme.identifier?_parts read
  cases newlines with
  | false =>
    have solid : Solid false ('\n' :: (c :: more ++ ' ' :: text)) := solid_terminator rfl _
    rw [pass_solid solid] at taken
    cases taken
  | true =>
    obtain ⟨gaps, passed⟩ := @trivia_of_solid true ['\n'] (c :: more ++ ' ' :: text)
      (List.forall_mem_singleton.2 rfl) (solid_of_isCode (isCode_of (by decide) starts) _)
    change pass true ('\n' :: (c :: more ++ ' ' :: text)) = _ at passed
    rw [passed, identifier?_space read] at taken
    cases taken
    exact ⟨rfl, gaps, rfl⟩

/-- A declaration of a struct, with the children of its list of fields. -/
def structTree (children : List Tree) : Tree :=
  .node .typeDeclaration [.leaf .token "type".toList, .leaf .blank [' '],
    .node .typeSpec [.node .specName [.leaf .token ['T']], .leaf .blank [' '],
      .node .specType [.node .struct [.leaf .token "struct".toList, .leaf .blank [' '],
        .node .fieldList children]]]]

theorem reads_structType {body : Text}
    (reads : Reads rules structType here (' ' :: ("struct".toList ++ ' ' :: '\x7b' :: body)) trees rest) :
    ∃ inner after, Reads rules (seq (opt (terminatedList field)) closeBrace) after body inner rest ∧
      trees = [.leaf .blank [' '], .node .struct [.leaf .token "struct".toList, .leaf .blank [' '],
        .node .fieldList (.leaf .token ['\x7b'] :: inner)]] := by
  obtain ⟨whole, parts, rfl⟩ := reads.children
  obtain ⟨front, middle, back, after, first, second, rfl⟩ := parts.parts
  obtain ⟨newlines, rfl, keyword⟩ := reads_word first
  obtain ⟨gaps, taken⟩ := @trivia_word "struct".toList (by decide) newlines ('\x7b' :: body)
  cases keyword.symm.trans taken
  obtain ⟨list, bracketed, rfl⟩ := second.children
  obtain ⟨opening, middle, inner, after, brace, others, rfl⟩ := bracketed.parts
  obtain ⟨wide, rfl, passed⟩ := reads_mark brace
  obtain ⟨blank, opened⟩ := @trivia_space wide '\x7b' (by decide) body
  cases opened.symm.trans passed
  refine ⟨inner, after, others, ?_⟩
  rw [gaps, blank]
  rfl

theorem opens_word {word : Text} (read : Lexeme.identifier? word = some (word, [])) (text : Text) :
    Opens word.head?.toList (' ' :: (word ++ ' ' :: text)) := by
  obtain ⟨c, more, rfl, starts, -⟩ := Lexeme.identifier?_parts read
  exact opens_space (isCode_of (by decide) starts) (more ++ ' ' :: text)

theorem reads_typeSpec {body : Text}
    (reads : Reads rules typeSpec here
      (' ' :: (['T'] ++ ' ' :: ("struct".toList ++ ' ' :: '\x7b' :: body))) trees rest) :
    ∃ inner after, Reads rules (seq (opt (terminatedList field)) closeBrace) after body inner rest ∧
      trees = [.leaf .blank [' '], .node .typeSpec [.node .specName [.leaf .token ['T']],
        .leaf .blank [' '], .node .specType [.node .struct [.leaf .token "struct".toList,
          .leaf .blank [' '], .node .fieldList (.leaf .token ['\x7b'] :: inner)]]]] := by
  have opens := @opens_word "struct".toList (by decide) ('\x7b' :: body)
  rcases reads.choice with renamed | spec
  · -- A new name for a type has an equals sign behind it.
    obtain ⟨front, middle, back, after, first, second, rfl⟩ := renamed.parts
    obtain ⟨newlines, found, rfl, named⟩ := reads_name first
    obtain ⟨-, taken⟩ := @trivia_word ['T'] (by decide) newlines ("struct".toList ++ ' ' :: '\x7b' :: body)
    cases named.symm.trans taken
    exact (second.fails_at (by decide) (lacks_of_opens opens) trivial).elim
  · obtain ⟨whole, parts, rfl⟩ := spec.children
    obtain ⟨front, middle, back, after, first, second, rfl⟩ := parts.parts
    obtain ⟨naming, name, rfl⟩ := first.children
    obtain ⟨newlines, found, rfl, named⟩ := reads_name name
    obtain ⟨gaps, taken⟩ :=
      @trivia_word ['T'] (by decide) newlines ("struct".toList ++ ' ' :: '\x7b' :: body)
    cases named.symm.trans taken
    rcases second.choice with type | generic
    · obtain ⟨typeTrees, struct, rfl⟩ := type.children
      have keyword := (@trivia_word "struct".toList (by decide) true ('\x7b' :: body)).2
      obtain ⟨inner, after, fields, rfl⟩ := reads_structType (reads_struct keyword struct)
      refine ⟨inner, after, fields, ?_⟩
      rw [gaps]
      rfl
    · exact (generic.fails_at (by decide) (lacks_of_opens opens) trivial).elim

theorem reads_typeDeclaration {body : Text}
    (reads : Reads rules typeDeclaration here ('\n' :: ("type".toList ++
      ' ' :: (['T'] ++ ' ' :: ("struct".toList ++ ' ' :: '\x7b' :: body)))) trees rest) :
    ∃ inner after, Reads rules (seq (opt (terminatedList field)) closeBrace) after body inner rest ∧
      trees = [.leaf .blank ['\n'], structTree (.leaf .token ['\x7b'] :: inner)] := by
  obtain ⟨whole, parts, rfl⟩ := reads.children
  obtain ⟨front, middle, back, after, first, second, rfl⟩ := parts.parts
  obtain ⟨newlines, rfl, keyword⟩ := reads_word first
  obtain ⟨rfl, gaps, rfl⟩ := trivia_word_below (by decide) keyword
  rcases second.choice with list | spec
  · exact (list.fails_at (by decide) (lacks_of_opens (opens_word (by decide) _)) trivial).elim
  · obtain ⟨inner, after, fields, rfl⟩ := reads_typeSpec spec
    refine ⟨inner, after, fields, ?_⟩
    rw [gaps]
    rfl

end Grammar

/-! ### The whole file -/

/-- A file that is not at its end has an item, its terminator and more of the file. -/
theorem reading_file_eq_some {text rest : Text} {trees : List Tree}
    (read : reading file {} {} text = some (trees, rest)) (filled : pass true text ≠ []) :
    ∃ front left ended middle more, reading item {} { terminator := true } text = some (front, left) ∧
      reading terminator {} {} left = some (ended, middle) ∧
      reading file {} {} middle = some (more, rest) ∧ trees = front ++ (ended ++ more) := by
  rw [reading_file] at read
  split at read
  next round middle found =>
    obtain ⟨⟨more, last⟩, others, same⟩ := Option.map_eq_some_iff.1 read
    rw [reading_round] at found
    obtain ⟨⟨front, left⟩, item, behind⟩ := Option.bind_eq_some_iff.1 found
    obtain ⟨⟨ended, _⟩, ending, equal⟩ := Option.map_eq_some_iff.1 behind
    cases equal
    cases same
    exact ⟨front, left, ended, middle, more, item, ending, others, by simp⟩
  next =>
    rw [reading_ending, if_neg filled] at read
    cases read

/-- A file with a struct around a declaration. -/
def probe (declaration : Text) : Text :=
  "package p\n\ntype T struct \x7b\n\t".toList ++ declaration ++ "\n\x7d\n".toList

/-- What comes behind the declaration in such a file. -/
def probeEnd : Text :=
  ['\n', '\x7d', '\n']

/-- What comes behind the opening brace in such a file. -/
def probeBody (declaration : Text) : Text :=
  "\n\t".toList ++ (declaration ++ probeEnd)

/-- What comes behind the first line of such a file. -/
def probeTail (declaration : Text) : Text :=
  '\n' :: ("type".toList ++
    ' ' :: (['T'] ++ ' ' :: ("struct".toList ++ ' ' :: '\x7b' :: probeBody declaration)))

/-- The package clause of such a file, and the ends of the lines behind it. -/
def probeFront : List Tree :=
  [.node .package [.leaf .token "package".toList, .leaf .blank [' '], .leaf .token ['p']],
    .leaf .terminator ['\n'], .leaf .blank ['\n']]

/-- How the struct of such a file is read, and what comes behind it. -/
structure ProbeRead (declaration : Text) (inner behind : List Tree) : Prop where
  reads : ∃ here left ended rest more, behind = ended ++ more ∧
    Reads rules (seq (opt (terminatedList field)) closeBrace) here (probeBody declaration) inner left ∧
    Reads rules terminator {} left ended rest ∧ Reads rules file {} rest more []

theorem identifier?_probe (declaration : Text) :
    Lexeme.identifier? (pass true (probe declaration)) =
      some ("package".toList, ' ' :: 'p' :: '\n' :: probeTail declaration) := by
  have solid : Solid true (probe declaration) := solid_of_isCode (by decide) _
  rw [pass_solid solid]
  exact @identifier?_space "package".toList (by decide) ('p' :: '\n' :: probeTail declaration)

theorem identifier?_probeTail (declaration : Text) :
    Lexeme.identifier? (pass true (probeTail declaration)) = some ("type".toList,
      ' ' :: (['T'] ++ ' ' :: ("struct".toList ++ ' ' :: '\x7b' :: probeBody declaration))) := by
  have passed := (@trivia_of_solid true ['\n'] ("type".toList ++ ' ' :: (['T'] ++ ' ' ::
    ("struct".toList ++ ' ' :: '\x7b' :: probeBody declaration))) (List.forall_mem_singleton.2 rfl)
    (solid_of_isCode (by decide) _)).2
  change pass true (probeTail declaration) = _ at passed
  rw [passed]
  exact identifier?_space (by decide) _

theorem reading_probe (declaration : Text) :
    reading item {} { terminator := true } (probe declaration) =
      some ([.node .package [.leaf .token "package".toList, .leaf .blank [' '], .leaf .token ['p']]],
        '\n' :: probeTail declaration) := by
  have keyword := identifier?_probe declaration
  obtain ⟨gaps, passed⟩ := @trivia_space true 'p' (by decide) ('\n' :: probeTail declaration)
  have named : Lexeme.identifier? ('p' :: '\n' :: probeTail declaration) =
      some (['p'], '\n' :: probeTail declaration) := rfl
  have front : gap true (probe declaration) = [] := gap_solid (solid_of_isCode (by decide) _)
  rw [reading_item_package keyword, reading_packageClause keyword, gaps, passed, named, front]
  rfl

theorem parse?_probe {declaration : Text} {trees : List Tree}
    (parsed : parse? (probe declaration) = some trees) :
    ∃ inner behind, ProbeRead declaration inner behind ∧
      trees = probeFront ++ structTree (.leaf .token ['\x7b'] :: inner) :: behind := by
  have filled {text word rest : Text} (read : Lexeme.identifier? (pass true text) = some (word, rest)) :
      pass true text ≠ [] := by
    intro none
    rw [none] at read
    cases read
  rw [parse?_eq] at parsed
  obtain ⟨⟨found, last⟩, read, rfl⟩ := Option.map_eq_some_iff.1 parsed
  change reading file {} {} (probe declaration) = _ at read
  obtain ⟨front, left, ended, middle, more, package, ending, others, rfl⟩ :=
    reading_file_eq_some read (filled (identifier?_probe declaration))
  rw [reading_probe] at package
  cases package
  have line : reading terminator {} {} ('\n' :: probeTail declaration) =
      some ([.leaf .terminator ['\n']], probeTail declaration) := by
    have solid : Solid false ('\n' :: probeTail declaration) := solid_terminator rfl _
    rw [reading_terminator, pass_solid solid, gap_solid solid]
    rfl
  cases line.symm.trans ending
  have keyword : Lexeme.identifier? (pass true (probeTail declaration)) = some ("type".toList, _) :=
    identifier?_probeTail declaration
  obtain ⟨declared, left, ended, middle, more, item, closing, behind, rfl⟩ :=
    reading_file_eq_some others (filled keyword)
  obtain ⟨after, types⟩ := reads_item_type keyword (run_reads item)
  obtain ⟨inner, here, fields, rfl⟩ := reads_typeDeclaration types
  obtain rfl := run_ending behind
  exact ⟨inner, ended ++ more, ⟨here, left, ended, middle, more, rfl, fields, run_reads closing,
    run_reads behind⟩, rfl⟩

end GoGraft.Go

namespace GoGraft

open Go (Tree)
open Go.Rule Go.Grammar

/-! ### The struct and its fields -/

theorem ItemLine.fields_divide (items : List Located) :
    (ItemLine.divide items).flatMap ItemLine.fields =
      (items.filter (Located.isNode .field)).map Field.ofNode := by
  conv_rhs => rw [← ItemLine.items_divide items, List.filter_flatMap, List.map_flatMap]
  rfl

theorem filter_fieldItems (list : Located) :
    (fieldItems list).filter (Located.isNode .field) = list.nodes .field := by
  rw [fieldItems, List.filter_filter, Located.nodes]
  refine List.filter_congr fun item _ => ?_
  cases item.isNode .field <;> simp

/-- The fields that a declaration of a struct has. -/
theorem struct_of_structTree (source : Text) {declaration : Located} {children : List Tree}
    (shape : declaration.tree = structTree children) :
    ∃ (list : Located) (struct : StructDeclaration), list.tree = .node .fieldList children ∧
      (declaration.nodes .typeSpec).filterMap (StructDeclaration.ofSpec? source) = [struct] ∧
      struct.fields = (list.nodes .field).map Field.ofNode ∧
      list.start.offset = declaration.start.offset + "type T struct ".length ∧
      ∀ trees, declaration.PartOf source trees → list.PartOf source trees := by
  obtain ⟨tree, start, stop⟩ := declaration
  cases shape
  refine ⟨⟨.node .fieldList children, _, _⟩, _, rfl, rfl,
    (ItemLine.fields_divide _).trans (congrArg _ (filter_fieldItems _)), rfl, ?_⟩
  intro trees part
  have spec := part.child (List.mem_of_getElem? (i := 2) rfl)
  have type := spec.child (List.mem_of_getElem? (i := 2) rfl)
  have struct := type.child (List.mem_of_getElem? (i := 0) rfl)
  exact struct.child (List.mem_of_getElem? (i := 2) rfl)

theorem length_nodes (kind : Go.NodeKind) (place : Place) (trees : List Tree) :
    ((Located.sideBySide place trees).filter (Located.isNode kind)).length =
      trees.countP (Tree.isNode kind) := by
  have own : Located.isNode kind = Tree.isNode kind ∘ Located.tree := by
    funext located
    exact Located.isNode_eq kind located
  rw [← List.countP_eq_length_filter, own, ← List.countP_map, Located.map_tree_sideBySide]

/-- The only field among trees side by side. -/
theorem nodes_sole {kind : Go.NodeKind} {front more : List Tree} {tree : Tree} (place : Place)
    (before : ∀ other ∈ front, other.isNode kind = false) (own : tree.isNode kind)
    (behind : ∀ other ∈ more, other.isNode kind = false) :
    (Located.sideBySide place (front ++ tree :: more)).filter (Located.isNode kind) =
      [⟨tree, place.after (Tree.textOfAll front), (place.after (Tree.textOfAll front)).after tree.text⟩] := by
  have none (place : Place) {trees : List Tree} (others : ∀ other ∈ trees, other.isNode kind = false) :
      (Located.sideBySide place trees).filter (Located.isNode kind) = [] := by
    refine List.filter_eq_nil_iff.2 fun item inside => ?_
    rw [Located.isNode_eq, others _ (Located.tree_mem_of_mem_sideBySide inside)]
    exact Bool.false_ne_true
  rw [Located.sideBySide_append, Located.sideBySide, List.filter_append, none _ before,
    List.filter_cons_of_pos (by rwa [Located.isNode_eq]), none _ behind]
  rfl

namespace Go.Grammar

theorem isNode_of_isTrivia {tree : Tree} (kind : NodeKind) (trivia : tree.isTrivia) :
    tree.isNode kind = false := by
  cases tree with
  | leaf => rfl
  | node => cases trivia

theorem countP_wrap_field (trees : List Tree) :
    (Tree.wrap .field trees).countP (Tree.isNode .field) = 1 := by
  have none : (trees.takeWhile Tree.isTrivia).countP (Tree.isNode .field) = 0 := by
    refine List.countP_eq_zero.2 fun tree inside => ?_
    rw [isNode_of_isTrivia .field (List.all_eq_true.1 List.all_takeWhile tree inside)]
    exact Bool.false_ne_true
  rw [Tree.wrap, List.countP_append, none]
  rfl

theorem isNode_of_reads_token {symbol : Token} {here : Accepts} {text rest : Text} {trees : List Tree}
    (kind : NodeKind) (reads : Reads rules (token symbol) here text trees rest) :
    ∀ tree ∈ trees, tree.isNode kind = false := by
  cases reads with
  | token =>
    exact List.forall_mem_append.2 ⟨isNode_of_mem_gap kind, List.forall_mem_singleton.2 rfl⟩

/-- What is read in a body with one field. -/
theorem reads_body {here : Accepts} {body left : Text} {inner : List Tree}
    (reads : Reads rules (seq (opt (terminatedList field)) closeBrace) here body inner left)
    (sole : inner.countP (Tree.isNode .field) = 1) :
    ∃ trivia children more before middle behind ended last closing after,
      inner = trivia ++ .node .field children :: more ∧
      (∀ tree ∈ trivia, tree.isTrivia) ∧ (∀ tree ∈ more, tree.isNode .field = false) ∧
      Reads rules field before body (trivia ++ [.node .field children]) middle ∧
      Reads rules (opt terminator) behind middle ended last ∧
      Reads rules closeBrace after last closing left := by
  obtain ⟨list, middle, closing, after, fields, brace, rfl⟩ := reads.parts
  have closes : ∀ tree ∈ closing, tree.isNode .field = false := isNode_of_reads_token .field brace
  rw [List.countP_append] at sole
  rcases fields.option with ⟨rfl, -⟩ | ⟨within, items⟩
  · have none : closing.countP (Tree.isNode .field) = 0 :=
      List.countP_eq_zero.2 fun tree inside => by simp [closes tree inside]
    rw [none] at sole
    cases sole
  obtain ⟨front, rest, back, behind, first, others, rfl⟩ := items.parts
  obtain ⟨children, whole, rfl⟩ := first.children
  obtain ⟨rounds, last, ended, beyond, later, ending, rfl⟩ := others.parts
  rcases later.rounds with ⟨rfl, rfl⟩ | ⟨_, _, _, _, round, _, rfl⟩
  · refine ⟨_, _, ended ++ closing, _, _, _, _, _, _, _, ?_,
      fun tree => List.all_eq_true.1 List.all_takeWhile tree, ?_, first, ending, brace⟩
    · simp [Tree.wrap]
    · refine List.forall_mem_append.2 ⟨?_, closes⟩
      rcases ending.option with ⟨rfl, -⟩ | ⟨_, made⟩
      · exact List.forall_mem_nil _
      · exact isNode_of_reads_token .field made
  · -- A second field would be one too many.
    obtain ⟨_, _, _, _, _, second, rfl⟩ := round.parts
    obtain ⟨_, _, rfl⟩ := second.children
    simp only [List.countP_append, countP_wrap_field] at sole
    omega

end Go.Grammar

/-- The only field of the struct in a file around a declaration. -/
structure SoleField (declaration : Text) (node : Located) : Prop where
  found : ∃ trees file struct others, Go.parse? (Go.probe declaration) = some trees ∧
    SourceFile.parse? (Go.probe declaration) = some file ∧ file.structs = struct :: others ∧
    struct.fields = [Field.ofNode node] ∧ node.isNode .field ∧ node.PartOf (Go.probe declaration) trees

/-- What can come behind the only field of such a file: the end of the struct and of the file. -/
structure EndsProbe (middle : Text) : Prop where
  reads : ∃ behind ended last after closing left line rest more,
    Reads rules (opt terminator) behind middle ended last ∧
    Reads rules closeBrace after last closing left ∧
    Reads rules terminator {} left line rest ∧ Reads rules file {} rest more []

theorem isFieldDeclaration_eq (declaration : Text) :
    isFieldDeclaration declaration = (SourceFile.parse? (Go.probe declaration)).any fun file =>
      file.structs.head?.any fun struct => struct.fields.length == 1 := by
  unfold isFieldDeclaration Go.probe
  dsimp only
  cases SourceFile.parse? _ <;> rfl

/-- The struct around a declaration is the first of its file. -/
theorem structs_probe {declaration : Text} {trees : List Tree}
    (parsed : Go.parse? (Go.probe declaration) = some trees) :
    ∃ inner behind, Go.ProbeRead declaration inner behind ∧
      trees = Go.probeFront ++ structTree (.leaf .token ['\x7b'] :: inner) :: behind ∧
      ∃ (list : Located) (struct : StructDeclaration) (others : List StructDeclaration),
        structsOfRoots (Go.probe declaration) (Located.sideBySide {} trees) = struct :: others ∧
        list.tree = .node .fieldList (.leaf .token ['\x7b'] :: inner) ∧
        struct.fields = (list.nodes .field).map Field.ofNode ∧
        list.PartOf (Go.probe declaration) trees ∧
        list.start.offset = "package p\n\ntype T struct ".length := by
  obtain ⟨inner, behind, reads, shape⟩ := Go.parse?_probe parsed
  refine ⟨inner, behind, reads, shape, ?_⟩
  have parts := Located.partOf_roots parsed
  rw [shape, Located.sideBySide_append, Located.sideBySide] at parts ⊢
  generalize placed : Located.mk _ _ _ = declared at parts ⊢
  obtain ⟨list, struct, form, specs, fields, start, within⟩ :=
    struct_of_structTree (Go.probe declaration) (congrArg Located.tree placed).symm
  have own : declared.isNode .typeDeclaration := by rw [← placed]; rfl
  have front : (Located.sideBySide {} Go.probeFront).filter (Located.isNode .typeDeclaration) = [] := rfl
  refine ⟨list, struct, ?_, ?_, form, fields, ?_, ?_⟩
  rotate_left
  · rw [structsOfRoots, List.filter_append, List.filter_cons_of_pos own, front, List.nil_append,
      List.flatMap_cons, List.filterMap_append, specs]
    rfl
  · rw [← shape] at parts ⊢
    exact within trees (parts declared (List.mem_append_right _ List.mem_cons_self))
  · rw [start, ← placed]
    rfl

/-- What is read around a declaration that is accepted: a struct with one field, and what comes behind
it. -/
structure AcceptedProbe (declaration : Text) (trees inner behind : List Tree) (list : Located) : Prop where
  parsed : Go.parse? (Go.probe declaration) = some trees
  reads : Go.ProbeRead declaration inner behind
  shape : trees = Go.probeFront ++ structTree (.leaf .token ['\x7b'] :: inner) :: behind
  children : list.children = Located.sideBySide list.start (.leaf .token ['\x7b'] :: inner)
  part : list.PartOf (Go.probe declaration) trees
  start : list.start.offset = "package p\n\ntype T struct ".length
  struct : ∃ file struct others, SourceFile.parse? (Go.probe declaration) = some file ∧
    file.structs = struct :: others ∧ struct.fields = (list.nodes .field).map Field.ofNode
  sole : inner.countP (Tree.isNode .field) = 1

theorem acceptedProbe_of_isFieldDeclaration {declaration : Text}
    (accepted : isFieldDeclaration declaration) :
    ∃ trees inner behind list, AcceptedProbe declaration trees inner behind list := by
  rw [isFieldDeclaration_eq] at accepted
  cases read : SourceFile.parse? (Go.probe declaration) with
  | none => rw [read] at accepted; cases accepted
  | some file =>
    obtain ⟨trees, parsed, same⟩ := Option.map_eq_some_iff.1 read
    obtain ⟨inner, behind, reads, shape, list, struct, structs, first, form, fields, part, start⟩ :=
      structs_probe parsed
    have head : file.structs = struct :: structs := by rw [← same]; exact first
    have kids : list.children = Located.sideBySide list.start (.leaf .token ['\x7b'] :: inner) := by
      rw [Located.children, form]
    refine ⟨trees, inner, behind, list, parsed, reads, shape, kids, part, start,
      ⟨file, struct, structs, read, head, fields⟩, ?_⟩
    rw [read, Option.any_some, head] at accepted
    have one : struct.fields.length = 1 := eq_of_beq accepted
    rwa [fields, List.length_map, Located.nodes, kids, length_nodes] at one

/-- A declaration that is accepted is read as one field, with only white space and comments in front. -/
theorem soleField_of_isFieldDeclaration {declaration : Text} (accepted : isFieldDeclaration declaration) :
    ∃ node trivia children here middle, SoleField declaration node ∧
      node.tree = .node .field children ∧ (∀ tree ∈ trivia, tree.isTrivia) ∧
      node.start.offset = "package p\n\ntype T struct \x7b".length + (Tree.textOfAll trivia).length ∧
      Reads rules field here (Go.probeBody declaration) (trivia ++ [.node .field children]) middle ∧
      EndsProbe middle := by
  obtain ⟨trees, inner, _, list, ⟨parsed, ⟨_, left, line, rest, others, rfl, body, ending, beyond⟩, _, kids,
    part, start, ⟨file, struct, structs, read, head, fields⟩, count⟩⟩ :=
    acceptedProbe_of_isFieldDeclaration accepted
  obtain ⟨trivia, children, more, before, middle, behind, ended, last, closing, after, rfl, blank, none,
    field, between, brace⟩ := reads_body body count
  rw [Located.nodes, kids] at fields
  have front : ∀ tree ∈ .leaf .token ['\x7b'] :: trivia, tree.isNode .field = false :=
    List.forall_mem_cons.2 ⟨rfl, fun tree inside => isNode_of_isTrivia .field (blank tree inside)⟩
  have nodes := @nodes_sole .field _ more (.node .field children) list.start front rfl none
  rw [List.cons_append] at nodes
  have inside : _ ∈ list.children :=
    kids ▸ List.mem_of_mem_filter (nodes ▸ List.mem_singleton_self _)
  rw [nodes] at fields
  refine ⟨_, trivia, children, before, middle, ⟨trees, file, struct, structs, parsed, read, head, fields,
    rfl, part.child inside⟩, rfl, blank, ?_, field, behind, ended, last, after, closing, left, line, rest,
    others, between, brace, ending, beyond⟩
  rw [Place.offset_after, start, Tree.textOfAll, List.length_append, ← Nat.add_assoc]
  rfl

end GoGraft
