import GoGraft.Proofs.Reading
import Mathlib.Data.List.Basic

/-! Shapes of the nodes in the tree of a Go file. A node that occurs anywhere in the tree holds what
the rule of its kind makes, so what the grammar writes about a kind of node is true of all of them:
the word `struct` comes first in a struct, the brackets of a list are its ends. -/

namespace GoGraft.Go

/-- A tree that is one of the given trees or stands in one of them. -/
inductive Tree.Occurs (tree : Tree) : List Tree → Prop where
  | among {trees : List Tree} (inside : tree ∈ trees) : Occurs tree trees
  | under {trees children : List Tree} {kind : NodeKind}
      (inside : Tree.node kind children ∈ trees) (deeper : Occurs tree children) :
      Occurs tree trees

namespace Tree.Occurs

theorem nil {tree : Tree} : ¬ tree.Occurs [] := by
  intro occurs
  cases occurs with
  | among inside => cases inside
  | under inside _ => cases inside

theorem mono {tree : Tree} {trees more : List Tree} (occurs : tree.Occurs trees)
    (subset : trees ⊆ more) : tree.Occurs more := by
  cases occurs with
  | among inside => exact .among (subset inside)
  | under inside deeper => exact .under (subset inside) deeper

theorem append {tree : Tree} {trees more : List Tree} (occurs : tree.Occurs (trees ++ more)) :
    tree.Occurs trees ∨ tree.Occurs more := by
  cases occurs with
  | among inside => exact (List.mem_append.1 inside).imp .among .among
  | under inside deeper =>
    exact (List.mem_append.1 inside).imp (.under · deeper) (.under · deeper)

theorem child {tree : Tree} {trees children : List Tree} {kind : NodeKind}
    (occurs : (Tree.node kind children).Occurs trees) (inside : tree ∈ children) :
    tree.Occurs trees := by
  generalize held : Tree.node kind children = parent at occurs
  induction occurs with
  | among found => exact .under (held ▸ found) (.among inside)
  | under found _ ih => exact .under found ih

end Tree.Occurs

namespace Rule

variable {Name : Type}

/-- The nodes of a rule with what they hold; those of the rules that it names are left out. -/
def nodes : Rule Name → List (NodeKind × Rule Name)
  | empty => []
  | token _ => []
  | seq one two => one.nodes ++ two.nodes
  | alt one two => one.nodes ++ two.nodes
  | commit one two three => one.nodes ++ two.nodes ++ three.nodes
  | opt rule => rule.nodes
  | many rule => rule.nodes
  | tail rule => rule.nodes
  | ref _ => []
  | node kind rule => (kind, rule) :: rule.nodes
  | ahead _ => []
  | notAhead _ => []
  | within _ rule => rule.nodes
  | expecting _ rule => rule.nodes
  | across rule => rule.nodes
  | unlessBody rule => rule.nodes
  | whereBody rule => rule.nodes
  | unlessGuard rule => rule.nodes

theorem no_node_in_trivia {trivia : List Tree} (between : ∀ tree ∈ trivia, tree.isTrivia)
    {kind : NodeKind} {children : List Tree} : ¬ (Tree.node kind children).Occurs trivia := by
  intro occurs
  cases occurs with
  | among inside => cases between _ inside
  | under inside _ => cases between _ inside

theorem Derives.shaped {rules : Name → Rule Name} {shape : NodeKind → Rule Name → Prop}
    (named : ∀ name, ∀ part ∈ (rules name).nodes, shape part.1 part.2) {rule : Rule Name} {trees : List Tree}
    (made : Derives rules rule trees) (own : ∀ part ∈ rule.nodes, shape part.1 part.2)
    {kind : NodeKind} {children : List Tree} (occurs : (Tree.node kind children).Occurs trees) :
    ∃ inner whole, shape kind inner ∧ Derives rules inner whole ∧
      children = whole.dropWhile Tree.isTrivia := by
  induction made with
  | empty => exact absurd occurs Tree.Occurs.nil
  | token between spelled =>
    rcases occurs.append with inside | last
    · exact absurd inside (no_node_in_trivia between)
    · cases last with
      | among inside => simp at inside
      | under inside _ => simp at inside
  | seq _ _ left right =>
    obtain ⟨one, two⟩ := List.forall_mem_append.1 own
    rcases occurs.append with first | second
    · exact left one first
    · exact right two second
  | altLeft _ ih => exact ih (List.forall_mem_append.1 own).1 occurs
  | altRight _ ih => exact ih (List.forall_mem_append.1 own).2 occurs
  | commitFirst _ _ left right =>
    obtain ⟨one, two⟩ := List.forall_mem_append.1 (List.forall_mem_append.1 own).1
    rcases occurs.append with first | second
    · exact left one first
    · exact right two second
  | commitLast _ ih => exact ih (List.forall_mem_append.1 own).2 occurs
  | optNone => exact absurd occurs Tree.Occurs.nil
  | optSome _ ih => exact ih own occurs
  | manyNone => exact absurd occurs Tree.Occurs.nil
  | manySome _ _ left right =>
    rcases occurs.append with first | second
    · exact left own first
    · exact right own second
  | tail _ ih => exact ih own occurs
  | ref _ ih => exact ih (named _) occurs
  | @node _ rule trees made ih =>
    obtain ⟨this, inner⟩ := List.forall_mem_cons.1 own
    rcases occurs.append with front | node
    · exact ih inner (front.mono (List.takeWhile_subset _))
    · cases node with
      | among inside =>
        cases List.mem_singleton.1 inside
        exact ⟨rule, trees, this, made, rfl⟩
      | under inside deeper =>
        cases List.mem_singleton.1 inside
        exact ih inner (deeper.mono (List.dropWhile_subset _))
  | ahead => exact absurd occurs Tree.Occurs.nil
  | notAhead => exact absurd occurs Tree.Occurs.nil
  | within _ ih => exact ih own occurs
  | expecting _ ih => exact ih own occurs
  | across _ ih => exact ih own occurs
  | unlessBody _ ih => exact ih own occurs
  | whereBody _ ih => exact ih own occurs
  | unlessGuard _ ih => exact ih own occurs

/-- Whether the nodes that a rule makes, and not those inside them, are all of allowed kinds, given
whether the rules that it names make such nodes only. -/
def makes (allowed : NodeKind → Bool) (named : Bool) : Rule Name → Bool
  | empty => true
  | token _ => true
  | seq one two => one.makes allowed named && two.makes allowed named
  | alt one two => one.makes allowed named && two.makes allowed named
  | commit one two three => one.makes allowed named && two.makes allowed named && three.makes allowed named
  | opt rule => rule.makes allowed named
  | many rule => rule.makes allowed named
  | tail rule => rule.makes allowed named
  | ref _ => named
  | node kind _ => allowed kind
  | ahead _ => true
  | notAhead _ => true
  | within _ rule => rule.makes allowed named
  | expecting _ rule => rule.makes allowed named
  | across rule => rule.makes allowed named
  | unlessBody rule => rule.makes allowed named
  | whereBody rule => rule.makes allowed named
  | unlessGuard rule => rule.makes allowed named

theorem Derives.makes {rules : Name → Rule Name} {allowed : NodeKind → Bool} {named : Bool}
    (known : named → ∀ name, (rules name).makes allowed named) {rule : Rule Name} {trees : List Tree}
    (made : Derives rules rule trees) (only : rule.makes allowed named)
    {kind : NodeKind} {children : List Tree} (inside : Tree.node kind children ∈ trees) :
    allowed kind := by
  induction made with
  | empty => cases inside
  | token between spelled =>
    rcases List.mem_append.1 inside with front | last
    · cases between _ front
    · cases List.mem_singleton.1 last
  | seq _ _ left right =>
    obtain ⟨one, two⟩ := Bool.and_eq_true_iff.1 only
    exact (List.mem_append.1 inside).elim (left one) (right two)
  | altLeft _ ih => exact ih (Bool.and_eq_true_iff.1 only).1 inside
  | altRight _ ih => exact ih (Bool.and_eq_true_iff.1 only).2 inside
  | commitFirst _ _ left right =>
    obtain ⟨one, two⟩ := Bool.and_eq_true_iff.1 (Bool.and_eq_true_iff.1 only).1
    exact (List.mem_append.1 inside).elim (left one) (right two)
  | commitLast _ ih => exact ih (Bool.and_eq_true_iff.1 only).2 inside
  | optNone => cases inside
  | optSome _ ih => exact ih only inside
  | manyNone => cases inside
  | manySome _ _ left right => exact (List.mem_append.1 inside).elim (left only) (right only)
  | tail _ ih => exact ih only inside
  | ref _ ih => exact ih (known only _) inside
  | @node _ rule trees made ih =>
    rcases List.mem_append.1 inside with front | last
    · cases List.all_eq_true.1 List.all_takeWhile _ front
    · cases List.mem_singleton.1 last
      exact only
  | ahead => cases inside
  | notAhead => cases inside
  | within _ ih => exact ih only inside
  | expecting _ ih => exact ih only inside
  | across _ ih => exact ih only inside
  | unlessBody _ ih => exact ih only inside
  | whereBody _ ih => exact ih only inside
  | unlessGuard _ ih => exact ih only inside

end Rule

namespace Grammar

open Rule

/-- The rules behind the nodes that changes are made in or next to. -/
def contents : NodeKind → Rule → Prop
  | .package, rule => rule = seq (word "package") name
  | .importDeclaration, rule => rule = seq (word "import") (alt importList importSpec)
  | .importList, rule =>
    rule = sequence [mark "(", opt (terminatedList importSpec), mark ")"]
  | .struct, rule =>
    rule = seq (word "struct")
      (node .fieldList (sequence [openBrace, opt (terminatedList field), closeBrace]))
  | .fieldList, rule => rule = sequence [openBrace, opt (terminatedList field), closeBrace]
  | .field, rule => rule = alt (embeddedField fieldTypeArguments) namedField
  | .fieldTag, rule => rule = string
  | .typeDeclaration, rule => rule = declarations "type" typeSpec
  | _, _ => True

theorem rules_contents (name : Name) : ∀ part ∈ (rules name).nodes, contents part.1 part.2 := by
  rw [← List.forall_iff_forall_mem]
  cases name <;> repeat' first | exact trivial | exact rfl | refine And.intro ?_ ?_

theorem file_contents : ∀ part ∈ file.nodes, contents part.1 part.2 := by
  rw [← List.forall_iff_forall_mem]
  repeat' first | exact trivial | exact rfl | refine And.intro ?_ ?_

theorem read?_ending {here : Accepts} {text found rest : Text}
    (read : Token.ending.read? here text = some (found, rest)) : rest = [] := by
  simp only [Token.read?] at read
  split at read
  · cases read; rfl
  · cases read

theorem run_ending {fuel : Nat} {rule : Rule} {here next : Accepts} {text rest : Text}
    {trees : List Tree}
    (read : run rules fuel (seq rule (token .ending)) here next text = some (trees, rest)) :
    rest = [] := by
  cases fuel with
  | zero => cases read
  | succ fuel =>
    simp only [run] at read
    split at read
    next =>
      split at read
      next ending =>
        cases read
        cases fuel with
        | zero => cases ending
        | succ fuel =>
          simp only [run] at ending
          split at ending
          next =>
            split at ending
            next spelled => cases ending; exact read?_ending spelled
            next => cases ending
          next => cases ending
      next => cases read
    next => cases read

/-! ### Words and brackets -/

theorem derives_word {spelling : String} {trees : List Tree}
    (made : Derives rules (word spelling) trees) :
    ∃ trivia, (∀ tree ∈ trivia, tree.isTrivia) ∧
      trees = trivia ++ [.leaf .token spelling.toList] := by
  unfold word at made
  cases made with
  | @token _ _ trivia found rest between spelled =>
    simp only [Token.read?] at spelled
    split at spelled
    next =>
      split at spelled
      next same =>
        cases spelled
        exact ⟨trivia, between, by rw [eq_of_beq same]; rfl⟩
      next => cases spelled
    next => cases spelled

theorem derives_mark {spelling : String} {trees : List Tree}
    (made : Derives rules (mark spelling) trees) :
    ∃ trivia, (∀ tree ∈ trivia, tree.isTrivia) ∧
      trees = trivia ++ [.leaf .token spelling.toList] := by
  unfold mark at made
  cases made with
  | @token _ _ trivia found rest between spelled =>
    simp only [Token.read?] at spelled
    split at spelled
    next =>
      split at spelled
      · cases spelled
      · cases spelled
        exact ⟨trivia, between, rfl⟩
    next => cases spelled

theorem derives_node {kind : NodeKind} {rule : Rule} {trees : List Tree}
    (made : Derives rules (node kind rule) trees) :
    ∃ trivia children, (∀ tree ∈ trivia, tree.isTrivia) ∧
      trees = trivia ++ [.node kind children] := by
  cases made with
  | @node _ _ trees made => exact ⟨_, _, List.all_eq_true.1 List.all_takeWhile, rfl⟩

/-- A leaf with a token is where a node starts. -/
theorem dropWhile_trivia {trivia rest : List Tree} {found : Text}
    (between : ∀ tree ∈ trivia, tree.isTrivia) :
    (trivia ++ [Tree.leaf .token found] ++ rest).dropWhile Tree.isTrivia =
      .leaf .token found :: rest := by
  rw [List.append_assoc, List.dropWhile_append_of_pos between]
  rfl

theorem derives_bracketed {opening closing : String} {rule : Rule} {trees : List Tree}
    (made : Derives rules (sequence [mark opening, rule, mark closing]) trees) :
    ∃ inner gap, Derives rules rule inner ∧ (∀ tree ∈ gap, tree.isTrivia) ∧
      trees.dropWhile Tree.isTrivia =
        .leaf .token opening.toList :: (inner ++ gap ++ [.leaf .token closing.toList]) := by
  simp only [Go.Rule.sequence] at made
  cases made with
  | seq first later =>
    cases later with
    | @seq _ _ inner _ held last =>
      obtain ⟨trivia, between, rfl⟩ := derives_mark first
      obtain ⟨gap, blank, rfl⟩ := derives_mark last
      exact ⟨inner, gap, held, blank, by rw [dropWhile_trivia between, List.append_assoc]⟩

end Grammar

/-! ### Trees of a file -/

theorem takeByteOrderMark_taken (source : Text) :
    Tree.textOfAll (takeByteOrderMark source).1 ++ (takeByteOrderMark source).2 = source ∧
      ∀ tree ∈ (takeByteOrderMark source).1, tree.isTrivia := by
  fun_cases takeByteOrderMark source with
  | case1 rest => exact ⟨rfl, List.forall_mem_singleton.2 rfl⟩
  | case2 => exact ⟨rfl, List.forall_mem_nil _⟩

theorem parse?_taken {source : Text} {trees : List Tree} (parsed : parse? source = some trees) :
    ∃ mark body, trees = mark ++ body ∧ (∀ tree ∈ mark, tree.isTrivia) ∧
      Rule.Derives Grammar.rules Grammar.file body ∧
      Tree.textOfAll mark ++ Tree.textOfAll body = source := by
  obtain ⟨spelled, trivia⟩ := takeByteOrderMark_taken source
  unfold parse? at parsed
  generalize takeByteOrderMark source = marked at parsed spelled trivia
  obtain ⟨mark, text⟩ := marked
  dsimp only at parsed
  split at parsed
  next body rest read =>
    cases parsed
    have taken := Rule.run_taken read
    have all := taken.spelled
    rw [Grammar.run_ending read, List.append_nil] at all
    exact ⟨mark, body, rfl, trivia, taken.made, all ▸ spelled⟩
  next => cases parsed

theorem parse?_spelled {source : Text} {trees : List Tree} (parsed : parse? source = some trees) :
    Tree.textOfAll trees = source := by
  obtain ⟨mark, body, rfl, _, _, spelled⟩ := parse?_taken parsed
  rw [Tree.textOfAll_append, spelled]

theorem node_contents {source : Text} {trees children : List Tree} {kind : NodeKind}
    (parsed : parse? source = some trees) (occurs : (Tree.node kind children).Occurs trees) :
    ∃ inner whole, Grammar.contents kind inner ∧ Rule.Derives Grammar.rules inner whole ∧
      children = whole.dropWhile Tree.isTrivia := by
  obtain ⟨mark, body, rfl, trivia, made, _⟩ := parse?_taken parsed
  rcases occurs.append with inside | inside
  · exact absurd inside (Rule.no_node_in_trivia trivia)
  · exact made.shaped Grammar.rules_contents Grammar.file_contents inside

section Nodes

variable {source : Text} {trees children : List Tree} (parsed : parse? source = some trees)
include parsed

theorem package_children (occurs : (Tree.node .package children).Occurs trees) :
    ∃ more, children = .leaf .token "package".toList :: more := by
  obtain ⟨rule, whole, rfl, made, rfl⟩ := node_contents parsed occurs
  cases made with
  | seq first second =>
    obtain ⟨trivia, before, rfl⟩ := Grammar.derives_word first
    exact ⟨_, Grammar.dropWhile_trivia before⟩

theorem importDeclaration_children
    (occurs : (Tree.node .importDeclaration children).Occurs trees) :
    ∃ between kind inner, (kind = .importList ∨ kind = .importSpec) ∧
      (∀ tree ∈ between, tree.isTrivia) ∧
      children = .leaf .token "import".toList :: (between ++ [.node kind inner]) := by
  obtain ⟨rule, whole, rfl, made, rfl⟩ := node_contents parsed occurs
  cases made with
  | seq first second =>
    obtain ⟨trivia, before, rfl⟩ := Grammar.derives_word first
    rw [Grammar.dropWhile_trivia before]
    cases second with
    | altLeft list =>
      obtain ⟨between, inner, gap, rfl⟩ := Grammar.derives_node list
      exact ⟨between, .importList, inner, .inl rfl, gap, rfl⟩
    | altRight spec =>
      obtain ⟨between, inner, gap, rfl⟩ := Grammar.derives_node spec
      exact ⟨between, .importSpec, inner, .inr rfl, gap, rfl⟩

theorem importList_children (occurs : (Tree.node .importList children).Occurs trees) :
    ∃ middle, children = .leaf .token ['('] :: (middle ++ [.leaf .token [')']]) := by
  obtain ⟨rule, whole, rfl, made, rfl⟩ := node_contents parsed occurs
  obtain ⟨inner, gap, _, _, same⟩ := Grammar.derives_bracketed made
  exact ⟨inner ++ gap, same⟩

theorem struct_children (occurs : (Tree.node .struct children).Occurs trees) :
    ∃ between fields, (∀ tree ∈ between, tree.isTrivia) ∧
      children = .leaf .token "struct".toList :: (between ++ [.node .fieldList fields]) := by
  obtain ⟨rule, whole, rfl, made, rfl⟩ := node_contents parsed occurs
  cases made with
  | seq first second =>
    obtain ⟨trivia, before, rfl⟩ := Grammar.derives_word first
    obtain ⟨between, fields, gap, rfl⟩ := Grammar.derives_node second
    exact ⟨between, fields, gap, by rw [Grammar.dropWhile_trivia before]⟩

theorem fieldList_children (occurs : (Tree.node .fieldList children).Occurs trees) :
    ∃ middle, children = .leaf .token ['\x7b'] :: (middle ++ [.leaf .token ['\x7d']]) := by
  obtain ⟨rule, whole, rfl, made, rfl⟩ := node_contents parsed occurs
  obtain ⟨inner, gap, _, _, same⟩ := Grammar.derives_bracketed made
  exact ⟨inner ++ gap, same⟩

theorem importList_nodes (occurs : (Tree.node .importList children).Occurs trees)
    {kind : NodeKind} {inner : List Tree} (inside : Tree.node kind inner ∈ children) :
    kind = .importSpec := by
  obtain ⟨rule, whole, rfl, made, rfl⟩ := node_contents parsed occurs
  have only : (kind == .importSpec) = true := @Rule.Derives.makes _ _ (· == .importSpec) false
    (fun named => nomatch named) _ _ made rfl _ _ ((List.dropWhile_sublist _).subset inside)
  exact eq_of_beq only

theorem fieldList_nodes (occurs : (Tree.node .fieldList children).Occurs trees)
    {kind : NodeKind} {inner : List Tree} (inside : Tree.node kind inner ∈ children) :
    kind = .field := by
  obtain ⟨rule, whole, rfl, made, rfl⟩ := node_contents parsed occurs
  have only : (kind == .field) = true := @Rule.Derives.makes _ _ (· == .field) false
    (fun named => nomatch named) _ _ made rfl _ _ ((List.dropWhile_sublist _).subset inside)
  exact eq_of_beq only

theorem fieldTag_children (occurs : (Tree.node .fieldTag children).Occurs trees) :
    ∃ literal, children = [.leaf .token literal] := by
  obtain ⟨rule, whole, rfl, made, rfl⟩ := node_contents parsed occurs
  unfold Grammar.string at made
  cases made with
  | @token _ _ trivia found rest between spelled =>
    have only := @Grammar.dropWhile_trivia trivia [] found between
    rw [List.append_nil] at only
    exact ⟨found, only⟩

end Nodes

end GoGraft.Go
