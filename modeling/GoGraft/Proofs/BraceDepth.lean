import GoGraft.Proofs.LineBraces

/-! How deep in braces the leaves of a tree are. In every rule of the grammar the braces match, so
the depth never falls below that at the start of a node, and at the end of a node it is what it was
at the start. -/

namespace GoGraft.Go

open GoGraft.Go.Tree (leavesOfAll)

/-- The steps in depth of trees, one after another. -/
def Tree.climb (leaves : List Tree) : Int :=
  (leaves.map brace).sum

@[simp] theorem Tree.climb_nil : Tree.climb [] = 0 := rfl

@[simp] theorem Tree.climb_cons (leaf : Tree) (leaves : List Tree) :
    Tree.climb (leaf :: leaves) = leaf.brace + Tree.climb leaves :=
  List.sum_cons

@[simp] theorem Tree.climb_append (first second : List Tree) :
    Tree.climb (first ++ second) = Tree.climb first + Tree.climb second := by
  rw [climb, List.map_append, List.sum_append]
  rfl

/-- From one depth the leaves lead to another, and never below zero on the way. -/
structure Climbs (start : Nat) (leaves : List Tree) (stop : Nat) : Prop where
  above : ∀ front, front <+: leaves → 0 ≤ start + Tree.climb front
  reached : start + Tree.climb leaves = stop

namespace Climbs

theorem nil (depth : Nat) : Climbs depth [] depth := by
  refine ⟨fun front initial => ?_, by simp⟩
  rw [List.prefix_nil.1 initial, Tree.climb_nil]
  omega

theorem append {start middle stop : Nat} {first second : List Tree} (left : Climbs start first middle)
    (right : Climbs middle second stop) : Climbs start (first ++ second) stop := by
  have reached := left.reached
  refine ⟨fun front initial => ?_, ?_⟩
  · obtain ⟨behind, same⟩ := initial
    rcases List.append_eq_append_iff.1 same with ⟨rest, parts, _⟩ | ⟨rest, rfl, parts⟩
    · exact left.above front ⟨rest, parts.symm⟩
    · have above := right.above rest ⟨behind, parts.symm⟩
      rw [Tree.climb_append]
      omega
  · have last := right.reached
    rw [Tree.climb_append]
    omega

/-- What leads back to the ground leads back from any depth. -/
theorem lift {leaves : List Tree} (level : Climbs 0 leaves 0) (depth : Nat) :
    Climbs depth leaves depth := by
  refine ⟨fun front initial => ?_, ?_⟩
  · have above := level.above front initial
    omega
  · have reached := level.reached
    omega

/-- What does not change the depth in front may be left out. -/
theorem behind {start stop : Nat} {first second : List Tree} (all : Climbs start (first ++ second) stop)
    (flat : Tree.climb first = 0) : Climbs start second stop := by
  refine ⟨fun front initial => ?_, ?_⟩
  · have above := all.above (first ++ front) ((List.prefix_append_right_inj first).2 initial)
    rw [Tree.climb_append] at above
    omega
  · have reached := all.reached
    rw [Tree.climb_append] at reached
    omega

/-- The first leaf leads to a depth from which the others lead on. -/
theorem cons {start stop : Nat} {leaf : Tree} {rest : List Tree}
    (all : Climbs start (leaf :: rest) stop) :
    ∃ middle : Nat, start + leaf.brace = middle ∧ Climbs middle rest stop := by
  have above := all.above [leaf] ⟨rest, rfl⟩
  rw [Tree.climb_cons, Tree.climb_nil, Int.add_zero] at above
  obtain ⟨middle, step⟩ := Int.eq_ofNat_of_zero_le above
  refine ⟨middle, step, fun front initial => ?_, ?_⟩
  · have later := all.above (leaf :: front) (List.cons_prefix_cons.2 ⟨rfl, initial⟩)
    rw [Tree.climb_cons] at later
    omega
  · have reached := all.reached
    rw [Tree.climb_cons] at reached
    omega

theorem one {start stop : Nat} {leaf : Tree} (reached : start + leaf.brace = stop) :
    Climbs start [leaf] stop := by
  refine ⟨fun front initial => ?_, by simpa using reached⟩
  cases front with
  | nil => simp
  | cons other front =>
    obtain ⟨rfl, rest⟩ := List.cons_prefix_cons.1 initial
    rw [List.prefix_nil.1 rest, Tree.climb_cons, Tree.climb_nil]
    omega

theorem of_flat {leaves : List Tree} (flat : ∀ leaf ∈ leaves, leaf.brace = 0) (depth : Nat) :
    Climbs depth leaves depth := by
  induction leaves with
  | nil => exact nil depth
  | cons leaf rest ih =>
    obtain ⟨first, others⟩ := List.forall_mem_cons.1 flat
    have step : Climbs depth [leaf] depth := one (by omega)
    exact step.append (ih others)

end Climbs

theorem Tree.brace_of_isTrivia {tree : Tree} (trivia : tree.isTrivia) : tree.brace = 0 := by
  unfold isTrivia at trivia
  split at trivia
  · rfl
  · rfl
  · cases trivia

theorem Tree.brace_cases (tree : Tree) : tree.brace = 1 ∨ tree.brace = 0 ∨ tree.brace = -1 := by
  unfold brace
  split
  · exact .inl rfl
  · exact .inr (.inr rfl)
  · exact .inr (.inl rfl)

/-- The depth after a token, unless it would close what is not open. -/
def Token.depthAfter? (depth : Nat) (symbol : Token) : Option Nat :=
  if symbol.brace = 1 then some (depth + 1)
  else if symbol.brace = 0 then some depth
  else match depth with
    | 0 => none
    | depth + 1 => some depth

theorem Token.depthAfter?_eq_some {symbol : Token} {start stop : Nat}
    (known : symbol.depthAfter? start = some stop) : start + symbol.brace = stop := by
  have cases_of_brace : symbol.brace = 1 ∨ symbol.brace = 0 ∨ symbol.brace = -1 := by
    cases symbol with
    | mark spelling _ => exact Tree.brace_cases _
    | _ => exact .inr (.inl rfl)
  unfold depthAfter? at known
  rcases cases_of_brace with step | step | step
  · rw [if_pos step] at known
    cases known
    omega
  · rw [if_neg (by omega), if_pos step] at known
    cases known
    omega
  · rw [if_neg (by omega), if_neg (by omega)] at known
    cases start with
    | zero => cases known
    | succ depth =>
      cases known
      omega

namespace Rule

variable {Name : Type}

/-- The depth after a rule, given that after a token, if every way through it leads to the same depth.
What a rule that is named does is taken to lead back to the depth at its start. -/
def depthAfter? (after? : Nat → Token → Option Nat) (depth : Nat) : Rule Name → Option Nat
  | empty => some depth
  | token symbol => after? depth symbol
  | seq one two => (one.depthAfter? after? depth).bind fun middle => two.depthAfter? after? middle
  | alt one two => both (one.depthAfter? after? depth) (two.depthAfter? after? depth)
  | commit one two three =>
    both ((one.depthAfter? after? depth).bind fun middle => two.depthAfter? after? middle)
      (three.depthAfter? after? depth)
  | opt rule => both (some depth) (rule.depthAfter? after? depth)
  | many rule => both (some depth) (rule.depthAfter? after? depth)
  | tail rule => rule.depthAfter? after? depth
  | ref _ => some depth
  | node _ rule => rule.depthAfter? after? depth
  | ahead _ => some depth
  | notAhead _ => some depth
  | within _ rule => rule.depthAfter? after? depth
  | expecting _ rule => rule.depthAfter? after? depth
  | across rule => rule.depthAfter? after? depth
  | unlessBody rule => rule.depthAfter? after? depth
  | whereBody rule => rule.depthAfter? after? depth
  | unlessGuard rule => rule.depthAfter? after? depth
where
  both (one other : Option Nat) : Option Nat :=
    if one = other then one else none

theorem both_eq_some {one other : Option Nat} {depth : Nat}
    (agreed : depthAfter?.both one other = some depth) : one = some depth ∧ other = some depth := by
  rw [depthAfter?.both] at agreed
  split at agreed
  next same => exact ⟨agreed, same ▸ agreed⟩
  next => cases agreed

theorem Derives.climbs {rules : Name → Rule Name}
    (level : ∀ name, (rules name).depthAfter? Token.depthAfter? 0 = some 0)
    {rule : Rule Name} {trees : List Tree} (made : Derives rules rule trees) {start stop : Nat}
    (known : rule.depthAfter? Token.depthAfter? start = some stop) :
    Climbs start (leavesOfAll trees) stop := by
  induction made generalizing start stop with
  | empty =>
    cases known
    exact .nil start
  | @token symbol here trivia found rest between spelled =>
    rw [Tree.leavesOfAll_append, Tree.leavesOfAll_trivia between]
    have flat := fun leaf inside => Tree.brace_of_isTrivia (between leaf inside)
    refine (Climbs.of_flat flat start).append (Climbs.one ?_)
    rw [Token.read?_brace spelled]
    exact Token.depthAfter?_eq_some known
  | seq _ _ left right =>
    obtain ⟨middle, first, second⟩ := Option.bind_eq_some_iff.1 known
    rw [Tree.leavesOfAll_append]
    exact (left first).append (right second)
  | altLeft _ ih => exact ih (both_eq_some known).1
  | altRight _ ih => exact ih (both_eq_some known).2
  | commitFirst _ _ left right =>
    obtain ⟨middle, first, second⟩ := Option.bind_eq_some_iff.1 (both_eq_some known).1
    rw [Tree.leavesOfAll_append]
    exact (left first).append (right second)
  | commitLast _ ih => exact ih (both_eq_some known).2
  | optNone =>
    cases (both_eq_some known).1
    exact .nil start
  | optSome _ ih => exact ih (both_eq_some known).2
  | manyNone =>
    cases (both_eq_some known).1
    exact .nil start
  | manySome _ _ left right =>
    obtain ⟨same, first⟩ := both_eq_some known
    cases same
    rw [Tree.leavesOfAll_append]
    exact (left first).append (right known)
  | tail _ ih => exact ih known
  | ref _ ih =>
    cases known
    exact (ih (level _)).lift start
  | node _ ih =>
    rw [Tree.leavesOfAll_wrap]
    exact ih known
  | ahead =>
    cases known
    exact .nil start
  | notAhead =>
    cases known
    exact .nil start
  | within _ ih => exact ih known
  | expecting _ ih => exact ih known
  | across _ ih => exact ih known
  | unlessBody _ ih => exact ih known
  | whereBody _ ih => exact ih known
  | unlessGuard _ ih => exact ih known

end Rule

namespace Grammar

theorem rules_level (name : Name) : (rules name).depthAfter? Token.depthAfter? 0 = some 0 := by
  cases name <;> decide +kernel

theorem nodes_level (name : Name) :
    ∀ part ∈ (rules name).nodes, part.2.depthAfter? Token.depthAfter? 0 = some 0 := by
  cases name <;> decide +kernel

theorem file_nodes_level : ∀ part ∈ file.nodes, part.2.depthAfter? Token.depthAfter? 0 = some 0 := by
  decide +kernel

end Grammar

theorem Tree.climb_trivia {trivia : List Tree} (between : ∀ tree ∈ trivia, tree.isTrivia) :
    Tree.climb (leavesOfAll trivia) = 0 := by
  rw [Tree.leavesOfAll_trivia between]
  have flat := fun leaf inside => Tree.brace_of_isTrivia (between leaf inside)
  have reached := (Climbs.of_flat flat 0).reached
  omega

/-- Trees that lead back to their level, and on whose level all their nodes of one kind stand. -/
structure KeepsLevel (kind : NodeKind) (trees : List Tree) : Prop where
  whole : Tree.climb (leavesOfAll trees) = 0
  before : ∀ front inner back, trees = front ++ .node kind inner :: back →
    Tree.climb (leavesOfAll front) = 0

namespace KeepsLevel

variable {kind : NodeKind}

theorem of_no_node {trees : List Tree} (whole : Tree.climb (leavesOfAll trees) = 0)
    (absent : ∀ inner, .node kind inner ∉ trees) : KeepsLevel kind trees := by
  refine ⟨whole, ?_⟩
  rintro front inner back rfl
  exact absurd (List.mem_append_right front List.mem_cons_self) (absent inner)

theorem append {first second : List Tree} (left : KeepsLevel kind first)
    (right : KeepsLevel kind second) : KeepsLevel kind (first ++ second) := by
  have level := left.whole
  refine ⟨?_, fun front inner back same => ?_⟩
  · rw [Tree.leavesOfAll_append, Tree.climb_append, level, right.whole]
    rfl
  · rcases List.append_eq_append_iff.1 same with ⟨more, rfl, parts⟩ | ⟨more, rfl, parts⟩
    · have later := right.before more inner back parts
      rw [Tree.leavesOfAll_append, Tree.climb_append, level, later]
      rfl
    · cases more with
      | nil => rwa [List.append_nil] at level
      | cons tree more =>
        cases (List.cons.inj parts).1
        exact left.before front inner more rfl

theorem leaf {trivia : List Tree} (between : ∀ tree ∈ trivia, tree.isTrivia) {leafKind : LeafKind}
    {text : Text} (level : (Tree.leaf leafKind text).brace = 0) :
    KeepsLevel kind (trivia ++ [.leaf leafKind text]) := by
  refine of_no_node ?_ fun inner inside => ?_
  · rw [Tree.leavesOfAll_append, Tree.climb_append, Tree.climb_trivia between]
    simpa [leavesOfAll, Tree.leaves] using level
  · rcases List.mem_append.1 inside with front | last
    · cases between _ front
    · cases List.mem_singleton.1 last

/-- What is derived once and keeps the level keeps it any number of times. -/
theorem many {rule : Grammar.Rule}
    (each : ∀ trees, Rule.Derives Grammar.rules rule trees → KeepsLevel kind trees)
    {trees : List Tree} (made : Rule.Derives Grammar.rules (.many rule) trees) :
    KeepsLevel kind trees := by
  generalize same : Rule.many rule = whole at made
  induction made with
  | manyNone => exact of_no_node rfl fun _ => List.not_mem_nil
  | manySome first _ _ later =>
    cases same
    exact (each _ first).append (later rfl)
  | _ => cases same

end KeepsLevel

namespace Grammar

theorem keepsLevel_word {kind : NodeKind} {spelling : String} {trees : List Tree}
    (made : Rule.Derives rules (word spelling) trees)
    (level : (Tree.leaf .token spelling.toList).brace = 0) : KeepsLevel kind trees := by
  obtain ⟨trivia, between, rfl⟩ := derives_word made
  exact .leaf between level

theorem keepsLevel_mark {kind : NodeKind} {spelling : String} {trees : List Tree}
    (made : Rule.Derives rules (mark spelling) trees)
    (level : (Tree.leaf .token spelling.toList).brace = 0) : KeepsLevel kind trees := by
  obtain ⟨trivia, between, rfl⟩ := derives_mark made
  exact .leaf between level

/-- Specifications of types are made where they are declared only. -/
theorem rules_make_no_typeSpec (name : Name) : (rules name).makes (· != .typeSpec) true := by
  cases name <;> decide +kernel

theorem keepsLevel_of_makes {rule : Rule} {trees : List Tree} (made : Rule.Derives rules rule trees)
    (level : rule.depthAfter? Token.depthAfter? 0 = some 0) (other : rule.makes (· != .typeSpec) true) :
    KeepsLevel .typeSpec trees := by
  refine .of_no_node ?_ fun inner inside => ?_
  · have reached := (made.climbs rules_level level).reached
    omega
  · have allowed := made.makes (fun _ => rules_make_no_typeSpec) other inside
    cases allowed

theorem keepsLevel_typeSpec {trees : List Tree} (made : Rule.Derives rules typeSpec trees) :
    KeepsLevel .typeSpec trees := by
  unfold typeSpec at made
  cases made with
  | altLeft renamed => exact keepsLevel_of_makes renamed (by decide +kernel) (by decide +kernel)
  | altRight spec =>
    have level : (typeSpec).depthAfter? Token.depthAfter? 0 = some 0 := by decide +kernel
    have reached := (spec.climbs rules_level (Rule.both_eq_some level).2).reached
    obtain ⟨trivia, children, between, rfl⟩ := derives_node spec
    refine ⟨by omega, fun front inner back same => ?_⟩
    have blank := Tree.climb_trivia between
    -- The node is the last tree, so what is before it is white space and comments.
    rcases List.append_eq_append_iff.1 same with ⟨more, rfl, parts⟩ | ⟨more, rfl, parts⟩
    · cases more with
      | nil => rwa [List.append_nil]
      | cons tree more => cases more <;> cases parts
    · cases more with
      | nil => rwa [List.append_nil] at blank
      | cons tree more =>
        cases (List.cons.inj parts).1
        cases between _ (List.mem_append_right front List.mem_cons_self)

theorem keepsLevel_typeDeclaration {trees : List Tree}
    (made : Rule.Derives rules (declarations "type" typeSpec) trees) :
    KeepsLevel .typeSpec trees := by
  unfold declarations at made
  cases made with
  | seq word specs =>
    refine (keepsLevel_word word rfl).append ?_
    cases specs with
    | altRight spec => exact keepsLevel_typeSpec spec
    | altLeft group =>
      simp only [Go.Rule.sequence] at group
      cases group with
      | seq opening rest =>
        refine (keepsLevel_mark opening rfl).append ?_
        cases rest with
        | seq members closing =>
          refine KeepsLevel.append (.many (fun trees one => ?_) members) (keepsLevel_mark closing rfl)
          cases one with
          | seq spec ends =>
            have level := keepsLevel_of_makes ends (by decide +kernel) (by decide +kernel)
            exact (keepsLevel_typeSpec spec).append level

end Grammar

section Nodes

variable {source : Text} {trees children : List Tree} (parsed : parse? source = some trees)
include parsed

theorem node_climbs {kind : NodeKind} (occurs : (Tree.node kind children).Occurs trees) :
    Climbs 0 (leavesOfAll children) 0 := by
  obtain ⟨mark, body, rfl, trivia, made, _⟩ := parse?_taken parsed
  rcases occurs.append with inside | inside
  · exact absurd inside (Rule.no_node_in_trivia trivia)
  · obtain ⟨inner, whole, level, taken, rfl⟩ :=
      @Rule.Derives.shaped _ _ (fun _ inner => inner.depthAfter? Token.depthAfter? 0 = some 0)
        Grammar.nodes_level _ _ made Grammar.file_nodes_level _ _ inside
    have all := taken.climbs Grammar.rules_level level
    rw [← List.takeWhile_append_dropWhile (p := Tree.isTrivia) (l := whole),
      Tree.leavesOfAll_append] at all
    exact all.behind (Tree.climb_trivia (List.all_eq_true.1 List.all_takeWhile))

/-- Between the braces of a struct the depth never falls back to that outside. -/
theorem fieldList_climbs (occurs : (Tree.node .fieldList children).Occurs trees) :
    ∃ middle, children = .leaf .token ['\x7b'] :: (middle ++ [.leaf .token ['\x7d']]) ∧
      Climbs 0 (leavesOfAll middle) 0 := by
  obtain ⟨rule, whole, rfl, made, rfl⟩ := node_contents parsed occurs
  obtain ⟨inner, gap, held, blank, same⟩ := Grammar.derives_bracketed made
  refine ⟨inner ++ gap, same, ?_⟩
  rw [Tree.leavesOfAll_append, Tree.leavesOfAll_trivia blank]
  have flat := fun leaf inside => Tree.brace_of_isTrivia (blank leaf inside)
  exact (held.climbs Grammar.rules_level (by decide +kernel)).append (.of_flat flat 0)

/-- The specifications of a type declaration stand on its level. -/
theorem climb_before_typeSpec (occurs : (Tree.node .typeDeclaration children).Occurs trees)
    {front back inner : List Tree} (parts : children = front ++ .node .typeSpec inner :: back) :
    Tree.climb (leavesOfAll front) = 0 := by
  obtain ⟨rule, whole, rfl, made, rfl⟩ := node_contents parsed occurs
  have level := (Grammar.keepsLevel_typeDeclaration made).before
    (whole.takeWhile Tree.isTrivia ++ front) inner back (by
      rw [List.append_assoc, ← parts, List.takeWhile_append_dropWhile])
  have blank := Tree.climb_trivia (List.all_eq_true.1 (List.all_takeWhile (p := Tree.isTrivia) (l := whole)))
  rwa [Tree.leavesOfAll_append, Tree.climb_append, blank, Int.zero_add] at level

end Nodes

end GoGraft.Go

namespace GoGraft

open Go (Tree Climbs)

/-! ### Rows -/

/-- The braces among trees that start on a row or above it. -/
def bracesUpTo (row : Nat) (items : List Located) : Int :=
  ((items.filter fun item => item.start.row ≤ row).map fun item => item.tree.brace).sum

theorem bracesUpTo_cons (row : Nat) (item : Located) (items : List Located) :
    bracesUpTo row (item :: items) =
      (if item.start.row ≤ row then item.tree.brace else 0) + bracesUpTo row items := by
  rw [bracesUpTo, List.filter_cons]
  by_cases here : item.start.row ≤ row
  · simp [here, bracesUpTo]
  · simp [here, bracesUpTo]

theorem bracesUpTo_append (row : Nat) (first second : List Located) :
    bracesUpTo row (first ++ second) = bracesUpTo row first + bracesUpTo row second := by
  rw [bracesUpTo, List.filter_append, List.map_append, List.sum_append]
  rfl

theorem bracesOn_append (row : Nat) (first second : List Located) :
    bracesOn row (first ++ second) = bracesOn row first + bracesOn row second := by
  rw [bracesOn, List.filter_append, List.map_append, List.sum_append]
  rfl

theorem bracesUpTo_succ (row : Nat) (items : List Located) :
    bracesUpTo (row + 1) items = bracesUpTo row items + bracesOn (row + 1) items := by
  induction items with
  | nil => rfl
  | cons item rest ih =>
    rw [bracesUpTo_cons, bracesUpTo_cons, bracesOn_cons, ih]
    split <;> split <;> split <;> omega

theorem bracesUpTo_of_behind {row : Nat} {items : List Located}
    (behind : ∀ item ∈ items, row < item.start.row) : bracesUpTo row items = 0 := by
  have nothing : items.filter (fun item => decide (item.start.row ≤ row)) = [] := by
    rw [List.filter_eq_nil_iff]
    intro item inside
    have := behind item inside
    simp only [decide_eq_true_eq]
    omega
  rw [bracesUpTo, nothing]
  rfl

theorem bracesUpTo_of_first {row : Nat} {items : List Located}
    (below : ∀ item ∈ items, row ≤ item.start.row) : bracesUpTo row items = bracesOn row items := by
  have same : items.filter (fun item => decide (item.start.row ≤ row)) =
      items.filter (fun item => item.start.row == row) := by
    refine List.filter_congr fun item inside => ?_
    have := below item inside
    rw [Bool.eq_iff_iff, decide_eq_true_eq, beq_iff_eq]
    omega
  rw [bracesUpTo, bracesOn, same]

theorem bracesOn_nonneg {row : Nat} {items : List Located}
    (opening : ∀ item ∈ items, item.start.row = row → item.tree.brace ≠ -1) :
    0 ≤ bracesOn row items := by
  induction items with
  | nil => exact Int.le_refl 0
  | cons item rest ih =>
    obtain ⟨first, others⟩ := List.forall_mem_cons.1 opening
    have later := ih others
    rw [bracesOn_cons]
    split
    next here =>
      have step := first here
      have values := item.tree.brace_cases
      omega
    next => omega

/-! The leaves up to a row are the first ones. -/

theorem bracesUpTo_sideBySide (place : Place) (leaves : List Tree) (row : Nat) :
    ∃ front, front <+: leaves ∧ bracesUpTo row (Located.sideBySide place leaves) = Tree.climb front := by
  induction leaves generalizing place with
  | nil => exact ⟨[], List.nil_prefix, rfl⟩
  | cons leaf rest ih =>
    by_cases here : place.row ≤ row
    · obtain ⟨front, initial, braces⟩ := ih (place.after leaf.text)
      refine ⟨leaf :: front, List.cons_prefix_cons.2 ⟨rfl, initial⟩, ?_⟩
      rw [Located.sideBySide, bracesUpTo_cons, if_pos here, braces, Tree.climb_cons]
    · refine ⟨[], List.nil_prefix, bracesUpTo_of_behind fun item inside => ?_⟩
      have start := row_le_of_mem_sideBySide inside
      omega

theorem bracesUpTo_of_before {place : Place} {leaves : List Tree} {row : Nat}
    (before : ∀ item ∈ Located.sideBySide place leaves, item.start.row ≤ row) :
    bracesUpTo row (Located.sideBySide place leaves) = Tree.climb leaves := by
  induction leaves generalizing place with
  | nil => rfl
  | cons leaf rest ih =>
    obtain ⟨first, others⟩ := List.forall_mem_cons.1 before
    rw [Located.sideBySide, bracesUpTo_cons, if_pos first, ih others, Tree.climb_cons]

theorem bracesUpTo_nonneg {leaves : List Tree} (climbs : Climbs 0 leaves 0) (place : Place) (row : Nat) :
    0 ≤ bracesUpTo row (Located.sideBySide place leaves) := by
  obtain ⟨front, initial, braces⟩ := bracesUpTo_sideBySide place leaves row
  have above := climbs.above front initial
  omega

theorem row_le_stop_of_mem_sideBySide {place : Place} {trees : List Tree} {item : Located}
    (inside : item ∈ Located.sideBySide place trees) :
    item.start.row ≤ (place.after (Tree.textOfAll trees)).row := by
  obtain ⟨front, back, rfl, start, _⟩ := Located.mem_sideBySide inside
  rw [Tree.textOfAll_append, ← Place.after_after, ← start]
  exact Nat.le_add_right _ _

namespace Located

/-- The braces of a tree that are open at the end of a row. -/
def openBraces (located : Located) (row : Nat) : Int :=
  bracesUpTo row located.leaves

theorem openBraces_succ (located : Located) (row : Nat) :
    located.openBraces (row + 1) = located.openBraces row + bracesOn (row + 1) located.leaves :=
  bracesUpTo_succ row located.leaves

theorem openBraces_start (located : Located) :
    located.openBraces located.start.row = bracesOn located.start.row located.leaves :=
  bracesUpTo_of_first fun _ inside => row_le_of_mem_sideBySide inside

/-- No closing brace stands before a tree on the row where it starts. -/
def LeadsRow (trees : List Tree) (located : Located) : Prop :=
  ∀ leaf ∈ sideBySide {} (Tree.leavesOfAll trees), leaf.start.row = located.start.row →
    leaf.stop.offset ≤ located.start.offset → leaf.tree.brace ≠ -1

instance (trees : List Tree) (located : Located) : Decidable (located.LeadsRow trees) :=
  inferInstanceAs (Decidable (∀ leaf ∈ _, _))

section Within

variable {trees : List Tree} {located : Located} (within : Within (sideBySide {} trees) located)
include within

/-- The leaves around those of a tree: none before them starts on a row below it, and none behind
them on a row above its end. -/
theorem Within.around :
    ∃ front back, sideBySide {} (Tree.leavesOfAll trees) = front ++ located.leaves ++ back ∧
      (∀ item ∈ front, item.start.row ≤ located.start.row ∧ item.stop.offset ≤ located.start.offset) ∧
      ∀ item ∈ back, located.stop.row ≤ item.start.row := by
  obtain ⟨front, back, parts, start, stop⟩ := within.split
  refine ⟨sideBySide {} front, sideBySide located.stop back, ?_, fun item inside => ?_, ?_⟩
  · rw [parts, sideBySide_append, sideBySide_append, Tree.textOfAll_append, ← Place.after_after,
      ← start, Tree.textOfAll_leaves, stop]
    rfl
  · have bounds := bounds_of_mem_sideBySide inside
    have row := row_le_stop_of_mem_sideBySide inside
    rw [← start] at row
    rw [← Place.offset_after, ← start] at bounds
    exact ⟨row, bounds.2.2⟩
  · intro item inside
    exact row_le_of_mem_sideBySide inside

/-- Below the row where a tree starts and above the row where it stops, all braces are its own. -/
theorem Within.bracesOn_inside {row : Nat} (below : located.start.row < row)
    (above : row < located.stop.row) :
    bracesOn row (sideBySide {} (Tree.leavesOfAll trees)) = bracesOn row located.leaves := by
  obtain ⟨front, back, parts, before, behind⟩ := within.around
  have first : bracesOn row front = 0 :=
    bracesOn_elsewhere fun item inside => Nat.ne_of_lt (Nat.lt_of_le_of_lt (before item inside).1 below)
  have last : bracesOn row back = 0 :=
    bracesOn_elsewhere fun item inside => Nat.ne_of_gt (Nat.lt_of_lt_of_le above (behind item inside))
  rw [parts, bracesOn_append, bracesOn_append, first, last, Int.zero_add, Int.add_zero]

/-- On the row where a tree starts, the braces are at least its own, unless a closing brace stands
before it. -/
theorem Within.bracesOn_start (above : located.start.row < located.stop.row)
    (leads : located.LeadsRow trees) :
    bracesOn located.start.row located.leaves ≤
      bracesOn located.start.row (sideBySide {} (Tree.leavesOfAll trees)) := by
  obtain ⟨front, back, parts, before, behind⟩ := within.around
  rw [LeadsRow, parts] at leads
  have first : 0 ≤ bracesOn located.start.row front := by
    refine bracesOn_nonneg fun item inside here => ?_
    exact leads item (List.mem_append_left _ (List.mem_append_left _ inside)) here (before item inside).2
  have last : bracesOn located.start.row back = 0 :=
    bracesOn_elsewhere fun item inside => Nat.ne_of_gt (Nat.lt_of_lt_of_le above (behind item inside))
  rw [parts, bracesOn_append, bracesOn_append]
  omega

end Within

end Located

end GoGraft
