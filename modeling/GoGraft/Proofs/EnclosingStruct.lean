import GoGraft.Directive.Scan
import GoGraft.Proofs.BodyComments
import GoGraft.Proofs.BraceDepth
import GoGraft.Proofs.HeaderLines

/-! The struct that a line is in. Directives are filed under the struct whose header was met last,
line by line; the structs of a file are read by the grammar. The two agree on the lines between the
braces of a struct, where its header stands on one line and no later line looks like another header. -/

namespace GoGraft

open Go (Tree)

/-! ### Contexts along the lines -/

theorem Text.line_eq_getElem {source : Text} {row : Nat} (inside : row < (Text.lines source).length) :
    Text.line source row = (Text.lines source)[row] := by
  rw [Text.line, List.getD_eq_getElem?_getD, List.getElem?_eq_getElem inside]
  rfl

namespace ScanContext

/-- The context in which the directives of a row are read. -/
def inForce (source : Text) (row : Nat) : ScanContext :=
  ((Text.lines source).take (row + 1)).foldl advance {}

theorem inForce_eq {source : Text} {row : Nat} (inside : row < (Text.lines source).length) :
    inForce source row =
      (((Text.lines source).take row).foldl advance {}).advance (Text.line source row) := by
  rw [inForce, List.take_add_one, List.foldl_append, Text.line_eq_getElem inside,
    List.getElem?_eq_getElem inside]
  rfl

theorem inForce_succ {source : Text} {row : Nat} (inside : row + 1 < (Text.lines source).length) :
    inForce source (row + 1) = (inForce source row).advance (Text.line source (row + 1)) :=
  inForce_eq inside

theorem advance_declaration {context : ScanContext} {line : Text}
    (absent : context.header? line = none) :
    (context.advance line).declaration = context.declaration := by
  rw [advance, absent]
  rfl

theorem advance_declares {context : ScanContext} {line name : Text}
    (found : context.header? line = some name) : (context.advance line).declaration = some name := by
  rw [advance, found]
  rfl

/-- A line in a group that is still open after it. -/
theorem advance_groupDepth {context : ScanContext} {line : Text} {depth : Nat}
    (closed : Directive.opensTypeGroup line = false)
    (found : (context.advance line).groupDepth = some depth) :
    ∃ before, context.groupDepth = some before ∧
      depth = (before + Directive.braceBalance line : Int).toNat := by
  rw [advance] at found
  simp only [closed, Bool.false_eq_true, if_false, Option.bind_eq_some_iff] at found
  obtain ⟨before, known, after⟩ := found
  refine ⟨before, known, ?_⟩
  rw [depthAfter?] at after
  split at after
  · cases after
  · cases after
    rfl

theorem advance_groupDepth_of_open {context : ScanContext} {line : Text} {before : Nat}
    (known : context.groupDepth = some before) (closed : Directive.opensTypeGroup line = false)
    (stays : (Text.trimStart line).head? = some ')' → 0 < before + Directive.braceBalance line) :
    (context.advance line).groupDepth = some (before + Directive.braceBalance line : Int).toNat := by
  rw [advance, known]
  simp only [closed, Bool.false_eq_true, if_false, Option.bind_some, depthAfter?]
  refine if_neg fun ⟨level, bracket⟩ => ?_
  have := stays bracket
  omega

end ScanContext

theorem Scan.addLines_append (context : ScanContext) (number : Nat) (scan : Scan) (first second : List Text) :
    Scan.addLines context number scan (first ++ second) =
      Scan.addLines (first.foldl ScanContext.advance context) (number + first.length)
        (Scan.addLines context number scan first) second := by
  induction first generalizing context number scan with
  | nil => rfl
  | cons line rest ih =>
    rw [List.cons_append, Scan.addLines, ih, List.length_cons, Nat.add_right_comm, Nat.add_assoc]
    rfl

/-- The directives of a row are filed in the context that is in force there. -/
theorem scan_eq {source : Text} {row : Nat} (inside : row < (Text.lines source).length) :
    scan source = Scan.addLines (.inForce source row) (row + 2)
      ((Scan.addLines {} 1 {} ((Text.lines source).take row)).addLine
        (ScanContext.inForce source row).declaration (Text.line source row) (row + 1))
      ((Text.lines source).drop (row + 1)) := by
  have parts : Text.lines source = (Text.lines source).take row ++
      Text.line source row :: (Text.lines source).drop (row + 1) := by
    rw [Text.line_eq_getElem inside, List.getElem_cons_drop, List.take_append_drop]
  have count : 1 + ((Text.lines source).take row).length = row + 1 := by
    rw [List.length_take]
    omega
  conv_lhs => rw [scan, parts, Scan.addLines_append, count, Scan.addLines]
  rw [ScanContext.inForce_eq inside]

/-! ### Structs and where they are declared -/

/-- A struct of a file, with the declaration and the specification it is read from and the list of its
fields, braces included. -/
structure StructDeclaration.DeclaredAt (source : Text) (trees : List Tree) (struct : StructDeclaration)
    (declaration spec list : Located) : Prop where
  top : declaration ∈ Located.sideBySide {} trees
  declares : declaration.isNode .typeDeclaration
  among : spec ∈ declaration.nodes .typeSpec
  read : StructDeclaration.ofSpec? source spec = some struct
  listed : (structNode? spec).bind (·.node? .fieldList) = some list

theorem mem_structsOfRoots {source : Text} {trees : List Tree} {struct : StructDeclaration} :
    struct ∈ structsOfRoots source (Located.sideBySide {} trees) ↔
      ∃ declaration spec list, struct.DeclaredAt source trees declaration spec list := by
  simp only [structsOfRoots, List.mem_filterMap, List.mem_flatMap, List.mem_filter]
  constructor
  · rintro ⟨spec, ⟨declaration, ⟨top, declares⟩, among⟩, read⟩
    have parts := read
    simp only [StructDeclaration.ofSpec?, Option.bind_eq_bind, Option.bind_eq_some_iff] at parts
    obtain ⟨name, _, type, found, list, listed, _⟩ := parts
    exact ⟨declaration, spec, list, top, declares, among, read, by rw [found]; exact listed⟩
  · rintro ⟨declaration, spec, list, declared⟩
    exact ⟨spec, ⟨declaration, ⟨declared.top, declared.declares⟩, declared.among⟩, declared.read⟩

theorem Located.Within.openBraces_nonneg {source : Text} {trees : List Tree} {located : Located}
    (parsed : Go.parse? source = some trees) (within : Within (sideBySide {} trees) located)
    {kind : Go.NodeKind} (node : located.isNode kind) (row : Nat) : 0 ≤ located.openBraces row := by
  obtain ⟨children, same⟩ := isNode_iff.1 node
  have climbs := Go.node_climbs parsed (same ▸ (within.partOf parsed).occurs)
  rw [openBraces, leaves, same]
  exact bracesUpTo_nonneg climbs _ _

theorem Located.Within.stop_row_le {source : Text} {trees : List Tree} {located : Located}
    (parsed : Go.parse? source = some trees) (within : Within (sideBySide {} trees) located) :
    located.stop.row ≤ Text.breaks source := by
  obtain ⟨front, back, parts, start, stop⟩ := within.split
  have whole := Go.parse?_spelled parsed
  rw [← Tree.textOfAll_leavesOfAll, parts, Tree.textOfAll_append, Tree.textOfAll_append,
    Tree.textOfAll_leaves] at whole
  rw [stop, start, ← whole]
  simp only [Place.after, Text.breaks, List.countP_append, Located.text]
  omega

namespace StructDeclaration.DeclaredAt

variable {source : Text} {trees : List Tree} {struct : StructDeclaration}
  {declaration spec list : Located} (declared : struct.DeclaredAt source trees declaration spec list)
include declared

theorem declaration_within : Located.Within (Located.sideBySide {} trees) declaration :=
  .root declared.top

theorem spec_within : Located.Within (Located.sideBySide {} trees) spec :=
  declared.declaration_within.child (List.mem_filter.1 declared.among).1

theorem isSpec : spec.isNode .typeSpec :=
  (List.mem_filter.1 declared.among).2

/-- The list of the fields is below the specification. -/
theorem list_below {roots : List Located} (within : Located.Within roots spec) :
    Located.Within roots list ∧ list.isNode .fieldList := by
  obtain ⟨type, found, listed⟩ := Option.bind_eq_some_iff.1 declared.listed
  obtain ⟨holder, outer, inner, _⟩ := structNode?_eq_some found
  obtain ⟨held, kind⟩ := Located.mem_of_node? listed
  exact ⟨((within.child outer).child inner).child held, kind⟩

theorem list_in_spec :
    ∃ front back, spec.tree.leaves = front ++ list.tree.leaves ++ back ∧
      list.start = spec.start.after (Tree.textOfAll front) ∧
      list.stop = list.start.after list.text := by
  have stop : spec.stop = spec.start.after spec.tree.text := declared.spec_within.stop_eq
  have itself : spec ∈ Located.sideBySide spec.start [spec.tree] := by
    rw [Located.sideBySide, Located.sideBySide, List.mem_singleton, ← stop]
  have split := (declared.list_below (.root itself)).1.split
  rwa [Tree.leavesOfAll, Tree.leavesOfAll, List.append_nil] at split

theorem list_rows : spec.start.row ≤ list.start.row ∧ list.stop.row ≤ spec.stop.row := by
  obtain ⟨front, back, leaves, start, stop⟩ := declared.list_in_spec
  have spelled := congrArg Tree.textOfAll leaves
  rw [Tree.textOfAll_append, Tree.textOfAll_append, Tree.textOfAll_leaves, Tree.textOfAll_leaves] at spelled
  rw [stop, declared.spec_within.stop_eq, Located.text, Located.text, spelled, start]
  simp only [Place.after, List.countP_append]
  omega

theorem spec_start_le : spec.start.row ≤ declaration.stop.row := by
  obtain ⟨children, same⟩ := Located.isNode_iff.1 declared.declares
  have held := (List.mem_filter.1 declared.among).1
  rw [Located.children, same] at held
  have rows := row_le_stop_of_mem_sideBySide held
  rwa [declared.declaration_within.stop_eq, Located.text, same, Tree.text]

variable (parsed : Go.parse? source = some trees)
include parsed

/-- Inside the braces of a struct a brace is open. -/
theorem list_open {row : Nat} (below : list.start.row ≤ row) (above : row < list.stop.row) :
    1 ≤ list.openBraces row := by
  obtain ⟨within, kind⟩ := declared.list_below declared.spec_within
  obtain ⟨children, same⟩ := Located.isNode_iff.1 kind
  obtain ⟨middle, rfl, climbs⟩ := Go.fieldList_climbs parsed (same ▸ (within.partOf parsed).occurs)
  have leaves : list.tree.leaves =
      .leaf .token ['\x7b'] :: (Tree.leavesOfAll middle ++ [.leaf .token ['\x7d']]) := by
    rw [same, Tree.leaves, Tree.leavesOfAll, Tree.leavesOfAll_append]
    rfl
  have stop := within.stop_eq
  rw [Located.openBraces, Located.leaves, leaves, Located.sideBySide, bracesUpTo_cons, if_pos below,
    Located.sideBySide_append, bracesUpTo_append]
  have inner := bracesUpTo_nonneg climbs (list.start.after (Tree.leaf .token ['\x7b']).text) row
  have closing : bracesUpTo row (Located.sideBySide ((list.start.after (Tree.leaf .token ['\x7b']).text).after
      (Tree.textOfAll (Tree.leavesOfAll middle))) [.leaf .token ['\x7d']]) = 0 := by
    refine bracesUpTo_of_behind (List.forall_mem_singleton.2 ?_)
    rw [stop, Located.text, ← Tree.textOfAll_leaves, leaves] at above
    have flat : (Tree.leaf .token ['\x7d']).text.countP (· == '\n') = 0 := rfl
    simp only [Tree.textOfAll, Tree.textOfAll_append, Place.after, List.countP_append, flat,
      List.countP_nil] at above ⊢
    omega
  have step : (Tree.leaf .token ['\x7b']).brace = 1 := rfl
  rw [closing, step]
  omega

/-- Between the braces of a struct, its specification has a brace open. -/
theorem spec_open {row : Nat} (below : list.start.row ≤ row) (above : row < list.stop.row) :
    1 ≤ spec.openBraces row := by
  obtain ⟨front, back, leaves, start, stop⟩ := declared.list_in_spec
  obtain ⟨children, same⟩ := Located.isNode_iff.1 declared.isSpec
  have climbs := Go.node_climbs parsed (same ▸ (declared.spec_within.partOf parsed).occurs)
  have inner := declared.list_open parsed below above
  have first : 0 ≤ bracesUpTo row (Located.sideBySide spec.start front) := by
    obtain ⟨initial, up, braces⟩ := bracesUpTo_sideBySide spec.start front row
    have whole : initial <+: Tree.leavesOfAll children := by
      rw [same, Tree.leaves] at leaves
      rw [leaves, List.append_assoc]
      exact up.trans (List.prefix_append _ _)
    have above := climbs.above initial whole
    omega
  have last : bracesUpTo row (Located.sideBySide list.stop back) = 0 := by
    refine bracesUpTo_of_behind fun item inside => ?_
    have later := row_le_of_mem_sideBySide inside
    omega
  rw [Located.text] at stop
  rw [Located.openBraces, Located.leaves, leaves, Located.sideBySide_append, Located.sideBySide_append,
    Tree.textOfAll_append, ← Place.after_after, ← start, Tree.textOfAll_leaves, ← stop,
    bracesUpTo_append, bracesUpTo_append, last]
  rw [Located.openBraces, Located.leaves] at inner
  omega

/-- Over the row of a specification no brace of its declaration is open, unless a closing brace stands
before it on its row. -/
theorem level_above {row : Nat} (next : spec.start.row = row + 1)
    (leads : spec.LeadsRow trees) : declaration.openBraces row ≤ 0 := by
  obtain ⟨children, same⟩ := Located.isNode_iff.1 declared.declares
  obtain ⟨inner, node⟩ := Located.isNode_iff.1 declared.isSpec
  have held := (List.mem_filter.1 declared.among).1
  rw [Located.children, same] at held
  obtain ⟨front, back, parts, start, _⟩ := Located.mem_sideBySide held
  have occurs := same ▸ (declared.declaration_within.partOf parsed).occurs
  have level := Go.climb_before_typeSpec parsed occurs (node ▸ parts)
  have leaves : declaration.leaves = Located.sideBySide declaration.start (Tree.leavesOfAll front) ++
      Located.sideBySide spec.start (Tree.leavesOfAll (spec.tree :: back)) := by
    rw [Located.leaves, same, Tree.leaves, parts, Tree.leavesOfAll_append, Located.sideBySide_append,
      Tree.textOfAll_leavesOfAll, ← start]
  have before : ∀ item ∈ Located.sideBySide declaration.start (Tree.leavesOfAll front),
      item.start.row ≤ row + 1 ∧ item.stop.offset ≤ spec.start.offset := by
    intro item inside
    have bounds := Located.bounds_of_mem_sideBySide inside
    have rows := row_le_stop_of_mem_sideBySide inside
    rw [Tree.textOfAll_leavesOfAll, ← start, next] at rows
    rw [Tree.textOfAll_leavesOfAll, ← Place.offset_after, ← start] at bounds
    exact ⟨rows, bounds.2.2⟩
  have whole := bracesUpTo_of_before fun item inside => (before item inside).1
  have opening : 0 ≤ bracesOn (row + 1) (Located.sideBySide declaration.start (Tree.leavesOfAll front)) := by
    refine bracesOn_nonneg fun item inside here => ?_
    have among : item ∈ declaration.leaves := leaves ▸ List.mem_append_left _ inside
    exact leads item (declared.declaration_within.leaves_sublist.subset among) (here.trans next.symm)
      (before item inside).2
  have behind : bracesUpTo row (Located.sideBySide spec.start (Tree.leavesOfAll (spec.tree :: back))) = 0 := by
    refine bracesUpTo_of_behind fun item inside => ?_
    have later := row_le_of_mem_sideBySide inside
    omega
  have step := bracesUpTo_succ row (Located.sideBySide declaration.start (Tree.leavesOfAll front))
  rw [Located.openBraces, leaves, bracesUpTo_append, behind]
  omega

end StructDeclaration.DeclaredAt

/-! ### What the lines must be like -/

/-- The line on a row leaves the group of a declaration open: it opens no other one, its braces are
counted as they are, and if it starts with a closing bracket, it is inside braces of the group. -/
def KeepsGroup (source : Text) (trees : List Tree) (declaration : Located) (row : Nat) : Prop :=
  Directive.opensTypeGroup (Text.line source row) = false ∧ CountedRow source trees row ∧
    ((Text.trimStart (Text.line source row)).head? = some ')' →
      declaration.openBraces declaration.start.row < declaration.openBraces row)

instance (source : Text) (trees : List Tree) (declaration : Located) (row : Nat) :
    Decidable (KeepsGroup source trees declaration row) :=
  inferInstanceAs (Decidable (_ ∧ _))

/-- How the header of a struct is met: on a line with the word `type`, or in a group of types that is
still open. -/
inductive HeaderMet (source : Text) (trees : List Tree) (name : Text) (declaration spec : Located) :
    Prop where
  | alone (header : Directive.HeaderLine name (Text.line source spec.start.row))
  | member (group : Directive.GroupLine (Text.line source declaration.start.row))
      (below : declaration.start.row < spec.start.row)
      (keeps : ∀ row, declaration.start.row < row → row < spec.start.row →
        KeepsGroup source trees declaration row)
      (header : Directive.MemberLine name (Text.line source spec.start.row))
      (other : Directive.declarationHeader? (Text.line source spec.start.row) = none)

/-- The lines from the header of a struct down to a row show that the row is in the struct. Braces are
counted in groups only. -/
structure Legible (source : Text) (trees : List Tree) (name : Text)
    (declaration spec list : Located) (row : Nat) : Prop where
  header : HeaderMet source trees name declaration spec
  leads : spec.LeadsRow trees
  headers : ∀ later, spec.start.row < later → later ≤ row →
    Directive.declarationHeader? (Text.line source later) = none
  groups : ∀ later, spec.start.row ≤ later → later ≤ row →
    Directive.opensTypeGroup (Text.line source later) = false
  /-- Lines between the header and the opening brace, if there are any. -/
  members : ∀ later, spec.start.row < later → later ≤ list.start.row →
    Directive.memberHeader? (Text.line source later) = none
  counted : ∀ later, spec.start.row ≤ later → later ≤ row →
    (ScanContext.inForce source later).inTypeGroup → CountedRow source trees later

/-! ### Along the lines -/

theorem Text.lt_length_lines {text : Text} {number : Nat} (inside : number < Text.breaks text) :
    number < (Text.lines text).length :=
  (List.getElem?_eq_some_iff.1 (Text.lines_getElem? inside)).1

/-- The struct is in force, and where a group is open, it is at least as deep as the struct. -/
def Enclosed (source name : Text) (spec : Located) (row : Nat) : Prop :=
  (ScanContext.inForce source row).declaration = some name ∧
    ∀ depth, (ScanContext.inForce source row).groupDepth = some depth → spec.openBraces row ≤ depth

section Run

variable {source : Text} {trees : List Tree} (parsed : Go.parse? source = some trees)
  {struct : StructDeclaration} {declaration spec list : Located}
  (declared : struct.DeclaredAt source trees declaration spec list)
include parsed declared

/-- Down to the header of a member, its group is open, and its depth is that of the braces. -/
theorem groupDepth_above (group : Directive.GroupLine (Text.line source declaration.start.row))
    (keeps : ∀ row, declaration.start.row < row → row < spec.start.row →
      KeepsGroup source trees declaration row)
    (row : Nat) (below : declaration.start.row ≤ row) (above : row < spec.start.row) :
    ∃ depth : Nat, (ScanContext.inForce source row).groupDepth = some depth ∧
      depth ≤ declaration.openBraces row ∧
      declaration.openBraces row - declaration.openBraces declaration.start.row ≤ depth := by
  have within := declared.declaration_within
  have nonneg := within.openBraces_nonneg parsed declared.declares
  have ended := within.stop_row_le parsed
  have stop := declared.spec_start_le
  induction row, below using Nat.le_induction with
  | base =>
    have start := nonneg declaration.start.row
    refine ⟨0, ?_, by omega, by omega⟩
    rw [ScanContext.inForce_eq (Text.lt_length_lines (by omega)), ScanContext.advance,
      group.opensTypeGroup_eq]
    rfl
  | succ row below ih =>
    obtain ⟨depth, known, upper, lower⟩ := ih (by omega)
    obtain ⟨closed, counted, inBraces⟩ := keeps (row + 1) (by omega) above
    have later := nonneg (row + 1)
    have balance : Directive.braceBalance (Text.line source (row + 1)) =
        declaration.openBraces (row + 1) - declaration.openBraces row := by
      have step := declaration.openBraces_succ row
      rw [counted, within.bracesOn_inside (by omega) (by omega)]
      omega
    refine ⟨(depth + Directive.braceBalance (Text.line source (row + 1)) : Int).toNat, ?_, ?_, ?_⟩
    · rw [ScanContext.inForce_succ (Text.lt_length_lines (by omega))]
      refine ScanContext.advance_groupDepth_of_open known closed fun bracket => ?_
      have deeper := inBraces bracket
      omega
    · omega
    · omega

variable {row : Nat} (legible : Legible source trees struct.name declaration spec list row)
include legible

theorem enclosed_header (spans : spec.start.row < spec.stop.row) (above : spec.start.row ≤ row) :
    Enclosed source struct.name spec spec.start.row := by
  have within := declared.spec_within
  have ended := within.stop_row_le parsed
  have line := Text.lt_length_lines (Nat.lt_of_lt_of_le spans ended)
  constructor
  · cases legible.header with
    | alone header =>
      rw [ScanContext.inForce_eq line]
      refine ScanContext.advance_declares ?_
      rw [ScanContext.header?, header.declarationHeader?_eq]
    | member group below keeps header other =>
      obtain ⟨before, next⟩ := Nat.exists_eq_add_one_of_ne_zero (Nat.ne_of_gt (Nat.zero_lt_of_lt below))
      obtain ⟨depth, known, upper, _⟩ := groupDepth_above parsed declared group keeps before
        (by omega) (by omega)
      have level := declared.level_above parsed next legible.leads
      have ground : depth = 0 := by omega
      rw [next] at line header other ⊢
      rw [ScanContext.inForce_succ line]
      refine ScanContext.advance_declares ?_
      rw [ScanContext.header?, other, known, ground, if_pos rfl, header.memberHeader?_eq]
  · intro depth found
    have counted := legible.counted _ (Nat.le_refl _) above (by rw [ScanContext.inTypeGroup, found]; rfl)
    rw [ScanContext.inForce_eq line] at found
    obtain ⟨before, _, rfl⟩ :=
      ScanContext.advance_groupDepth (legible.groups _ (Nat.le_refl _) above) found
    have own := within.bracesOn_start spans legible.leads
    rw [counted, spec.openBraces_start]
    omega

theorem enclosed_step {later : Nat} (below : spec.start.row ≤ later) (above : later + 1 ≤ row)
    (inside : row < list.stop.row) (enclosed : Enclosed source struct.name spec later) :
    Enclosed source struct.name spec (later + 1) := by
  have within := declared.spec_within
  have ended := within.stop_row_le parsed
  have rows := declared.list_rows
  obtain ⟨declares, deep⟩ := enclosed
  have line : later + 1 < (Text.lines source).length := Text.lt_length_lines (by omega)
  constructor
  · rw [ScanContext.inForce_succ line, ScanContext.advance_declaration, declares]
    rw [ScanContext.header?, legible.headers _ (by omega) above]
    refine ite_eq_right_iff.2 fun ground => ?_
    by_cases opened : later + 1 ≤ list.start.row
    · exact legible.members _ (by omega) opened
    · -- Between the braces the group is never on its ground level.
      have some_open : 1 ≤ spec.openBraces later := declared.spec_open parsed (by omega) (by omega)
      have depth := deep 0 ground
      omega
  · intro depth found
    have counted := legible.counted (later + 1) (by omega) above
      (by rw [ScanContext.inTypeGroup, found]; rfl)
    rw [ScanContext.inForce_succ line] at found
    obtain ⟨before, known, rfl⟩ :=
      ScanContext.advance_groupDepth (legible.groups _ (by omega) above) found
    have depth := deep before known
    rw [counted, within.bracesOn_inside (by omega) (by omega), spec.openBraces_succ]
    omega

theorem enclosed_of_legible (below : list.start.row < row) (above : row < list.stop.row) :
    Enclosed source struct.name spec row := by
  have rows := declared.list_rows
  have down : ∀ later, spec.start.row ≤ later → later ≤ row →
      Enclosed source struct.name spec later := by
    intro later start
    induction later, start using Nat.le_induction with
    | base => exact fun _ => enclosed_header parsed declared legible (by omega) (by omega)
    | succ later start ih =>
      intro upTo
      exact enclosed_step parsed declared legible start upTo above (ih (by omega))
  exact down row (by omega) (Nat.le_refl _)

end Run

end GoGraft
