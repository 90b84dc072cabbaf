import GoGraft.Directive.Scan
import Mathlib.Algebra.BigOperators.Group.List.Basic
import Mathlib.Algebra.Ring.Int.Defs
import Mathlib.Data.List.Infix

/-! Groups of types, followed line by line. The braces that the lines of a group leave open tell whether a
line is at the level of the group: only there does the name of a struct put the struct in force, and only
there does a bracket close the group. Main statement: what is in force after each line of a group, from
the lines alone. -/

namespace GoGraft.ScanContext

open Directive

/-! ### The lines of a group -/

/-- The braces that lines leave open. -/
def leftOpen (lines : List Text) : Int :=
  (lines.map braceBalance).sum

/-- The members that the lines of a group declare: a name counts where no brace is open. -/
def membersOf (lines : List Text) : List Text :=
  lines.zipIdx.filterMap fun (line, row) =>
    if leftOpen (lines.take row) = 0 then memberHeader? line else none

/-- Whether the last of the lines starts with a bracket, with no brace open behind it. -/
def closedBy (lines : List Text) : Bool :=
  leftOpen lines == 0 && lines.getLast?.any fun line => (Text.trimStart line).head? == some ')'

theorem leftOpen_concat (lines : List Text) (line : Text) :
    leftOpen (lines ++ [line]) = leftOpen lines + braceBalance line := by
  simp [leftOpen]

theorem membersOf_concat (lines : List Text) (line : Text) :
    membersOf (lines ++ [line]) =
      membersOf lines ++ (if leftOpen lines = 0 then memberHeader? line else none).toList := by
  rw [membersOf, List.zipIdx_append, List.filterMap_append]
  congr 1
  · refine List.filterMap_congr fun (earlier, row) held => ?_
    have inside : row < lines.length := by simpa using (List.mem_zipIdx held).2.1
    dsimp only
    rw [List.take_append_of_le_length (Nat.le_of_lt inside)]
  · rw [List.zipIdx_singleton, List.filterMap_cons, Nat.zero_add]
    dsimp only
    rw [List.take_left]
    cases (if leftOpen lines = 0 then memberHeader? line else none) <;> rfl

theorem closedBy_concat (lines : List Text) (line : Text) :
    closedBy (lines ++ [line]) ↔
      leftOpen (lines ++ [line]) = 0 ∧ (Text.trimStart line).head? = some ')' := by
  simp [closedBy]

/-! ### One line and many -/

/-- What a line does in a group, if it opens no other group and holds no header. -/
theorem advance_in_group {context : ScanContext} {line : Text} {depth : Nat}
    (inside : context.groupDepth = some depth) (plain : opensTypeGroup line = false)
    (headless : declarationHeader? line = none) :
    context.advance line = ⟨(if depth = 0 then memberHeader? line else none).or context.declaration,
      depthAfter? depth line⟩ := by
  rw [advance, plain, inside, header?, headless, inside]
  simp only [Option.some.injEq, Bool.false_eq_true, if_false, Option.bind_some]
  split
  · cases memberHeader? line <;> rfl
  · rfl

/-- What is in force after some lines of a group, where `base` was in force before them. -/
structure Follows (base : Option Text) (lines : List Text) (context : ScanContext) : Prop where
  declaration : context.declaration = (membersOf lines).getLast?.or base
  groupDepth : context.groupDepth =
    if closedBy lines then none else some (leftOpen lines).toNat

theorem follows_opening (context : ScanContext) {opening : Text} (opens : opensTypeGroup opening) :
    Follows (context.advance opening).declaration [] (context.advance opening) where
  declaration := rfl
  groupDepth := by rw [advance, opens]; rfl

theorem Follows.advance {base : Option Text} {lines : List Text} {context : ScanContext}
    (follows : Follows base lines context) {line : Text} (unclosed : closedBy lines = false)
    (before : 0 ≤ leftOpen lines) (after : 0 ≤ leftOpen (lines ++ [line]))
    (plain : opensTypeGroup line = false) (headless : declarationHeader? line = none) :
    Follows base (lines ++ [line]) (context.advance line) := by
  have depth : context.groupDepth = some (leftOpen lines).toNat := by
    rw [follows.groupDepth, unclosed]
    rfl
  have level : (leftOpen lines).toNat = 0 ↔ leftOpen lines = 0 := by omega
  rw [advance_in_group depth plain headless]
  constructor
  · simp only [membersOf_concat, level, follows.declaration, List.getLast?_append]
    split
    · cases memberHeader? line <;> rfl
    · rfl
  · -- The sum of the braces is not negative on either side, so nothing is cut off at zero.
    have sum : ((leftOpen lines).toNat + braceBalance line).toNat = (leftOpen (lines ++ [line])).toNat := by
      rw [leftOpen_concat] at after ⊢
      omega
    have ground : (leftOpen (lines ++ [line])).toNat = 0 ↔ leftOpen (lines ++ [line]) = 0 := by omega
    simp only [depthAfter?, sum, ground, closedBy_concat]

/-- All that the lines of a group tell, line by line, up to the one that closes the group. -/
theorem follows_group {context : ScanContext} {opening : Text} (opens : opensTypeGroup opening)
    {lines : List Text}
    (plain : ∀ line ∈ lines, opensTypeGroup line = false ∧ declarationHeader? line = none)
    (level : ∀ read, read <+: lines → 0 ≤ leftOpen read)
    (first : ∀ read, read <+: lines → read ≠ lines → closedBy read = false) :
    Follows (context.advance opening).declaration lines ((opening :: lines).foldl advance context) := by
  induction lines using List.reverseRecOn with
  | nil => exact follows_opening context opens
  | append_singleton lines line ih =>
    have earlier : lines <+: lines ++ [line] := List.prefix_append lines [line]
    have shorter {read : List Text} (among : read <+: lines) : read ≠ lines ++ [line] := by
      rintro rfl
      have length := among.length_le
      rw [List.length_append, List.length_singleton] at length
      omega
    have follows := ih (fun other inside => plain other (List.mem_append_left _ inside))
      (fun read among => level read (among.trans earlier))
      (fun read among _ => first read (among.trans earlier) (shorter among))
    obtain ⟨unopened, headless⟩ := plain line (List.mem_append_right _ List.mem_cons_self)
    rw [← List.cons_append, List.foldl_append]
    exact follows.advance (first lines earlier (shorter (List.prefix_refl _))) (level lines earlier)
      (level _ (List.prefix_refl _)) unopened headless

/-- A group of types is followed up to the line that closes it. Behind the line that opens it, where no
line opens another group or holds a header and no line closes more braces than are open, the group is left
with the first line that starts with a bracket and has no brace open behind it. Until then, and on that
line, the struct in force is the last member declared with no brace open before it; so a field that is a
struct never takes over. -/
theorem type_group_followed {context : ScanContext} {opening : Text} {lines : List Text}
    (opens : opensTypeGroup opening)
    (plain : ∀ line ∈ lines, opensTypeGroup line = false ∧ declarationHeader? line = none)
    (level : ∀ read, read <+: lines → 0 ≤ leftOpen read) {read : List Text} (among : read <+: lines)
    (first : ∀ shorter, shorter <+: read → shorter ≠ read → closedBy shorter = false) :
    let now := (opening :: read).foldl advance context
    now.inTypeGroup = !closedBy read ∧
      now.declaration = (membersOf read).getLast?.or (context.advance opening).declaration ∧
      ∀ line, read ++ [line] <+: lines → 0 < leftOpen read →
        (now.advance line).declaration = now.declaration := by
  intro now
  have follows : Follows _ read now := follows_group opens
    (fun line inside => plain line (among.subset inside))
    (fun shorter held => level shorter (held.trans among)) first
  refine ⟨?_, follows.declaration, fun line next deep => ?_⟩
  · rw [inTypeGroup, follows.groupDepth]
    cases closedBy read <;> rfl
  · have unclosed : closedBy read = false := by
      rw [closedBy, Bool.and_eq_false_iff]
      exact .inl (by simpa using (Int.ne_of_lt deep).symm)
    obtain ⟨unopened, headless⟩ :=
      plain line (next.subset (List.mem_append_right _ List.mem_cons_self))
    have nested : (leftOpen read).toNat ≠ 0 := by omega
    have depth : now.groupDepth = some (leftOpen read).toNat := by
      rw [follows.groupDepth, unclosed]
      rfl
    rw [advance_in_group depth unopened headless, if_neg nested]
    rfl

/-- A group with two members, the first of which has a field that is a struct. -/
theorem type_group_followed_of_nested_struct :
    let lines := ["\tA struct \x7b", "\t\tInner struct \x7b", "\t\t\x7d \x60\x7d\x60", "\t\x7d",
      "\tB struct \x7b\x7d", ")"].map String.toList
    let after (count : Nat) := ("type (".toList :: lines.take count).foldl advance {}
    (after 2).declaration = some "A".toList ∧ (after 4).declaration = some "A".toList ∧
      (after 5).declaration = some "B".toList ∧ (after 5).inTypeGroup = true ∧
      (after 6).declaration = some "B".toList ∧ (after 6).inTypeGroup = false := by
  intro lines after
  have plain : ∀ line ∈ lines, opensTypeGroup line = false ∧ declarationHeader? line = none := by
    decide +kernel
  have level : ∀ read ∈ lines.inits, 0 ≤ leftOpen read := by decide +kernel
  have rows (count : Nat) (first : ∀ shorter ∈ (lines.take count).inits, shorter ≠ lines.take count →
      closedBy shorter = false) :=
    @type_group_followed {} "type (".toList lines (by decide +kernel) plain
      (fun read among => level read ((List.mem_inits _ _).2 among)) _ (List.take_prefix count lines)
      fun shorter held => first shorter ((List.mem_inits _ _).2 held)
  obtain ⟨-, second, -⟩ := rows 2 (by decide +kernel)
  obtain ⟨-, fourth, -⟩ := rows 4 (by decide +kernel)
  obtain ⟨inside, fifth, -⟩ := rows 5 (by decide +kernel)
  obtain ⟨closed, sixth, -⟩ := rows 6 (by decide +kernel)
  exact ⟨second.trans (by decide +kernel), fourth.trans (by decide +kernel),
    fifth.trans (by decide +kernel), inside.trans (by decide +kernel),
    sixth.trans (by decide +kernel), closed.trans (by decide +kernel)⟩

end GoGraft.ScanContext
