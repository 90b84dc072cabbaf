import GoGraft.Proofs.Trivia

/-! Lists of items, each ended by a terminator. In front of an item newlines are white space, and
behind one they end it. `Laid` says that trees make up such a list, or a part of one that starts and
stops anywhere between two trees, so that lists can be cut and joined. -/

namespace GoGraft.Go

/-- Where one stands in a list of items: in front of one, or behind it. -/
inductive Slot where
  | before
  | behind
  deriving DecidableEq

/-- Whether newlines are white space. -/
def Slot.newlines : Slot → Bool
  | before => true
  | behind => false

def endsItem (c : Char) : Bool :=
  c == '\n' || c == ';' || c == '\x00'

theorem solid_terminator {c : Char} (ends : endsItem c) (text : Text) : Solid false (c :: text) := by
  have three : c = '\n' ∨ c = ';' ∨ c = '\x00' := by simpa [endsItem, or_assoc] using ends
  rcases three with rfl | rfl | rfl <;>
    exact ⟨fun d first => by cases first; rfl, rfl⟩

/-- `Laid Item slot trees after last`: in front of the text `after`, the trees lead from one slot of
a list of items to another. -/
inductive Laid (Item : Tree → Text → Prop) : Slot → List Tree → Text → Slot → Prop where
  | nil {slot : Slot} {after : Text} : Laid Item slot [] after slot
  | blank {slot last : Slot} {text after : Text} {rest : List Tree}
      (blank : ∀ c ∈ text, isBlank slot.newlines c) (more : Laid Item slot rest after last) :
      Laid Item slot (.leaf .blank text :: rest) after last
  | comment {slot last : Slot} {text after : Text} {rest : List Tree}
      (read : Lexeme.comment? (text ++ (Tree.textOfAll rest ++ after)) =
        some (text, Tree.textOfAll rest ++ after))
      (more : Laid Item slot rest after last) : Laid Item slot (.leaf .comment text :: rest) after last
  | terminator {last : Slot} {c : Char} {after : Text} {rest : List Tree} (ends : endsItem c)
      (more : Laid Item .before rest after last) :
      Laid Item .behind (.leaf .terminator [c] :: rest) after last
  | item {last : Slot} {kind : NodeKind} {children rest : List Tree} {after : Text}
      (item : Item (.node kind children) (Tree.textOfAll rest ++ after))
      (more : Laid Item .behind rest after last) :
      Laid Item .before (.node kind children :: rest) after last

namespace Laid

variable {Item : Tree → Text → Prop} {slot middle last : Slot} {trees more : List Tree}
  {after : Text}

theorem append (first : Laid Item slot trees (Tree.textOfAll more ++ after) middle)
    (second : Laid Item middle more after last) : Laid Item slot (trees ++ more) after last := by
  generalize behind : Tree.textOfAll more ++ after = text at first
  induction first with
  | nil => exact second
  | blank blank _ ih => exact .blank blank (ih second behind)
  | comment read _ ih =>
    rw [List.cons_append]
    refine .comment ?_ (ih second behind)
    rwa [Tree.textOfAll_append, List.append_assoc, behind]
  | terminator ends _ ih => exact .terminator ends (ih second behind)
  | item item _ ih =>
    rw [List.cons_append]
    refine .item ?_ (ih second behind)
    rwa [Tree.textOfAll_append, List.append_assoc, behind]

theorem split (laid : Laid Item slot (trees ++ more) after last) :
    ∃ middle, Laid Item slot trees (Tree.textOfAll more ++ after) middle ∧
      Laid Item middle more after last := by
  induction trees generalizing slot with
  | nil => exact ⟨slot, .nil, laid⟩
  | cons tree rest ih =>
    rw [List.cons_append] at laid
    cases laid with
    | blank blank tail =>
      obtain ⟨middle, first, second⟩ := ih tail
      exact ⟨middle, .blank blank first, second⟩
    | comment read tail =>
      obtain ⟨middle, first, second⟩ := ih tail
      rw [Tree.textOfAll_append, List.append_assoc] at read
      exact ⟨middle, .comment read first, second⟩
    | terminator ends tail =>
      obtain ⟨middle, first, second⟩ := ih tail
      exact ⟨middle, .terminator ends first, second⟩
    | item item tail =>
      obtain ⟨middle, first, second⟩ := ih tail
      rw [Tree.textOfAll_append, List.append_assoc] at item
      exact ⟨middle, .item item first, second⟩

theorem mono {Other : Tree → Text → Prop} (imp : ∀ tree after, Item tree after → Other tree after)
    (laid : Laid Item slot trees after last) : Laid Other slot trees after last := by
  induction laid with
  | nil => exact .nil
  | blank blank _ ih => exact .blank blank ih
  | comment read _ ih => exact .comment read ih
  | terminator ends _ ih => exact .terminator ends ih
  | item item _ ih => exact .item (imp _ _ item) ih

/-- What comes behind may be changed if its first character stays, or becomes a newline. -/
theorem change {other : Text} (laid : Laid Item slot trees after last)
    (stays : ∀ tree one two, Item tree one → two.head? = some '\n' ∨ two.head? = one.head? →
      Item tree two)
    (same : other.head? = some '\n' ∨ other.head? = after.head?) :
    Laid Item slot trees other last := by
  have joined (rest : List Tree) : (Tree.textOfAll rest ++ other).head? = some '\n' ∨
      (Tree.textOfAll rest ++ other).head? = (Tree.textOfAll rest ++ after).head? := by
    cases Tree.textOfAll rest with
    | nil => exact same
    | cons c text => exact .inr rfl
  induction laid with
  | nil => exact .nil
  | blank blank _ ih => exact .blank blank (ih same joined)
  | comment read _ ih => exact .comment (Lexeme.comment?_behind read (joined _)) (ih same joined)
  | terminator ends _ ih => exact .terminator ends (ih same joined)
  | item item _ ih => exact .item (stays _ _ _ item (joined _)) (ih same joined)

end Laid

theorem takeTrivia_laid {Item : Tree → Text → Prop} {slot : Slot} {newlines : Bool}
    (wide : newlines → slot.newlines) {fuel : Nat} {text rest : Text} {trivia : List Tree}
    (taken : takeTrivia newlines fuel text = some (trivia, rest)) :
    Laid Item slot trivia rest slot := by
  have blank {c : Char} (blank : isBlank newlines c) : isBlank slot.newlines c := by
    cases newlines with
    | true => rwa [wide rfl]
    | false =>
      obtain ⟨space, line⟩ := Bool.and_eq_true_iff.1 blank
      exact Bool.and_eq_true_iff.2 ⟨space, Bool.or_eq_true_iff.2 (.inr line)⟩
  induction fuel generalizing text trivia with
  | zero => cases taken
  | succ fuel ih =>
    have lead {trees : List Tree} (laid : Laid Item slot trees rest slot) :
        Laid Item slot (if (text.takeWhile (isBlank newlines)).isEmpty then trees
          else .leaf .blank (text.takeWhile (isBlank newlines)) :: trees) rest slot := by
      split
      · exact laid
      · exact .blank (fun c held => blank (List.all_eq_true.1 List.all_takeWhile c held)) laid
    rw [takeTrivia_succ] at taken
    dsimp only at taken
    split at taken
    next comment left read =>
      obtain ⟨⟨trees, last⟩, inner, same⟩ := Option.map_eq_some_iff.1 taken
      cases same
      apply lead
      refine .comment ?_ (ih inner)
      rw [takeTrivia_append inner, Lexeme.comment?_append read, read]
    next =>
      cases taken
      exact lead .nil

theorem gap_laid (Item : Tree → Text → Prop) {slot : Slot} {newlines : Bool}
    (wide : newlines → slot.newlines) (text : Text) :
    Laid Item slot (gap newlines text) (pass newlines text) slot :=
  takeTrivia_laid wide (takeTrivia_eq (Nat.lt_succ_self _))

namespace Laid

variable {Item : Tree → Text → Prop} {slot last : Slot} {trees : List Tree} {after : Text}

theorem pass_trivia (laid : Laid Item slot trees after last)
    (trivia : ∀ tree ∈ trees, tree.isTrivia) :
    last = slot ∧ pass slot.newlines (Tree.textOfAll trees ++ after) = pass slot.newlines after := by
  induction laid with
  | nil => exact ⟨rfl, rfl⟩
  | blank blank _ ih =>
    obtain ⟨same, passed⟩ := ih (List.forall_mem_cons.1 trivia).2
    refine ⟨same, ?_⟩
    rw [Tree.textOfAll, Tree.text, List.append_assoc, pass_blanks blank, passed]
  | comment read _ ih =>
    obtain ⟨same, passed⟩ := ih (List.forall_mem_cons.1 trivia).2
    refine ⟨same, ?_⟩
    rw [Tree.textOfAll, Tree.text, List.append_assoc, pass_comment read, passed]
  | terminator => cases (List.forall_mem_cons.1 trivia).1
  | item => cases (List.forall_mem_cons.1 trivia).1

end Laid

/-- Trivia stay trivia in front of another text that starts with the same character. -/
theorem pass_gap (slot : Slot) {text other : Text}
    (same : other.head? = some '\n' ∨ other.head? = (pass slot.newlines text).head?) :
    pass slot.newlines (Tree.textOfAll (gap slot.newlines text) ++ other) =
      pass slot.newlines other := by
  have laid := (@gap_laid (fun _ _ => True) slot _ id text).change (fun _ _ _ _ _ => trivial) same
  exact (laid.pass_trivia isTrivia_of_mem_gap).2

/-! ### Reading a list -/

/-- How a list of items is read: what is found in one item, and from a slot on. -/
structure ListReader where
  item? : Text → Option (List Text × Text)
  view : Slot → Text → Option (List Text × Text)
  held : Tree → List Text
  held_leaf : ∀ kind text, held (.leaf kind text) = []
  item : ∀ {text left : Text} {found : List Text}, item? (pass true text) = some (found, left) →
    view .before text = (view .behind left).map fun (more, rest) => (found ++ more, rest)
  terminator : ∀ {c : Char} {text left : Text}, endsItem c → pass false text = c :: left →
    view .behind text = view .before left

namespace ListReader

variable (reader : ListReader)

/-- A tree that is read as an item in front of a text, with what it holds. -/
structure Item (tree : Tree) (after : Text) : Prop where
  solid : Solid true (tree.text ++ after)
  read : reader.item? (tree.text ++ after) = some (reader.held tree, after)

variable {reader} {slot last : Slot} {trees : List Tree} {text after : Text}

/-- A list is read tree by tree. What is left to read then is what comes behind, with trivia of the
list in front of it. -/
theorem view_laid (laid : Laid reader.Item slot trees after last)
    (same : pass slot.newlines text = pass slot.newlines (Tree.textOfAll trees ++ after)) :
    ∃ left, pass last.newlines left = pass last.newlines after ∧
      reader.view slot text =
        (reader.view last left).map fun (more, rest) => (trees.flatMap reader.held ++ more, rest) := by
  induction laid generalizing text with
  | nil => exact ⟨text, same, by simp⟩
  | blank blank _ ih =>
    rw [Tree.textOfAll, Tree.text, List.append_assoc, pass_blanks blank] at same
    rw [List.flatMap_cons, reader.held_leaf]
    exact ih same
  | comment read _ ih =>
    rw [Tree.textOfAll, Tree.text, List.append_assoc, pass_comment read] at same
    rw [List.flatMap_cons, reader.held_leaf]
    exact ih same
  | terminator ends _ ih =>
    obtain ⟨left, behind, viewed⟩ := ih rfl
    refine ⟨left, behind, ?_⟩
    rw [List.flatMap_cons, reader.held_leaf, reader.terminator ends
      (same.trans (pass_solid (solid_terminator ends _)))]
    exact viewed
  | @item _ kind children rest after item _ ih =>
    obtain ⟨left, behind, viewed⟩ := ih rfl
    refine ⟨left, behind, ?_⟩
    rw [Tree.textOfAll, List.append_assoc] at same
    have found : pass true text = Tree.text (.node kind children) ++ (Tree.textOfAll rest ++ after) :=
      same.trans (pass_solid item.solid)
    rw [reader.item (found ▸ item.read), viewed, Option.map_map, List.flatMap_cons]
    congr 1
    funext ⟨more, rest⟩
    simp [Function.comp]

end ListReader

end GoGraft.Go
