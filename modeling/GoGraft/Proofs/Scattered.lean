import GoGraft.Proofs.Leaves
import GoGraft.Proofs.Splicing
import Mathlib.Data.List.DropRight
import Mathlib.Data.List.Forall2
import Mathlib.Data.List.Perm.Subperm

/-! Texts that stand in another text at places apart from each other, in a given order or in any.
What stands in a source is found in it after edits, if it is outside of them or in their texts. -/

namespace GoGraft

namespace Text

/-- The parts stand in the text one behind the other. -/
def InOrder : List Text → Text → Prop
  | [], _ => True
  | part :: parts, text => ∃ front back, text = front ++ part ++ back ∧ InOrder parts back

namespace InOrder

theorem singleton (text : Text) : InOrder [text] text :=
  ⟨[], [], by simp, trivial⟩

theorem prepend {parts : List Text} {text : Text} (held : InOrder parts text) (front : Text) :
    InOrder parts (front ++ text) := by
  cases parts with
  | nil => trivial
  | cons part parts =>
    obtain ⟨before, after, rfl, later⟩ := held
    exact ⟨front ++ before, after, by simp, later⟩

theorem append {parts more : List Text} {text other : Text} (first : InOrder parts text)
    (second : InOrder more other) : InOrder (parts ++ more) (text ++ other) := by
  induction parts generalizing text with
  | nil => exact second.prepend text
  | cons part parts ih =>
    obtain ⟨front, back, rfl, later⟩ := first
    exact ⟨front, back ++ other, by simp, ih later⟩

theorem extend {parts : List Text} {text : Text} (held : InOrder parts text) (back : Text) :
    InOrder parts (text ++ back) := by
  have all := @append _ [] _ back held trivial
  rwa [List.append_nil] at all

theorem sublist {parts fewer : List Text} {text : Text} (less : fewer.Sublist parts)
    (held : InOrder parts text) : InOrder fewer text := by
  induction less generalizing text with
  | slnil => trivial
  | cons part _ ih =>
    obtain ⟨front, back, rfl, later⟩ := held
    exact (ih later).prepend (front ++ part)
  | cons_cons part _ ih =>
    obtain ⟨front, back, rfl, later⟩ := held
    exact ⟨front, back, rfl, ih later⟩

/-- The beginning of a part is found where the part is. -/
theorem beginnings {parts : List Text} {text : Text} (held : InOrder parts text)
    {shorten : Text → Text} (starts : ∀ part, shorten part <+: part) :
    InOrder (parts.map shorten) text := by
  induction parts generalizing text with
  | nil => trivial
  | cons part parts ih =>
    obtain ⟨front, back, rfl, later⟩ := held
    obtain ⟨rest, same⟩ := starts part
    refine ⟨front, rest ++ back, ?_, (ih later).prepend rest⟩
    calc front ++ part ++ back = front ++ (shorten part ++ rest) ++ back := by rw [same]
      _ = front ++ shorten part ++ (rest ++ back) := by simp

theorem filter {parts : List Text} {text : Text} (held : InOrder parts text) {keep : Char → Bool}
    (kept : ∀ part ∈ parts, ∀ c ∈ part, keep c) : InOrder parts (text.filter keep) := by
  induction parts generalizing text with
  | nil => trivial
  | cons part parts ih =>
    obtain ⟨front, back, rfl, later⟩ := held
    have whole : part.filter keep = part := List.filter_eq_self.2 (kept part List.mem_cons_self)
    refine ⟨front.filter keep, back.filter keep, by simp [whole], ih later ?_⟩
    exact fun other inside => kept other (List.mem_cons_of_mem part inside)

end InOrder

theorem trimEnd_prefix (text : Text) : trimEnd text <+: text := by
  have suffix := List.reverse_prefix.2 (List.dropWhile_suffix isBlank (l := text.reverse))
  rwa [List.reverse_reverse] at suffix

theorem trimEnd_append (front back : Text) :
    trimEnd (front ++ back) = if trimEnd back = [] then trimEnd front else front ++ trimEnd back := by
  simp only [trimEnd, List.reverse_append, List.reverse_eq_nil_iff]
  rw [List.dropWhile_append]
  simp only [List.isEmpty_iff]
  split
  · rfl
  · simp

@[simp] theorem trimEnd_trimEnd (text : Text) : trimEnd (trimEnd text) = trimEnd text := by
  simp [trimEnd, List.dropWhile_idempotent]

/-- No part that ends with more than a blank is lost with the blanks at the end. -/
theorem InOrder.trimEnd {parts : List Text} {text : Text} (held : InOrder parts text)
    (trimmed : ∀ part ∈ parts, Text.trimEnd part = part) : InOrder parts (Text.trimEnd text) := by
  induction parts generalizing text with
  | nil => trivial
  | cons part parts ih =>
    obtain ⟨front, back, rfl, later⟩ := held
    have rest := ih later fun other inside => trimmed other (List.mem_cons_of_mem part inside)
    have own := trimmed part List.mem_cons_self
    rw [trimEnd_append]
    split
    next nothing =>
      rw [nothing] at rest
      rw [trimEnd_append, own]
      split
      next empty => exact ⟨[], Text.trimEnd front, by simp [empty], by simpa using rest.extend _⟩
      next => exact ⟨front, [], by simp, rest⟩
    next => exact ⟨front, Text.trimEnd back, rfl, rest⟩

/-- The parts stand in the text at places apart from each other. -/
def Scattered (parts : List Text) (text : Text) : Prop :=
  ∃ order, order.Perm parts ∧ InOrder order text

namespace Scattered

theorem of_inOrder {parts : List Text} {text : Text} (held : InOrder parts text) :
    Scattered parts text :=
  ⟨parts, .refl _, held⟩

theorem nil (text : Text) : Scattered [] text :=
  of_inOrder trivial

theorem perm {parts others : List Text} {text : Text} (same : parts.Perm others)
    (held : Scattered parts text) : Scattered others text := by
  obtain ⟨order, perm, inOrder⟩ := held
  exact ⟨order, perm.trans same, inOrder⟩

theorem sublist {parts fewer : List Text} {text : Text} (less : fewer.Sublist parts)
    (held : Scattered parts text) : Scattered fewer text := by
  obtain ⟨order, perm, inOrder⟩ := held
  obtain ⟨others, same, part⟩ := less.subperm.trans perm.symm.subperm
  exact ⟨others, same, inOrder.sublist part⟩

theorem append {parts more : List Text} {text other : Text} (first : Scattered parts text)
    (second : Scattered more other) : Scattered (parts ++ more) (text ++ other) := by
  obtain ⟨one, firstPerm, firstOrder⟩ := first
  obtain ⟨two, secondPerm, secondOrder⟩ := second
  exact ⟨one ++ two, firstPerm.append secondPerm, firstOrder.append secondOrder⟩

theorem prepend {parts : List Text} {text : Text} (held : Scattered parts text) (front : Text) :
    Scattered parts (front ++ text) :=
  (nil front).append held

theorem extend {parts : List Text} {text : Text} (held : Scattered parts text) (back : Text) :
    Scattered parts (text ++ back) := by
  have all := held.append (nil back)
  rwa [List.append_nil] at all

theorem join {groups : List (List Text)} {texts : List Text}
    (held : List.Forall₂ Scattered groups texts) (separator : Text) :
    Scattered groups.flatten (Text.join separator texts) := by
  induction held with
  | nil => exact nil _
  | @cons group text groups texts first others ih =>
    cases texts with
    | nil =>
      cases others
      simpa [Text.join] using first
    | cons next texts => exact (first.extend separator).append ih

end Scattered

end Text

open Text (InOrder Scattered)

namespace Located

/-- The text of a tree without the blanks at its end. -/
def trimmed (located : Located) : Text :=
  Text.trimEnd located.text

/-- A text that starts at a place has the tree where the tree stands. -/
def StandsAt (place : Nat) (text : Text) (located : Located) : Prop :=
  ∃ front back, text = front ++ located.text ++ back ∧
    located.start.offset = place + front.length ∧
    located.stop.offset = located.start.offset + located.text.length

theorem StandsAt.of_standsIn {source : Text} {located : Located} (stands : located.StandsIn source) :
    located.StandsAt 0 source := by
  have stop := stands.stop_eq
  obtain ⟨front, back, parts, start, _⟩ := stands
  exact ⟨front, back, parts, by simp [start, Place.after], stop⟩

theorem StandsAt.front {place : Nat} {kept rest : Text} {located : Located}
    (stands : located.StandsAt place (kept ++ rest))
    (before : located.stop.offset ≤ place + kept.length) : located.StandsAt place kept := by
  obtain ⟨front, back, parts, start, stop⟩ := stands
  have short : (front ++ located.text).length ≤ kept.length := by
    rw [List.length_append]
    omega
  obtain ⟨tail, same⟩ : front ++ located.text <+: kept :=
    List.prefix_of_prefix_length_le ⟨back, parts.symm⟩ (List.prefix_append _ _) short
  exact ⟨front, tail, same.symm, start, stop⟩

theorem StandsAt.back {place : Nat} {old rest : Text} {located : Located}
    (stands : located.StandsAt place (old ++ rest))
    (behind : place + old.length ≤ located.start.offset) :
    located.StandsAt (place + old.length) rest := by
  obtain ⟨front, back, parts, start, stop⟩ := stands
  have short : old.length ≤ front.length := by omega
  obtain ⟨tail, rfl⟩ : old <+: front :=
    List.prefix_of_prefix_length_le (List.prefix_append _ rest)
      ⟨located.text ++ back, by rw [parts]; simp⟩ short
  refine ⟨tail, back, ?_, ?_, stop⟩
  · simpa using parts
  · rw [start, List.length_append]
    omega

/-- Trees that follow one another stand in a text in their order. -/
theorem inOrder_of_ordered {place : Nat} {text : Text} {items : List Located}
    (stand : ∀ item ∈ items, item.StandsAt place text)
    (ordered : items.Pairwise fun one other => one.stop.offset ≤ other.start.offset) :
    InOrder (items.map Located.text) text := by
  induction items generalizing place text with
  | nil => trivial
  | cons item rest ih =>
    obtain ⟨first, later⟩ := List.pairwise_cons.1 ordered
    obtain ⟨front, back, rfl, start, stop⟩ := stand item List.mem_cons_self
    refine ⟨front, back, rfl, @ih (place + (front ++ item.text).length) back ?_ later⟩
    intro other inside
    apply (stand other (List.mem_cons_of_mem item inside)).back
    have apart := first other inside
    rw [List.length_append]
    omega

theorem trimmed_inOrder {place : Nat} {text : Text} {items : List Located}
    (stand : ∀ item ∈ items, item.StandsAt place text)
    (ordered : items.Pairwise fun one other => one.stop.offset ≤ other.start.offset) :
    InOrder (items.map trimmed) text := by
  have held := (inOrder_of_ordered stand ordered).beginnings Text.trimEnd_prefix
  rwa [List.map_map] at held

end Located

/-! ### Through edits -/

/-- Whether a tree stands in the span of an edit. -/
def Edit.covers (edit : Edit) (item : Located) : Bool :=
  edit.span.start ≤ item.start.offset && item.stop.offset ≤ edit.span.stop

theorem Edit.covers_iff {edit : Edit} {item : Located} :
    edit.covers item ↔ edit.span.start ≤ item.start.offset ∧ item.stop.offset ≤ edit.span.stop := by
  simp [Edit.covers]

/-- The edit cuts no tree, and its text has those that stand in its span. -/
structure Edit.Keeps (edit : Edit) (items : List Located) : Prop where
  spares : ∀ item ∈ items, item.stop.offset ≤ edit.span.start ∨
    edit.span.stop ≤ item.start.offset ∨ edit.covers item
  written : Scattered ((items.filter edit.covers).map Located.trimmed) edit.text

theorem Edit.keeps_of_apart {edit : Edit} {items : List Located}
    (proper : ∀ item ∈ items, item.start.offset < item.stop.offset)
    (apart : ∀ item ∈ items, item.stop.offset ≤ edit.span.start ∨
      edit.span.stop ≤ item.start.offset) : edit.Keeps items := by
  have nothing : items.filter edit.covers = [] := by
    rw [List.filter_eq_nil_iff]
    intro item inside covered
    have size := proper item inside
    have outside := apart item inside
    rw [Edit.covers_iff] at covered
    omega
  refine ⟨fun item inside => (apart item inside).imp_right .inl, ?_⟩
  rw [nothing]
  exact .nil _

/-- Trees that no edit cuts are found after the edits, those in a span in the text of its edit. -/
theorem Edit.Spliced.scattered {place : Nat} {text out : Text} {edits : List Edit}
    (spliced : Edit.Spliced place text edits out) {items : List Located}
    (stand : ∀ item ∈ items, item.StandsAt place text)
    (ordered : items.Pairwise fun one other => one.stop.offset ≤ other.start.offset)
    (keeps : ∀ edit ∈ edits, edit.Keeps items) :
    Scattered (items.map Located.trimmed) out := by
  induction spliced generalizing items with
  | rest => exact .of_inOrder (Located.trimmed_inOrder stand ordered)
  | @edit place kept old text out edit edits start stop later ih =>
    -- What stands in front of the edit, in its span, and behind it.
    let front := items.filter fun item => item.stop.offset ≤ edit.span.start
    let others := items.filter fun item => !decide (item.stop.offset ≤ edit.span.start)
    let inner := others.filter edit.covers
    let back := others.filter fun item => !edit.covers item
    have parts : (front ++ (inner ++ back)).Perm items :=
      ((List.filter_append_perm _ others).append_left front).trans (List.filter_append_perm _ items)
    have behind : ∀ item ∈ back, edit.span.stop ≤ item.start.offset := by
      intro item inside
      obtain ⟨other, outside⟩ := List.mem_filter.1 inside
      obtain ⟨among, later⟩ := List.mem_filter.1 other
      rcases (keeps edit List.mem_cons_self).spares item among with first | last | covered
      · simp [first] at later
      · exact last
      · simp [covered] at outside
    have backSublist : back.Sublist items := (List.filter_sublist).trans List.filter_sublist
    have first : Scattered (front.map Located.trimmed) kept := by
      refine .of_inOrder (@Located.trimmed_inOrder place _ _ ?_ (ordered.sublist List.filter_sublist))
      intro item inside
      obtain ⟨among, before⟩ := List.mem_filter.1 inside
      have stands := stand item among
      rw [List.append_assoc] at stands
      exact stands.front (start ▸ of_decide_eq_true before)
    have middle : Scattered (inner.map Located.trimmed) edit.text := by
      refine (keeps edit List.mem_cons_self).written.sublist (List.Sublist.map _ ?_)
      exact List.filter_sublist.filter _
    have last : Scattered (back.map Located.trimmed) out := by
      refine ih ?_ (ordered.sublist backSublist) ?_
      · intro item inside
        have stands := stand item (backSublist.subset inside)
        have place' : edit.span.stop = place + (kept ++ old).length := by
          rw [List.length_append]
          omega
        rw [place']
        apply stands.back
        rw [← place']
        exact behind item inside
      · intro other held
        obtain ⟨spares, written⟩ := keeps other (List.mem_cons_of_mem edit held)
        exact ⟨fun item inside => spares item (backSublist.subset inside),
          written.sublist ((backSublist.filter _).map _)⟩
    have all := (first.append middle).append last
    rw [← List.map_append, ← List.map_append, List.append_assoc] at all
    exact all.perm (parts.map _)

end GoGraft
