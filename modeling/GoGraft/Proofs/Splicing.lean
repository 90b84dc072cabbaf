import GoGraft.Source.Edit
import Mathlib.Data.List.Pairwise

/-! Making edits from the last to the first is the same as one walk from left to right that keeps
what stands between the edits and puts each text in the place of its span. Edits are sorted before
they are made, so the order in which they come does not matter as long as no two of them are for
the same span. -/

namespace GoGraft

/-! ### Sorting -/

theorem insertSorted_perm {α : Type} (before : α → α → Bool) (item : α) (items : List α) :
    (insertSorted before item items).Perm (item :: items) := by
  induction items with
  | nil => exact .refl _
  | cons other rest ih =>
    rw [insertSorted]
    split
    · exact .refl _
    · exact (ih.cons other).trans (.swap item other rest)

theorem sortBy_perm {α : Type} (before : α → α → Bool) (items : List α) :
    (sortBy before items).Perm items := by
  induction items with
  | nil => exact .refl _
  | cons item rest ih =>
    exact (insertSorted_perm before item (sortBy before rest)).trans (ih.cons item)

theorem sortBy_eq_self {α : Type} {before : α → α → Bool} {items : List α}
    (sorted : items.Pairwise fun one other => before one other) : sortBy before items = items := by
  induction items with
  | nil => rfl
  | cons item rest ih =>
    obtain ⟨first, later⟩ := List.pairwise_cons.1 sorted
    rw [sortBy, List.foldr_cons]
    change insertSorted before item (sortBy before rest) = _
    rw [ih later]
    cases rest with
    | nil => rfl
    | cons next rest => exact if_pos (first next List.mem_cons_self)

/-- Sorting looks at the order only. -/
theorem sortBy_map {α β : Type} {before : α → α → Bool} {after : β → β → Bool} {f : α → β}
    (same : ∀ one other, after (f one) (f other) = before one other) (items : List α) :
    sortBy after (items.map f) = (sortBy before items).map f := by
  have insert (item : α) (items : List α) :
      insertSorted after (f item) (items.map f) = (insertSorted before item items).map f := by
    induction items with
    | nil => rfl
    | cons other rest ih =>
      rw [List.map_cons, insertSorted, insertSorted, same]
      split
      · rfl
      · rw [ih, List.map_cons]
  induction items with
  | nil => rfl
  | cons item rest ih =>
    change insertSorted after (f item) (sortBy after (rest.map f)) = _
    rw [ih, insert]
    rfl

section Order

variable {α : Type} {before : α → α → Bool}
  (total : ∀ one other, before one other ∨ before other one)
  (trans : ∀ one other third, before one other → before other third → before one third)

include total trans

theorem pairwise_insertSorted (item : α) {items : List α}
    (sorted : items.Pairwise fun one other => before one other) :
    (insertSorted before item items).Pairwise fun one other => before one other := by
  induction items with
  | nil => exact List.pairwise_singleton _ _
  | cons other rest ih =>
    obtain ⟨first, later⟩ := List.pairwise_cons.1 sorted
    rw [insertSorted]
    split
    next holds =>
      refine List.pairwise_cons.2 ⟨?_, sorted⟩
      intro next inside
      rcases List.mem_cons.1 inside with rfl | inside
      · exact holds
      · exact trans item other next holds (first next inside)
    next fails =>
      refine List.pairwise_cons.2 ⟨?_, ih later⟩
      intro next inside
      have held := (insertSorted_perm before item rest).mem_iff.1 inside
      rcases List.mem_cons.1 held with rfl | inside
      · exact (total next other).resolve_left fails
      · exact first next inside

theorem pairwise_sortBy (items : List α) :
    (sortBy before items).Pairwise fun one other => before one other := by
  induction items with
  | nil => exact List.Pairwise.nil
  | cons item rest ih => exact pairwise_insertSorted total trans item ih

end Order

namespace Edit

theorem before_iff {one other : Edit} :
    before one other ↔ one.span.start < other.span.start ∨
      one.span.start = other.span.start ∧ one.span.stop ≤ other.span.stop := by
  simp [before]

theorem before_total (one other : Edit) : before one other ∨ before other one := by
  simp only [before_iff]
  omega

theorem before_trans (one other third : Edit) (first : before one other)
    (second : before other third) : before one third := by
  rw [before_iff] at first second ⊢
  omega

theorem span_eq_of_before {one other : Edit} (first : before one other)
    (second : before other one) : one.span = other.span := by
  rw [before_iff] at first second
  have starts : one.span.start = other.span.start := by omega
  have stops : one.span.stop = other.span.stop := by omega
  calc one.span = ⟨one.span.start, one.span.stop⟩ := rfl
    _ = ⟨other.span.start, other.span.stop⟩ := by rw [starts, stops]
    _ = other.span := rfl

theorem eq_of_span_eq {edits : List Edit}
    (apart : edits.Pairwise fun one other => one.span ≠ other.span) {one other : Edit}
    (first : one ∈ edits) (second : other ∈ edits) (same : one.span = other.span) :
    one = other := by
  have symmetric : Std.Symm fun one other : Edit => one.span ≠ other.span := ⟨fun _ _ => Ne.symm⟩
  by_contra different
  exact apart.forall first second different same

/-- The sorted list depends on the edits only, not on their order. -/
theorem sortBy_eq_of_perm {edits others : List Edit} (same : edits.Perm others)
    (apart : edits.Pairwise fun one other => one.span ≠ other.span) :
    sortBy before edits = sortBy before others := by
  have perm : (sortBy before edits).Perm (sortBy before others) :=
    (sortBy_perm before edits).trans (same.trans (sortBy_perm before others).symm)
  refine perm.eq_of_pairwise ?_ (pairwise_sortBy before_total before_trans edits)
    (pairwise_sortBy before_total before_trans others)
  intro one other inside within first second
  have held := (sortBy_perm before others).mem_iff.1 within
  exact eq_of_span_eq apart ((sortBy_perm before edits).mem_iff.1 inside) (same.mem_iff.2 held)
    (span_eq_of_before first second)

/-! ### Making edits -/

/-- `Spliced place text edits out`: in a text that starts at a place, edits made from left to
right give `out`. What stands between the spans is kept; the text of an edit comes in the place of
what its span holds. -/
inductive Spliced : Nat → Text → List Edit → Text → Prop where
  | rest {place : Nat} {text : Text} : Spliced place text [] text
  | edit {place : Nat} {kept old text out : Text} {edit : Edit} {edits : List Edit}
      (start : edit.span.start = place + kept.length)
      (stop : edit.span.stop = edit.span.start + old.length)
      (later : Spliced edit.span.stop text edits out) :
      Spliced place (kept ++ old ++ text) (edit :: edits) (kept ++ edit.text ++ out)

/-- Spans in their order, the first not before `place`, the last not behind `stop`. -/
def Fit (place stop : Nat) : List Edit → Prop
  | [] => place ≤ stop
  | edit :: rest =>
    place ≤ edit.span.start ∧ edit.span.start ≤ edit.span.stop ∧ Fit edit.span.stop stop rest

theorem Fit.le {place stop : Nat} {edits : List Edit} (fit : Fit place stop edits) :
    place ≤ stop := by
  induction edits generalizing place with
  | nil => exact fit
  | cons edit rest ih =>
    obtain ⟨start, order, later⟩ := fit
    have := ih later
    omega

theorem fit_of_overlap? {place stop : Nat} {edits : List Edit} (clear : overlap? edits = none)
    (inside : ∀ edit ∈ edits, edit.span.start ≤ edit.span.stop ∧ edit.span.stop ≤ stop)
    (first : ∀ edit ∈ edits.head?, place ≤ edit.span.start) (within : place ≤ stop) :
    Fit place stop edits := by
  induction edits generalizing place with
  | nil => exact within
  | cons one rest ih =>
    obtain ⟨order, bound⟩ := inside one List.mem_cons_self
    refine ⟨first one rfl, order, ih ?_ (fun edit held => inside edit (.tail one held)) ?_ bound⟩
    · cases rest with
      | nil => rfl
      | cons other rest =>
        rw [overlap?] at clear
        split at clear
        · cases clear
        · exact clear
    · intro other head
      cases rest with
      | nil => cases head
      | cons other' rest =>
        cases head
        rw [overlap?] at clear
        split at clear
        · cases clear
        · omega

theorem replace_append {front old text : Text} {edit : Edit}
    (start : edit.span.start = front.length)
    (stop : edit.span.stop = edit.span.start + old.length) :
    replace 0 edit (front ++ old ++ text) = front ++ edit.text ++ text := by
  have taken : (front ++ old ++ text).take edit.span.start = front := by
    rw [start, List.append_assoc, List.take_left]
  have dropped : (front ++ old ++ text).drop edit.span.stop = text := by
    rw [stop, start, ← List.length_append, List.drop_left]
  rw [replace, Nat.sub_zero, Nat.sub_zero, taken, dropped]

private theorem split_at {text : Text} {length : Nat} (bound : length ≤ text.length) :
    ∃ front back, text = front ++ back ∧ front.length = length :=
  ⟨text.take length, text.drop length, (List.take_append_drop _ _).symm,
    List.length_take_of_le bound⟩

/-- What stands in front of a place has no part in edits behind it. -/
theorem replaceAll_spliced {front text : Text} {edits : List Edit}
    (fit : Fit front.length (front.length + text.length) edits) :
    ∃ out, replaceAll 0 (front ++ text) edits = front ++ out ∧
      Spliced front.length text edits out := by
  induction edits generalizing front text with
  | nil => exact ⟨text, rfl, .rest⟩
  | cons edit rest ih =>
    obtain ⟨start, order, later⟩ := fit
    have bound := later.le
    obtain ⟨kept, behind, rfl, keptLength⟩ :=
      @split_at text (edit.span.start - front.length) (by omega)
    rw [List.length_append] at later bound
    obtain ⟨old, text, rfl, oldLength⟩ :=
      @split_at behind (edit.span.stop - edit.span.start) (by omega)
    -- The later edits see what this one replaces as part of what stands in front of them.
    have head : (front ++ kept).length = edit.span.start := by
      rw [List.length_append]
      omega
    have stop : (front ++ kept ++ old).length = edit.span.stop := by
      rw [List.length_append, head]
      omega
    have whole : front.length + (kept.length + (old ++ text).length) =
        (front ++ kept ++ old).length + text.length := by
      simp only [List.length_append]
      omega
    rw [whole, ← stop] at later
    obtain ⟨out, replaced, spliced⟩ := ih later
    have regroup : front ++ (kept ++ (old ++ text)) = front ++ kept ++ old ++ text := by
      simp only [List.append_assoc]
    refine ⟨kept ++ edit.text ++ out, ?_, ?_⟩
    · calc replaceAll 0 (front ++ (kept ++ (old ++ text))) (edit :: rest)
          = replace 0 edit (replaceAll 0 (front ++ kept ++ old ++ text) rest) := by
            rw [regroup]; rfl
        _ = replace 0 edit (front ++ kept ++ old ++ out) := by rw [replaced]
        _ = front ++ kept ++ edit.text ++ out := replace_append head.symm (by omega)
        _ = front ++ (kept ++ edit.text ++ out) := by simp only [List.append_assoc]
    · rw [stop] at spliced
      rw [← List.append_assoc]
      exact .edit (by omega) (by omega) spliced

/-- Edits behind a text can be made with or without it. -/
theorem replaceAll_append {front text : Text} {edits : List Edit}
    (behind : ∀ edit ∈ edits, front.length ≤ edit.span.start ∧ edit.span.start ≤ edit.span.stop) :
    replaceAll 0 (front ++ text) edits = front ++ replaceAll front.length text edits := by
  induction edits with
  | nil => rfl
  | cons edit rest ih =>
    obtain ⟨start, order⟩ := behind edit List.mem_cons_self
    have others := ih fun other held => behind other (List.mem_cons_of_mem edit held)
    have taken (text : Text) : (front ++ text).take edit.span.start =
        front ++ text.take (edit.span.start - front.length) := by
      rw [List.take_append, List.take_of_length_le start]
    have dropped (text : Text) : (front ++ text).drop edit.span.stop =
        text.drop (edit.span.stop - front.length) := by
      rw [List.drop_append, List.drop_of_length_le (by omega), List.nil_append]
    calc replaceAll 0 (front ++ text) (edit :: rest)
        = replace 0 edit (replaceAll 0 (front ++ text) rest) := rfl
      _ = replace 0 edit (front ++ replaceAll front.length text rest) := by rw [others]
      _ = front ++ replaceAll front.length text (edit :: rest) := by
          simp only [replaceAll, List.foldr_cons, replace, Nat.sub_zero, taken, dropped,
            List.append_assoc]

theorem Fit.behind {place stop : Nat} {edits : List Edit} (fit : Fit place stop edits) :
    ∀ edit ∈ edits, place ≤ edit.span.start ∧ edit.span.start ≤ edit.span.stop := by
  induction edits generalizing place with
  | nil => intro edit held; cases held
  | cons first rest ih =>
    obtain ⟨start, order, later⟩ := fit
    intro edit held
    rcases List.mem_cons.1 held with rfl | held
    · exact ⟨start, order⟩
    · have bounds := ih later edit held
      omega

theorem replaceAll_spliced_at {place : Nat} {text : Text} {edits : List Edit}
    (fit : Fit place (place + text.length) edits) :
    Spliced place text edits (replaceAll place text edits) := by
  -- Any text of the right length in front will do.
  have length : (List.replicate place ' ').length = place := List.length_replicate
  have fit' : Fit (List.replicate place ' ').length
      ((List.replicate place ' ').length + text.length) edits := length.symm ▸ fit
  obtain ⟨out, replaced, spliced⟩ := replaceAll_spliced fit'
  rw [replaceAll_append fit'.behind] at replaced
  have same := List.append_cancel_left replaced
  rw [length] at same spliced
  exact same ▸ spliced

theorem applyAll_spliced {source out : Text} {edits : List Edit}
    (inside : ∀ edit ∈ edits, edit.span.start ≤ edit.span.stop ∧ edit.span.stop ≤ source.length)
    (made : applyAll source edits = .ok out) :
    Spliced 0 source (sortBy before edits) out := by
  simp only [applyAll] at made
  split at made
  · cases made
  next clear =>
    have fit : Fit 0 source.length (sortBy before edits) := by
      refine fit_of_overlap? clear ?_ (fun _ _ => Nat.zero_le _) (Nat.zero_le _)
      intro edit held
      exact inside edit ((sortBy_perm before edits).mem_iff.1 held)
    obtain ⟨result, replaced, spliced⟩ := @replaceAll_spliced [] source _ (by simpa using fit)
    cases made
    exact replaced ▸ spliced

/-! ### Parts of an edited text -/

namespace Spliced

variable {place : Nat} {text front old back out : Text} {edit : Edit} {edits : List Edit}

/-- What stands in front of all edits is kept. -/
theorem behind (spliced : Spliced place text edits out) (whole : text = front ++ back)
    (later : ∀ edit ∈ edits, place + front.length ≤ edit.span.start) :
    ∃ rest, out = front ++ rest ∧ Spliced (place + front.length) back edits rest := by
  cases spliced with
  | rest => exact ⟨back, whole, .rest⟩
  | @edit _ kept old tail out edit edits start stop spliced =>
    have bound := later edit List.mem_cons_self
    obtain ⟨more, rfl⟩ : ∃ more, kept = front ++ more := by
      rw [List.append_assoc] at whole
      rcases List.append_eq_append_iff.1 whole.symm with ⟨more, same, _⟩ | ⟨more, same, _⟩
      · exact ⟨more, same⟩
      · have size := congrArg List.length same
        rw [List.length_append] at size
        have none : more = [] := List.length_eq_zero_iff.1 (by omega)
        exact ⟨[], by rw [same, none, List.append_nil, List.append_nil]⟩
    rw [List.append_assoc, List.append_assoc, List.append_cancel_left_eq,
      ← List.append_assoc] at whole
    subst whole
    refine ⟨more ++ edit.text ++ out, by simp, .edit ?_ stop spliced⟩
    rw [start, List.length_append]
    omega

/-- The first edit puts its text in the place of what its span holds. -/
theorem first (spliced : Spliced place text (edit :: edits) out)
    (whole : text = front ++ old ++ back) (start : edit.span.start = place + front.length)
    (stop : edit.span.stop = edit.span.start + old.length) :
    ∃ rest, out = front ++ edit.text ++ rest ∧ Spliced edit.span.stop back edits rest := by
  cases spliced with
  | @edit _ kept removed tail out _ _ first last spliced =>
    rw [List.append_assoc, List.append_assoc] at whole
    obtain ⟨rfl, rest⟩ := List.append_inj whole (by omega)
    obtain ⟨rfl, rfl⟩ := List.append_inj rest (by omega)
    exact ⟨out, rfl, spliced⟩

theorem unique {other : Text} (spliced : Spliced place text edits out)
    (also : Spliced place text edits other) : other = out := by
  induction spliced generalizing other with
  | rest =>
    cases also
    rfl
  | edit start stop _ ih =>
    obtain ⟨rest, rfl, later⟩ := also.first rfl start stop
    rw [ih later]

theorem head?_eq (spliced : Spliced place text edits out)
    (later : ∀ edit ∈ edits, place < edit.span.start) : out.head? = text.head? := by
  cases spliced with
  | rest => rfl
  | @edit _ kept _ _ _ edit _ start _ _ =>
    have bound := later edit List.mem_cons_self
    cases kept with
    | nil =>
      rw [List.length_nil] at start
      omega
    | cons c kept => rfl

end Spliced

theorem applyAll_eq_of_perm {source : Text} {edits others : List Edit} (same : edits.Perm others)
    (apart : edits.Pairwise fun one other => one.span ≠ other.span) :
    applyAll source edits = applyAll source others := by
  rw [applyAll, applyAll, sortBy_eq_of_perm same apart]

end Edit

end GoGraft
