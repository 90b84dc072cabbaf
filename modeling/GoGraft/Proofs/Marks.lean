import GoGraft.Proofs.TagRoundTrip
import GoGraft.Directive.Marker
import Mathlib.Data.List.Infix

/-! Marks in a text and the search for them. A mark does not go over a character that it has not, so
each part between two such characters can be searched alone. A mark whose last character stands in it
nowhere else does not overlap with itself. -/

namespace GoGraft.Text

section Standing

variable {mark : Text} {c : Char}

theorem infix_cut (other : c ∉ mark) {front back : Text} :
    mark <:+: front ++ c :: back ↔ mark <:+: front ∨ mark <:+: back := by
  have opening {part : Text} (own : ∀ d ∈ part, d ∈ mark) (opens : part <+: c :: back) : part = [] := by
    rcases List.prefix_cons_iff.1 opens with none | ⟨rest, rfl, -⟩
    · exact none
    · exact absurd (own c List.mem_cons_self) other
  constructor
  · intro inside
    rcases List.infix_append_iff.1 inside with first | second | ⟨left, right, rfl, ends, opens⟩
    · exact Or.inl first
    · rcases List.infix_cons_iff.1 second with opens | second
      · exact Or.inr (opening (fun _ => id) opens ▸ ⟨[], back, rfl⟩)
      · exact Or.inr second
    · obtain rfl := opening (fun d own => List.mem_append_right _ own) opens
      exact Or.inl (by simpa using ends.isInfix)
  · rintro (first | second)
    · exact first.trans (List.prefix_append _ _).isInfix
    · exact second.trans ((List.suffix_cons c back).trans (List.suffix_append _ _)).isInfix

/-- The texts between which a separator is written have no mark, and so their join has none. -/
theorem not_infix_join (other : c ∉ mark) (filled : mark ≠ []) {texts : List Text}
    (none : ∀ text ∈ texts, ¬ mark <:+: text) : ¬ mark <:+: join [c] texts := by
  induction texts with
  | nil => simpa [join] using filled
  | cons text rest ih =>
    cases rest with
    | nil => exact none text List.mem_cons_self
    | cons next rest =>
      rw [join, List.append_assoc, List.singleton_append, infix_cut other]
      · rintro (first | second)
        · exact none text List.mem_cons_self first
        · exact ih (fun other inside => none other (List.mem_cons_of_mem _ inside)) second
      · exact List.cons_ne_nil _ _

/-- A text in a join, where the others have no mark. -/
theorem exists_join_around (other : c ∉ mark) (filled : mark ≠ []) {left right : List Text} (text : Text)
    (noneLeft : ∀ text ∈ left, ¬ mark <:+: text) (noneRight : ∀ text ∈ right, ¬ mark <:+: text) :
    ∃ before behind, join [c] (left ++ text :: right) = before ++ (text ++ behind) ∧
      ¬ mark <:+: before ∧ ¬ mark <:+: behind := by
  have empty : ¬ mark <:+: [] := by simpa using filled
  induction left with
  | nil =>
    cases right with
    | nil => exact ⟨[], [], by simp [join], empty, empty⟩
    | cons next right =>
      refine ⟨[], c :: join [c] (next :: right), by simp [join], empty, ?_⟩
      rw [← List.nil_append (c :: _), infix_cut other, not_or]
      exact ⟨empty, not_infix_join other filled noneRight⟩
  | cons first left ih =>
    obtain ⟨before, behind, shape, noneBefore, noneBehind⟩ :=
      ih fun text inside => noneLeft text (List.mem_cons_of_mem _ inside)
    refine ⟨first ++ c :: before, behind, ?_, ?_, noneBehind⟩
    · rw [List.cons_append, join, shape]
      · simp
      · simp
    · rw [infix_cut other, not_or]
      exact ⟨noneLeft first List.mem_cons_self, noneBefore⟩

theorem after?_cut (other : c ∉ mark) (front back : Text) :
    after? mark (front ++ c :: back) = (after? mark front).map (· ++ c :: back) := by
  induction mark generalizing front with
  | nil => rfl
  | cons d mark ih =>
    obtain ⟨different, other⟩ := not_or.1 (mt List.mem_cons.2 other)
    cases front with
    | nil => simp [after?, Ne.symm different]
    | cons e front =>
      simp only [List.cons_append, after?]
      split
      · exact ih other front
      · rfl

theorem takeWhile_cut {keeps : Char → Bool} (stops : keeps c = false) (front back : Text) :
    (front ++ c :: back).takeWhile keeps = front.takeWhile keeps := by
  induction front with
  | nil => rw [List.nil_append, List.takeWhile_cons, stops, List.takeWhile_nil]; rfl
  | cons d front ih => rw [List.cons_append, List.takeWhile_cons, List.takeWhile_cons, ih]

theorem dropWhile_cut {keeps : Char → Bool} (stops : keeps c = false) (front back : Text) :
    (front ++ c :: back).dropWhile keeps = front.dropWhile keeps ++ c :: back := by
  induction front with
  | nil => rw [List.nil_append, List.dropWhile_cons, stops, List.dropWhile_nil]; rfl
  | cons d front ih =>
    rw [List.cons_append, List.dropWhile_cons, List.dropWhile_cons, ih]
    split
    · rfl
    · rfl

end Standing

section Closing

variable {stem : Text} {close : Char} (once : close ∉ stem)

include once

/-- Two places of a mark do not overlap. -/
theorem mark_apart {back behind between : Text}
    (same : stem ++ [close] ++ back = between ++ (stem ++ [close] ++ behind)) :
    between = [] ∨ ∃ rest, between = stem ++ [close] ++ rest ∧
      back = rest ++ (stem ++ [close] ++ behind) := by
  rcases List.append_eq_append_iff.1 same with ⟨rest, between, back⟩ | ⟨extra, mark, behind⟩
  · exact Or.inr ⟨rest, between, back⟩
  · rcases List.eq_nil_or_concat' extra with rfl | ⟨extra, last, rfl⟩
    · exact Or.inr ⟨[], by simpa using mark.symm, by simpa using behind.symm⟩
    · rw [← List.append_assoc] at mark
      obtain ⟨shape, last⟩ := List.append_inj' mark rfl
      obtain rfl := (List.cons.inj last).1
      -- The first closing character is found behind the stem and behind the part of it that is left over.
      have first (part rest : Text) (without : close ∉ part) :
          (part ++ [close] ++ rest).takeWhile (· != close) = part := by
        rw [List.append_assoc, List.takeWhile_append_of_pos (by grind)]
        simp
      have part : close ∉ extra := fun inside => once (shape ▸ List.mem_append_right _ inside)
      have lengths := congrArg (List.takeWhile (· != close)) behind
      rw [first _ _ once, first _ _ part, shape] at lengths
      exact Or.inl (List.append_left_eq_self.1 lengths)

theorem place_unique {front back before behind : Text}
    (same : before ++ (stem ++ [close] ++ behind) = front ++ (stem ++ [close] ++ back))
    (noneBefore : ¬ stem ++ [close] <:+: front) (noneBehind : ¬ stem ++ [close] <:+: back) :
    before = front ∧ behind = back := by
  rcases List.append_eq_append_iff.1 same with ⟨between, place, rest⟩ | ⟨between, place, rest⟩
  · rcases mark_apart once rest with rfl | ⟨more, rfl, -⟩
    · simpa [place] using rest
    · exact absurd ⟨before, more, by rw [place, List.append_assoc]⟩ noneBefore
  · rcases mark_apart once rest with rfl | ⟨more, -, shape⟩
    · simpa [place] using rest.symm
    · exact absurd ⟨more, behind, by rw [shape, List.append_assoc]⟩ noneBehind

/-- A mark goes up to a closing character or stands on one side of it. -/
theorem infix_close {front back : Text} :
    stem ++ [close] <:+: front ++ close :: back ↔
      stem <:+ front ∨ stem ++ [close] <:+: front ∨ stem ++ [close] <:+: back := by
  constructor
  · intro inside
    rcases List.infix_append_iff.1 inside with first | second | ⟨left, right, mark, ends, opens⟩
    · exact Or.inr (Or.inl first)
    · rcases List.infix_cons_iff.1 second with opens | second
      · cases stem with
        | nil => exact Or.inl (List.nil_suffix)
        | cons c stem =>
          obtain ⟨rfl, -⟩ := List.cons_prefix_cons.1 opens
          exact absurd List.mem_cons_self once
      · exact Or.inr (Or.inr second)
    · rcases List.prefix_cons_iff.1 opens with rfl | ⟨rest, rfl, -⟩
      · exact Or.inr (Or.inl (by simpa [mark] using ends.isInfix))
      · -- The closing character ends the mark, so nothing of it stands behind.
        have last : rest = [] := by
          by_contra filled
          obtain ⟨inner, last, rfl⟩ := (List.eq_nil_or_concat' rest).resolve_left filled
          rw [← List.cons_append, ← List.append_assoc] at mark
          exact once (by simp [(List.append_inj' mark rfl).1])
        subst last
        exact Or.inl ((List.append_inj' mark rfl).1 ▸ ends)
  · rintro (ends | first | second)
    · obtain ⟨start, rfl⟩ := ends
      exact ⟨start, back, by simp⟩
    · exact first.trans (List.prefix_append _ _).isInfix
    · exact second.trans ((List.suffix_cons close back).trans (List.suffix_append _ _)).isInfix

end Closing

/-- A mark stands at two places of a text, one behind the other. -/
def Repeats (mark text : Text) : Prop :=
  ∃ between, mark ++ (between ++ mark) <:+: text

theorem repeats_iff {mark text : Text} : Repeats mark text ↔
    ∃ place ∈ text.tails, ∃ rest ∈ after? mark place, mark <:+: rest := by
  constructor
  · rintro ⟨between, start, stop, rfl⟩
    refine ⟨mark ++ (between ++ (mark ++ stop)), ?_, between ++ (mark ++ stop), after?_append _ _, ?_⟩
    · exact (List.mem_tails _ _).2 ⟨start, by simp⟩
    · exact ⟨between, stop, by simp⟩
  · rintro ⟨place, behind, rest, found, between, stop, rfl⟩
    obtain ⟨start, rfl⟩ := (List.mem_tails _ _).1 behind
    exact ⟨between, start, stop, by simp [after?_eq_some.1 found]⟩

instance (mark text : Text) : Decidable (Repeats mark text) :=
  decidable_of_iff _ repeats_iff.symm

theorem not_repeats {mark before behind : Text} (lone : ¬ Repeats mark (before ++ (mark ++ behind))) :
    ¬ mark <:+: before ∧ ¬ mark <:+: behind := by
  constructor
  · rintro ⟨start, between, rfl⟩
    exact lone ⟨between, start, behind, by simp⟩
  · rintro ⟨between, rest, rfl⟩
    exact lone ⟨between, before, rest, by simp⟩

/-- No mark starts in a front text, with what follows it. -/
def Clear (mark front back : Text) : Prop :=
  ∀ place, place ≠ [] → place <:+ front → ¬ mark <+: place ++ back

theorem clear_of_cut {mark front : Text} {c : Char} (other : c ∉ mark)
    (none : ¬ mark <:+: front ++ [c]) (back : Text) : Clear mark (front ++ [c]) back := by
  intro place filled inside opens
  rcases List.prefix_or_prefix_of_prefix opens (List.prefix_append place back) with whole | part
  · exact none (whole.isInfix.trans inside.isInfix)
  · obtain ⟨start, rfl, -⟩ := (List.suffix_concat_iff.1 inside).resolve_left filled
    exact other (part.subset (by simp))

theorem clear_of_close {stem front : Text} {close : Char} (once : close ∉ stem)
    (none : ¬ stem ++ [close] <:+: front) (rest : Text) :
    Clear (stem ++ [close]) front (stem ++ [close] ++ rest) := by
  intro place filled inside opens
  obtain ⟨back, shape⟩ := opens
  obtain ⟨more, rfl, -⟩ := (mark_apart once shape).resolve_left filled
  exact none ((List.prefix_append _ more).isInfix.trans inside.isInfix)

theorem Clear.tail {mark front back : Text} {c : Char} (clear : Clear mark (c :: front) back) :
    Clear mark front back :=
  fun place filled inside => clear place filled (inside.trans (List.suffix_cons c front))

section Searching

variable {mark front back : Text}

theorem splitAt?_clear (clear : Clear mark front back) :
    splitAt? mark (front ++ back) =
      (splitAt? mark back).map fun (before, rest) => (front ++ before, rest) := by
  induction front with
  | nil => simp
  | cons c front ih =>
    have here : after? mark (c :: (front ++ back)) = none := by
      rw [Option.eq_none_iff_forall_ne_some]
      intro rest found
      refine clear (c :: front) (List.cons_ne_nil _ _) List.suffix_rfl ⟨rest, ?_⟩
      exact (after?_eq_some.1 found).symm
    rw [List.cons_append, splitAt?, here, ih clear.tail]
    simp [Option.map_map, Function.comp_def]

theorem splitAt?_sound {text before rest : Text} (found : splitAt? mark text = some (before, rest)) :
    text = before ++ (mark ++ rest) := by
  induction text generalizing before with
  | nil =>
    obtain ⟨rest, here, same⟩ := Option.map_eq_some_iff.1 found
    cases same
    simpa using after?_eq_some.1 here
  | cons c text ih =>
    rw [splitAt?] at found
    split at found
    next rest here =>
      cases found
      simpa using after?_eq_some.1 here
    next none =>
      obtain ⟨⟨before, rest⟩, later, same⟩ := Option.map_eq_some_iff.1 found
      cases same
      rw [ih later, List.cons_append]

theorem isSome_splitAt? {text : Text} (inside : mark <:+: text) : (splitAt? mark text).isSome := by
  obtain ⟨front, rest, rfl⟩ := inside
  induction front with
  | nil =>
    rw [List.nil_append]
    cases text : mark ++ rest with
    | nil =>
      rw [splitAt?, ← text, after?_append]
      rfl
    | cons c tail =>
      rw [splitAt?, ← text, after?_append]
      rfl
  | cons c front ih =>
    simp only [List.cons_append, splitAt?]
    split
    · rfl
    · simpa using ih

variable {α : Type} {find : Text → Option α}

theorem firstSuffix_previous (first second : Option Char) (text : Text) :
    firstSuffix (fun _ => find) first text = firstSuffix (fun _ => find) second text := by
  cases text <;> rfl

theorem firstSuffix_eq_none (previous : Option Char) {text : Text} :
    firstSuffix (fun _ => find) previous text = none ↔ ∀ place, place <:+ text → find place = none := by
  induction text generalizing previous with
  | nil => simp [firstSuffix]
  | cons c text ih =>
    simp only [firstSuffix, List.suffix_cons_iff, forall_eq_or_imp]
    rw [← ih (some c)]
    cases find (c :: text) <;> simp

theorem firstSuffix_clear (finds : ∀ place, (find place).isSome → mark <+: place)
    (clear : Clear mark front back) (previous : Option Char) :
    firstSuffix (fun _ => find) previous (front ++ back) =
      firstSuffix (fun _ => find) previous back := by
  induction front generalizing previous with
  | nil => rfl
  | cons c front ih =>
    have here : find (c :: (front ++ back)) = none := by
      rw [← Option.not_isSome_iff_eq_none]
      intro found
      exact clear (c :: front) (List.cons_ne_nil _ _) List.suffix_rfl (finds _ found)
    rw [List.cons_append, firstSuffix, here]
    exact (ih clear.tail (some c)).trans (firstSuffix_previous _ _ _)

end Searching

end GoGraft.Text
