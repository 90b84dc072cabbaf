import GoGraft.Text.Basic
import Mathlib.Data.List.TakeDrop

/-! What the shared operations on text give: beginnings and ends that are taken off, trimming of a
text with nothing to trim, and reading a text piece by piece. -/

namespace GoGraft.Text

theorem after?_eq_some {beginning text rest : Text} :
    after? beginning text = some rest ↔ text = beginning ++ rest := by
  induction beginning generalizing text with
  | nil => simp [after?, eq_comm]
  | cons c beginning ih =>
    cases text with
    | nil => simp [after?]
    | cons d text =>
      by_cases same : c = d
      · simp [after?, same, ih]
      · simp [after?, same, Ne.symm same]

@[simp] theorem after?_append (beginning rest : Text) :
    after? beginning (beginning ++ rest) = some rest :=
  after?_eq_some.2 rfl

theorem before?_eq_some {ending text rest : Text} :
    before? ending text = some rest ↔ text = rest ++ ending := by
  simp only [before?, Option.map_eq_some_iff, after?_eq_some]
  constructor
  · rintro ⟨reversed, split, rfl⟩
    have straight := congrArg List.reverse split
    simpa using straight
  · intro split
    exact ⟨rest.reverse, by simp [split], by simp⟩

theorem dropWhile_of_head {drops : Char → Bool} {text : Text}
    (kept : ∀ c, text.head? = some c → drops c = false) : text.dropWhile drops = text := by
  cases text with
  | nil => rfl
  | cons c rest => exact List.dropWhile_cons_of_neg (by simp [kept c rfl])

theorem dropWhile_reverse_of_last {drops : Char → Bool} {text : Text}
    (kept : ∀ c, text.getLast? = some c → drops c = false) :
    (text.reverse.dropWhile drops).reverse = text := by
  rw [dropWhile_of_head (by rwa [List.head?_reverse]), List.reverse_reverse]

theorem trim_of_ends {text : Text} (first : ∀ c, text.head? = some c → isBlank c = false)
    (last : ∀ c, text.getLast? = some c → isBlank c = false) : trim text = text := by
  rw [trim, trimStart, dropWhile_of_head first, trimEnd, dropWhile_reverse_of_last last]

theorem trimOf_of_ends {c : Char} {text : Text} (first : ∀ d, text.head? = some d → (d == c) = false)
    (last : ∀ d, text.getLast? = some d → (d == c) = false) : trimOf c text = text := by
  rw [trimOf, dropWhile_of_head first, dropWhile_reverse_of_last last]

/-- The backticks around a text are all that is trimmed, if it has none of its own at its ends. -/
theorem trimOf_inBackticks {text : Text} (first : ∀ c, text.head? = some c → (c == '\x60') = false)
    (last : ∀ c, text.getLast? = some c → (c == '\x60') = false) :
    trimOf '\x60' (inBackticks text) = text := by
  cases text with
  | nil => rfl
  | cons c rest =>
    have front : (inBackticks (c :: rest)).dropWhile (· == '\x60') = c :: rest ++ ['\x60'] := by
      rw [inBackticks, List.cons_append, List.dropWhile_cons_of_pos (by simp), List.cons_append,
        List.dropWhile_cons_of_neg (by rw [first c rfl]; simp)]
    have back := dropWhile_reverse_of_last last
    rw [trimOf, front, List.reverse_append]
    simpa using back

theorem trim_inBackticks (text : Text) : trim (inBackticks text) = inBackticks text := by
  apply trim_of_ends
  · simp [inBackticks, isBlank]
  · rw [inBackticks, List.getLast?_append]
    simp [isBlank]

theorem mem_of_mem_trim {c : Char} {text : Text} (inside : c ∈ trim text) : c ∈ text := by
  have front := List.mem_reverse.1 ((List.dropWhile_suffix isBlank).subset (List.mem_reverse.1 inside))
  exact (List.dropWhile_suffix isBlank).subset front

theorem mem_of_mem_trimOf {c d : Char} {text : Text} (inside : c ∈ trimOf d text) : c ∈ text := by
  have front := List.mem_reverse.1 ((List.dropWhile_suffix (· == d)).subset (List.mem_reverse.1 inside))
  exact (List.dropWhile_suffix (· == d)).subset front

theorem mem_join {c : Char} {separator : Text} {texts : List Text} (apart : c ∉ separator) :
    c ∈ join separator texts ↔ ∃ text ∈ texts, c ∈ text := by
  induction texts with
  | nil => simp [join]
  | cons text rest ih =>
    cases rest with
    | nil => simp [join]
    | cons next rest =>
      have split : join separator (text :: next :: rest) =
          text ++ separator ++ join separator (next :: rest) := rfl
      rw [split, List.mem_append, List.mem_append, ih]
      simp [apart]

section Reading

variable {α : Type} {read? : Text → Option (α × Text)}

theorem readAll_eq_drop (passed : Nat) (text : Text) :
    readAll read? passed text = readAll read? 0 (text.drop passed) := by
  induction passed generalizing text with
  | zero => rfl
  | succ passed ih =>
    cases text with
    | nil => simp [readAll]
    | cons c text => simpa [readAll] using ih text

/-- A piece that the reader takes is followed by what is read from the rest. -/
theorem readAll_append {taken rest : Text} {value : α} (some_taken : taken ≠ [])
    (read : read? (taken ++ rest) = some (value, rest)) :
    readAll read? 0 (taken ++ rest) = value :: readAll read? 0 rest := by
  cases taken with
  | nil => exact absurd rfl some_taken
  | cons c taken =>
    rw [List.cons_append] at read ⊢
    simp only [readAll, read]
    rw [readAll_eq_drop]
    simp

theorem readAll_cons_of_none {c : Char} {rest : Text} (read : read? (c :: rest) = none) :
    readAll read? 0 (c :: rest) = readAll read? 0 rest := by
  simp [readAll, read]

/-- Every value is read somewhere in the text. -/
theorem exists_of_mem_readAll {passed : Nat} {text : Text} {value : α}
    (inside : value ∈ readAll read? passed text) :
    ∃ place rest, place <:+ text ∧ read? place = some (value, rest) := by
  induction text generalizing passed with
  | nil => simp [readAll] at inside
  | cons c text ih =>
    have behind {passed : Nat} (inside : value ∈ readAll read? passed text) :
        ∃ place rest, place <:+ c :: text ∧ read? place = some (value, rest) := by
      obtain ⟨place, rest, suffix, read⟩ := ih inside
      exact ⟨place, rest, suffix.trans (List.suffix_cons c text), read⟩
    cases passed with
    | succ passed => exact behind inside
    | zero =>
      rw [readAll] at inside
      split at inside
      next found rest read =>
        rcases List.mem_cons.1 inside with here | later
        · exact ⟨c :: text, rest, List.suffix_refl _, here ▸ read⟩
        · exact behind later
      next => exact behind inside

end Reading

end GoGraft.Text
