import Mathlib.Data.List.Forall2
import Mathlib.Data.List.SplitBy
import GoGraft.Layout

/-! Rows written in columns. Each row gives one line, and the line has the cells of the row in their
order, with nothing but spaces between them. -/

namespace GoGraft.Layout

/-- A text is made of cells in their order, each followed by any number of spaces. -/
inductive Spaced : List Text → Text → Prop where
  | nil : Spaced [] []
  | cons (cell : Text) (spaces : Nat) {cells : List Text} {rest : Text} (others : Spaced cells rest) :
    Spaced (cell :: cells) (cell ++ List.replicate spaces ' ' ++ rest)

theorem Spaced.flatten (cells : List Text) : Spaced cells cells.flatten := by
  induction cells with
  | nil => exact .nil
  | cons cell rest ih => simpa using Spaced.cons cell 0 ih

/-- Cells that are left out because they are empty stand anywhere. -/
theorem Spaced.join_filter (cells : List Text) :
    Spaced cells (Text.join " ".toList (cells.filter fun cell => !cell.isEmpty)) := by
  induction cells with
  | nil => exact .nil
  | cons cell rest ih =>
    cases cell with
    | nil => simpa using Spaced.cons [] 0 ih
    | cons c text =>
      cases others : rest.filter fun cell => !cell.isEmpty with
      | nil =>
        rw [others] at ih
        simpa [others, Text.join] using Spaced.cons (c :: text) 0 ih
      | cons next later =>
        rw [others] at ih
        simpa [others, Text.join] using Spaced.cons (c :: text) 1 ih

/-- In a block where every row goes on, the first cell is padded and the others follow. -/
private theorem padded_spaced {block : List (List Text)} (opened : block.all isOpen) (width : Nat)
    {lines : List Text} (others : List.Forall₂ Spaced (block.map List.tail) lines) :
    List.Forall₂ Spaced block
      (List.zipWith (fun cells rest => pad width (cells.headD []) ++ rest) block lines) := by
  induction block generalizing lines with
  | nil => cases others; exact .nil
  | cons row rest ih =>
    obtain ⟨first, later⟩ : isOpen row ∧ rest.all isOpen := by simpa using opened
    cases others with
    | cons tail below =>
      refine .cons ?_ (ih later below)
      cases row with
      | nil => cases first
      | cons cell cells => exact .cons cell _ tail

theorem layColumns_spaced (columns : Nat) (rows : List (List Text)) :
    List.Forall₂ Spaced rows (layColumns columns rows) := by
  induction columns generalizing rows with
  | zero =>
    rw [layColumns, List.forall₂_map_right_iff, List.forall₂_same]
    exact fun row _ => .flatten row
  | succ columns ih =>
    have whole := List.flatten_splitBy (fun above below => isOpen above == isOpen below) rows
    rw [layColumns]
    nth_rewrite 1 [← whole]
    apply List.rel_flatten
    rw [List.forall₂_map_right_iff, List.forall₂_same]
    intro block _
    split
    next opened => exact padded_spaced opened _ (ih _)
    next =>
      rw [List.forall₂_map_right_iff, List.forall₂_same]
      exact fun row _ => .flatten row

/-- Each row gives one line: its cells with spaces between, and no blanks at the end. -/
theorem align_spaced (rows : List (List Text)) :
    List.Forall₂ (fun row line => ∃ text, Spaced row text ∧ line = Text.trimEnd text) rows
      (align rows) := by
  rw [align, List.forall₂_map_right_iff]
  exact (layColumns_spaced _ rows).imp fun row text spaced => ⟨text, spaced, rfl⟩

end GoGraft.Layout
