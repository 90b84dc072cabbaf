import GoGraft.Text.Basic

/-! Rows of cells written so that cells of one column start below each other. The last cell of a
row closes it and is not padded. A column is as wide as its widest cell and a space, but only rows
without a gap between them share a column: a row that ends before it divides the rows above from
those below. -/

namespace GoGraft.Layout

/-- Whether a row has a cell that another one follows. -/
def isOpen (cells : List Text) : Bool :=
  1 < cells.length

/-- The width of a column; one with nothing in it takes no room. -/
def columnWidth (cells : List Text) : Nat :=
  if cells.all List.isEmpty then 0 else (cells.map List.length).foldl max 0 + 1

def pad (width : Nat) (cell : Text) : Text :=
  cell ++ List.replicate (width - cell.length) ' '

/-- Lays out the first of several columns in each block of rows, and the others within the block. -/
def layColumns : (columns : Nat) → List (List Text) → List Text
  | 0, rows => rows.map List.flatten
  | columns + 1, rows =>
    (rows.splitBy fun above below => isOpen above == isOpen below).flatMap fun block =>
      if block.all isOpen then
        let width := columnWidth (block.map fun cells => cells.headD [])
        List.zipWith (fun cells rest => pad width (cells.headD []) ++ rest) block
          (layColumns columns (block.map List.tail))
      else block.map List.flatten

/-- One line for each row, without blanks at its end. -/
def align (rows : List (List Text)) : List Text :=
  (layColumns ((rows.map List.length).foldl max 0) rows).map Text.trimEnd

end GoGraft.Layout
