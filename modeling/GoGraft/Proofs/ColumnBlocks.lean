import Mathlib
import GoGraft.Proofs.Columns

/-! Columns told from the whole table. Rows are laid out block within block, but how far a cell is
padded can be said of each row and column at once: the rows that share the column with it are those
with no shorter row between, and the widest of their cells decides. From this it follows that cells
of a column stand below each other, and that no cell touches the next one. -/

namespace GoGraft.Layout

variable {rows above below : List (List Text)} {row column : Nat}

/-- Whether a row has a cell in a column, and another one behind it. -/
def reaches (rows : List (List Text)) (column row : Nat) : Bool :=
  rows[row]?.any fun cells => column + 1 < cells.length

/-- The block of a row in a column: the rows up to which every row reaches over the column. -/
def block (rows : List (List Text)) (row column : Nat) : Finset Nat :=
  (Finset.range rows.length).filter fun other =>
    ∀ between ∈ Finset.Icc (min row other) (max row other), reaches rows column between

def cell (rows : List (List Text)) (row column : Nat) : Text :=
  (rows[row]?.bind fun cells => cells[column]?).getD []

/-- The width of a column at a row. -/
def width (rows : List (List Text)) (row column : Nat) : Nat :=
  if ∀ other ∈ block rows row column, cell rows other column = [] then 0
  else (block rows row column).sup (fun other => (cell rows other column).length) + 1

/-- The cells of a row, each but the last one padded. -/
def spread (rows : List (List Text)) (row : Nat) (cells : List Text) : List Text :=
  cells.mapIdx fun column cell =>
    if column + 1 < cells.length then pad (width rows row column) cell else cell

/-- The lines of a table, with what may be blank at their ends. -/
def spreadLines (rows : List (List Text)) : List Text :=
  rows.mapIdx fun row cells => (spread rows row cells).flatten

theorem mem_block {other : Nat} : other ∈ block rows row column ↔
    other < rows.length ∧
      ∀ between, min row other ≤ between → between ≤ max row other → reaches rows column between := by
  simp only [block, Finset.mem_filter, Finset.mem_range, Finset.mem_Icc, and_imp]

theorem reaches_of_getElem? {cells : List Text} (found : rows[row]? = some cells) :
    reaches rows column row = decide (column + 1 < cells.length) := by
  simp [reaches, found]

theorem lt_length_of_reaches (reach : reaches rows column row) : row < rows.length := by
  by_contra outside
  rw [reaches, List.getElem?_eq_none (Nat.le_of_not_lt outside)] at reach
  cases reach

theorem mem_block_self (reach : reaches rows column row) : row ∈ block rows row column := by
  refine mem_block.2 ⟨lt_length_of_reaches reach, fun between low high => ?_⟩
  have same : between = row := by omega
  rwa [same]

/-! ### Blocks of a table and of its parts -/

/-- Where one table ends or the other begins, a row has no cell that another one follows. -/
def Apart (above below : List (List Text)) : Prop :=
  ∀ last ∈ above.getLast?, ∀ first ∈ below.head?, ¬ (isOpen last ∧ isOpen first)

theorem reaches_append_left (inside : row < above.length) :
    reaches (above ++ below) column row = reaches above column row := by
  rw [reaches, reaches, List.getElem?_append_left inside]

theorem reaches_append_right :
    reaches (above ++ below) column (above.length + row) = reaches below column row := by
  rw [reaches, reaches, List.getElem?_append_right (Nat.le_add_right _ _), Nat.add_sub_cancel_left]

theorem cell_append_left (inside : row < above.length) :
    cell (above ++ below) row column = cell above row column := by
  rw [cell, cell, List.getElem?_append_left inside]

theorem cell_append_right :
    cell (above ++ below) (above.length + row) column = cell below row column := by
  rw [cell, cell, List.getElem?_append_right (Nat.le_add_right _ _), Nat.add_sub_cancel_left]

/-- No block goes over the border of two tables that are apart. -/
theorem not_reaches_border (apart : Apart above below) (filled : above ≠ []) :
    ¬ (reaches (above ++ below) column (above.length - 1) ∧
      reaches (above ++ below) column above.length) := by
  rintro ⟨last, first⟩
  have inside : above.length - 1 < above.length := by
    have := List.length_pos_of_ne_nil filled
    omega
  rw [reaches_append_left inside, reaches, ← List.getLast?_eq_getElem?, Option.any_eq_true] at last
  rw [← Nat.add_zero above.length, reaches_append_right, reaches, ← List.head?_eq_getElem?,
    Option.any_eq_true] at first
  obtain ⟨one, isLast, reachLast⟩ := last
  obtain ⟨two, isFirst, reachFirst⟩ := first
  refine apart one isLast two isFirst ⟨?_, ?_⟩
  · simp only [isOpen, decide_eq_true_eq] at reachLast ⊢
    omega
  · simp only [isOpen, decide_eq_true_eq] at reachFirst ⊢
    omega

theorem block_append_left (apart : Apart above below) (inside : row < above.length) :
    block (above ++ below) row column = block above row column := by
  have filled : above ≠ [] := List.ne_nil_of_length_pos (by omega)
  ext other
  rw [mem_block, mem_block]
  constructor
  · rintro ⟨-, reach⟩
    have same : other < above.length := by
      by_contra beyond
      exact not_reaches_border apart filled
        ⟨reach _ (by omega) (by omega), reach _ (by omega) (by omega)⟩
    refine ⟨same, fun between low high => ?_⟩
    have reached := reach between low high
    rwa [reaches_append_left (by omega)] at reached
  · rintro ⟨same, reach⟩
    refine ⟨by rw [List.length_append]; omega, fun between low high => ?_⟩
    rw [reaches_append_left (by omega)]
    exact reach between low high

theorem block_append_right (apart : Apart above below) :
    block (above ++ below) (above.length + row) column =
      (block below row column).map (addLeftEmbedding above.length) := by
  ext other
  simp only [Finset.mem_map, addLeftEmbedding_apply, mem_block, List.length_append]
  constructor
  · rintro ⟨bound, reach⟩
    have same : above.length ≤ other := by
      by_contra beyond
      have filled : above ≠ [] := List.ne_nil_of_length_pos (by omega)
      exact not_reaches_border apart filled
        ⟨reach _ (by omega) (by omega), reach _ (by omega) (by omega)⟩
    refine ⟨other - above.length, ⟨by omega, fun between low high => ?_⟩, by omega⟩
    have reached := reach (above.length + between) (by omega) (by omega)
    rwa [reaches_append_right] at reached
  · rintro ⟨place, ⟨bound, reach⟩, rfl⟩
    refine ⟨by omega, fun between low high => ?_⟩
    obtain ⟨offset, rfl⟩ : ∃ offset, between = above.length + offset :=
      ⟨between - above.length, by omega⟩
    rw [reaches_append_right]
    exact reach offset (by omega) (by omega)

theorem width_append_left (apart : Apart above below) (inside : row < above.length) :
    width (above ++ below) row column = width above row column := by
  have cells : ∀ other ∈ block above row column,
      cell (above ++ below) other column = cell above other column :=
    fun other held => cell_append_left (mem_block.1 held).1
  have lengths : (block above row column).sup (fun other => (cell (above ++ below) other column).length) =
      (block above row column).sup fun other => (cell above other column).length :=
    Finset.sup_congr rfl fun other held => by rw [cells other held]
  rw [width, width, block_append_left apart inside, lengths]
  exact if_congr (forall₂_congr fun other held => by rw [cells other held]) rfl rfl

theorem width_append_right (apart : Apart above below) :
    width (above ++ below) (above.length + row) column = width below row column := by
  rw [width, width, block_append_right apart, Finset.sup_map]
  simp only [Finset.forall_mem_map, Function.comp_def, addLeftEmbedding_apply, cell_append_right]

theorem spread_congr {other : List (List Text)} {place : Nat} {cells : List Text}
    (same : ∀ column, width rows row column = width other place column) :
    spread rows row cells = spread other place cells := by
  simp only [spread, same]

/-- Tables that are apart are laid out one after the other. -/
theorem spreadLines_append (apart : Apart above below) :
    spreadLines (above ++ below) = spreadLines above ++ spreadLines below := by
  rw [spreadLines, List.mapIdx_append]
  refine congr (congrArg _ ?_) ?_
  · refine List.mapIdx_eq_mapIdx_iff.2 fun row inside => ?_
    rw [spread_congr fun column => width_append_left apart inside]
  · refine List.mapIdx_eq_mapIdx_iff.2 fun row _ => ?_
    rw [Nat.add_comm, spread_congr fun column => width_append_right apart]

theorem spreadLines_flatten {tables : List (List (List Text))}
    (apart : tables.IsChain fun one two => ∃ last first, isOpen (one.getLast last) ≠ isOpen (two.head first)) :
    spreadLines tables.flatten = tables.flatMap spreadLines := by
  induction tables with
  | nil => rfl
  | cons table rest ih =>
    rw [List.flatten_cons, List.flatMap_cons, spreadLines_append, ih apart.tail]
    intro last isLast first isFirst both
    cases rest with
    | nil => cases isFirst
    | cons next others =>
      obtain ⟨one, two, differ⟩ := (List.isChain_cons_cons.1 apart).1
      obtain ⟨start, more, rfl⟩ := List.exists_cons_of_ne_nil two
      rw [List.getLast?_eq_some_getLast one, Option.mem_some_iff] at isLast
      cases isFirst
      rw [isLast, List.head_cons, both.1, both.2] at differ
      exact differ rfl

/-! ### Columns within a block -/

theorem spread_of_not_isOpen {cells : List Text} (closed : ¬ isOpen cells) :
    spread rows row cells = cells := by
  cases cells with
  | nil => rfl
  | cons first rest =>
    cases rest with
    | nil => rfl
    | cons second rest => simp [isOpen] at closed

theorem spreadLines_of_not_isOpen (closed : ∀ cells ∈ rows, ¬ isOpen cells) :
    spreadLines rows = rows.map List.flatten := by
  apply List.ext_getElem (by simp [spreadLines])
  intro row inside _
  have held : row < rows.length := by simpa [spreadLines] using inside
  simp only [spreadLines, List.getElem_mapIdx, List.getElem_map,
    spread_of_not_isOpen (closed _ (List.getElem_mem held))]

theorem foldl_max_le_iff {lengths : List Nat} {start bound : Nat} :
    lengths.foldl max start ≤ bound ↔ start ≤ bound ∧ ∀ length ∈ lengths, length ≤ bound := by
  induction lengths generalizing start with
  | nil => simp
  | cons length rest ih => simp [ih, and_assoc]

/-- Where all rows go on, all of them share the first column. -/
theorem width_zero (opened : ∀ cells ∈ rows, isOpen cells) (inside : row < rows.length) :
    width rows row 0 = columnWidth (rows.map fun cells => cells.headD []) := by
  have whole : block rows row 0 = Finset.range rows.length := by
    ext other
    rw [mem_block, Finset.mem_range]
    refine ⟨And.left, fun bound => ⟨bound, fun between low high => ?_⟩⟩
    have held : between < rows.length := by omega
    rw [reaches, List.getElem?_eq_getElem held]
    exact opened _ (List.getElem_mem held)
  have each (holds : Text → Prop) : (∀ other ∈ block rows row 0, holds (cell rows other 0)) ↔
      ∀ text ∈ rows.map fun cells => cells.headD [], holds text := by
    rw [whole, List.forall_mem_map, List.forall_mem_iff_getElem]
    simp only [Finset.mem_range]
    refine forall₂_congr fun other bound => ?_
    rw [cell, List.getElem?_eq_getElem bound, Option.bind_some, ← List.head?_eq_getElem?,
      ← List.headD_eq_head?_getD]
  have widest : (block rows row 0).sup (fun other => (cell rows other 0).length) =
      ((rows.map fun cells => cells.headD []).map List.length).foldl max 0 := by
    refine eq_of_forall_ge_iff fun bound => ?_
    rw [Finset.sup_le_iff, each fun text => text.length ≤ bound, foldl_max_le_iff,
      and_iff_right (Nat.zero_le bound)]
    simp only [List.forall_mem_map]
  rw [width, columnWidth, widest]
  refine if_congr ?_ rfl rfl
  rw [each fun text => text = [], List.all_eq_true]
  simp only [List.isEmpty_iff]

/-- The later columns are those of the rows without their first cells. -/
theorem width_succ : width rows row (column + 1) = width (rows.map List.tail) row column := by
  have reach (other : Nat) : reaches rows (column + 1) other = reaches (rows.map List.tail) column other := by
    rw [reaches, reaches, List.getElem?_map, Option.any_map]
    congr 1
    funext cells
    simp only [List.length_tail]
    exact decide_eq_decide.2 (by omega)
  have cells (other : Nat) : cell rows other (column + 1) = cell (rows.map List.tail) other column := by
    rw [cell, cell, List.getElem?_map]
    cases rows[other]? with
    | none => rfl
    | some cells => simp
  have blocks : block rows row (column + 1) = block (rows.map List.tail) row column := by
    simp only [block, reach, List.length_map]
  simp only [width, blocks, cells]

theorem spread_of_isOpen {cells : List Text} (opened : isOpen cells) :
    spread rows row cells =
      pad (width rows row 0) (cells.headD []) :: spread (rows.map List.tail) row cells.tail := by
  cases cells with
  | nil => cases opened
  | cons first rest =>
    have further : 0 < rest.length := by simpa [isOpen] using opened
    have longer : 0 + 1 < (first :: rest).length := Nat.succ_lt_succ further
    rw [spread, List.mapIdx_cons, if_pos longer]
    refine congrArg _ (List.mapIdx_eq_mapIdx_iff.2 fun column _ => ?_)
    rw [width_succ]
    exact if_congr (by simp) rfl rfl

theorem spreadLines_of_isOpen (opened : ∀ cells ∈ rows, isOpen cells) :
    spreadLines rows =
      List.zipWith
        (fun cells rest => pad (columnWidth (rows.map fun cells => cells.headD [])) (cells.headD []) ++ rest)
        rows (spreadLines (rows.map List.tail)) := by
  apply List.ext_getElem (by simp [spreadLines])
  intro row inside _
  have held : row < rows.length := by simpa [spreadLines] using inside
  simp only [spreadLines, List.getElem_mapIdx, List.getElem_zipWith, List.getElem_map,
    spread_of_isOpen (opened _ (List.getElem_mem held)), width_zero opened held, List.flatten_cons]

theorem layColumns_eq_spreadLines (columns : Nat) (rows : List (List Text))
    (enough : ∀ cells ∈ rows, cells.length ≤ columns + 1) :
    layColumns columns rows = spreadLines rows := by
  induction columns generalizing rows with
  | zero =>
    rw [layColumns, spreadLines_of_not_isOpen]
    intro cells inside
    simpa [isOpen] using enough cells inside
  | succ columns ih =>
    let alike (above below : List Text) : Bool := isOpen above == isOpen below
    have whole : (rows.splitBy alike).flatten = rows := List.flatten_splitBy _ _
    have apart := List.isChain_getLast_head_splitBy alike rows
    rw [layColumns]
    conv_rhs => rw [← whole]
    rw [spreadLines_flatten (apart.imp fun one two ends => ends.imp fun last => .imp fun first differ => by
      simpa [alike] using differ)]
    refine List.flatMap_congr fun table inside => ?_
    have held : ∀ cells ∈ table, cells ∈ rows := fun cells here =>
      whole ▸ List.mem_flatten_of_mem inside here
    have alike : ∀ one ∈ table, ∀ two ∈ table, isOpen one = isOpen two := by
      have chain : (table.map isOpen).IsChain (· = ·) :=
        (List.isChain_map _).2 ((List.isChain_of_mem_splitBy inside).imp fun _ _ same => eq_of_beq same)
      exact fun one here two there => chain.pairwise.forall_of_forall (fun _ _ => rfl)
        (List.mem_map_of_mem here) (List.mem_map_of_mem there)
    split
    next opened =>
      rw [spreadLines_of_isOpen (List.all_eq_true.1 opened), ih]
      rintro cells tail
      obtain ⟨longer, here, rfl⟩ := List.mem_map.1 tail
      have bound := enough longer (held longer here)
      rw [List.length_tail]
      omega
    next closed =>
      rw [spreadLines_of_not_isOpen]
      intro one here opened
      refine closed (List.all_eq_true.2 fun two there => ?_)
      rw [← alike one here two there, opened]

/-! ### What follows for the cells of a row -/

theorem length_cell_lt_width (reach : reaches rows column row) (filled : cell rows row column ≠ []) :
    (cell rows row column).length < width rows row column := by
  have own := mem_block_self reach
  have some_filled : ¬ ∀ other ∈ block rows row column, cell rows other column = [] :=
    fun none => filled (none row own)
  rw [width, if_neg some_filled]
  exact Nat.lt_succ_of_le (Finset.le_sup (f := fun other => (cell rows other column).length) own)

theorem length_pad_width (reach : reaches rows column row) :
    (pad (width rows row column) (cell rows row column)).length = width rows row column := by
  have bound : (cell rows row column).length ≤ width rows row column := by
    by_cases filled : cell rows row column = []
    · simp [filled]
    · exact (length_cell_lt_width reach filled).le
  rw [pad, List.length_append, List.length_replicate]
  omega

/-- Rows one below the other that reach over a column have the same block there. -/
theorem width_below (reach : reaches rows column row) (next : reaches rows column (row + 1)) :
    width rows row column = width rows (row + 1) column := by
  have same : block rows row column = block rows (row + 1) column := by
    ext other
    rw [mem_block, mem_block]
    refine and_congr_right fun _ => ⟨fun shared between low high => ?_, fun shared between low high => ?_⟩
    · by_cases lower : between = row + 1
      · rwa [lower]
      · exact shared between (by omega) (by omega)
    · by_cases upper : between = row
      · rwa [upper]
      · exact shared between (by omega) (by omega)
  rw [width, width, same]

/-- How many characters stand in front of a cell in its line. -/
def start (rows : List (List Text)) (row : Nat) (cells : List Text) (column : Nat) : Nat :=
  ((spread rows row cells).take column).flatten.length

section
variable {cells : List Text} (found : rows[row]? = some cells)
include found

theorem cell_of_getElem? (inside : column < cells.length) : cell rows row column = cells[column] := by
  rw [cell, found, Option.bind_some, List.getElem?_eq_getElem inside, Option.getD_some]

theorem getElem?_spread (further : column + 1 < cells.length) :
    (spread rows row cells)[column]? = some (pad (width rows row column) (cell rows row column)) := by
  rw [spread, List.getElem?_mapIdx, List.getElem?_eq_getElem (by omega), Option.map_some, if_pos further,
    cell_of_getElem? found]

/-- In front of a cell stand the columns before it, each as wide as it is at this row. -/
theorem start_eq_sum (inside : column < cells.length) :
    start rows row cells column = ∑ before ∈ Finset.range column, width rows row before := by
  induction column with
  | zero => rfl
  | succ column ih =>
    have reach : reaches rows column row := by simpa [reaches_of_getElem? found] using inside
    rw [Finset.sum_range_succ, ← ih (by omega), start, List.take_add_one, getElem?_spread found inside,
      List.flatten_append, List.length_append]
    simp [start, length_pad_width reach]

/-- The cells from one on, as they stand in their line. -/
theorem flatten_stretch (first : Nat) {count : Nat} (inside : first + count + 1 < cells.length) :
    (((spread rows row cells).drop first).take (count + 1)).flatten =
      (((spread rows row cells).drop first).take count).flatten ++
        pad (width rows row (first + count)) (cell rows row (first + count)) := by
  rw [List.take_add_one, List.getElem?_drop, getElem?_spread found inside, List.flatten_append]
  simp

/-- Behind a cell there are spaces up to the next cell that holds something. -/
theorem flatten_gap {first count : Nat} (inside : first + count + 1 < cells.length)
    (filled : cell rows row first ≠ [])
    (empty : ∀ between, first < between → between ≤ first + count → cell rows row between = []) :
    ∃ spaces, (((spread rows row cells).drop first).take (count + 1)).flatten =
      cell rows row first ++ List.replicate (spaces + 1) ' ' := by
  induction count with
  | zero =>
    have reach : reaches rows first row := by simpa [reaches_of_getElem? found] using inside
    have wider := length_cell_lt_width reach filled
    refine ⟨width rows row first - (cell rows row first).length - 1, ?_⟩
    rw [flatten_stretch found first inside, List.take_zero, List.flatten_nil, List.nil_append, pad,
      Nat.sub_add_cancel (by omega)]
    rfl
  | succ count ih =>
    obtain ⟨spaces, same⟩ := ih (by omega) fun between low high => empty between low (by omega)
    have none := empty (first + (count + 1)) (by omega) (Nat.le_refl _)
    refine ⟨spaces + width rows row (first + (count + 1)), ?_⟩
    rw [flatten_stretch found first inside, same, none, pad, List.nil_append, List.length_nil,
      Nat.sub_zero, List.append_assoc, ← List.replicate_add, Nat.add_right_comm]

end

/-- Each row is written on a line of its own, its cells padded to the widths of their columns. Rows
one below the other that reach over a column have the next cell at the same place, and behind a cell
that holds something comes at least one space before the next one. -/
theorem align_eq_spread (rows : List (List Text)) :
    align rows = rows.mapIdx (fun row cells => Text.trimEnd (spread rows row cells).flatten) ∧
    (∀ row column above below, rows[row]? = some above → rows[row + 1]? = some below →
      column + 1 < above.length → column + 1 < below.length →
      start rows row above (column + 1) = start rows (row + 1) below (column + 1)) ∧
    ∀ row cells first last, rows[row]? = some cells → first < last → last < cells.length →
      cell rows row first ≠ [] →
      (∀ between, first < between → between < last → cell rows row between = []) →
      ∃ spaces, (((spread rows row cells).drop first).take (last - first)).flatten =
        cell rows row first ++ List.replicate (spaces + 1) ' ' := by
  refine ⟨?_, ?_, ?_⟩
  · have enough : ∀ cells ∈ rows, cells.length ≤ (rows.map List.length).foldl max 0 + 1 := by
      intro cells inside
      have bound := (foldl_max_le_iff.1 (Nat.le_refl ((rows.map List.length).foldl max 0))).2
        cells.length (List.mem_map_of_mem inside)
      omega
    rw [align, layColumns_eq_spreadLines _ rows enough, spreadLines]
    exact List.ext_getElem (by simp) fun row _ _ => by simp
  · intro row column above below upper lower longAbove longBelow
    rw [start_eq_sum upper longAbove, start_eq_sum lower longBelow]
    refine Finset.sum_congr rfl fun before inside => ?_
    have bound := Finset.mem_range.1 inside
    refine width_below ?_ ?_
    · simpa [reaches_of_getElem? upper] using by omega
    · simpa [reaches_of_getElem? lower] using by omega
  · intro row cells first last found before inside filled empty
    obtain ⟨count, rfl⟩ : ∃ count, last = first + count + 1 := ⟨last - first - 1, by omega⟩
    obtain ⟨spaces, same⟩ := flatten_gap found inside filled fun between low high =>
      empty between low (by omega)
    have size : first + count + 1 - first = count + 1 := by omega
    exact ⟨spaces, by rw [size, same]⟩

end GoGraft.Layout
