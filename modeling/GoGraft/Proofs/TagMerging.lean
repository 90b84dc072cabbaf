import GoGraft.Tag.Basic

/-! Merging tag sets. What a newer set holds is found in the merged one, what only the older set
holds stays there, and a set into which another was merged does not change when that one is merged
into it again. -/

namespace GoGraft.TagSet

@[ext] theorem ext {left right : TagSet} (same : left.pairs = right.pairs) : left = right := by
  cases left
  cases right
  simpa using same

theorem mem_insertPair_self (key value : Text) (pairs : List (Text × Text)) :
    (key, value) ∈ insertPair key value pairs := by
  induction pairs with
  | nil => simp [insertPair]
  | cons first rest ih =>
    rw [insertPair]
    split
    · simp
    · split
      · simp
      · exact List.mem_cons_of_mem _ ih

theorem mem_insertPair_of_ne {key value : Text} {pair : Text × Text} {pairs : List (Text × Text)}
    (held : pair ∈ pairs) (different : pair.1 ≠ key) : pair ∈ insertPair key value pairs := by
  induction pairs with
  | nil => simp at held
  | cons first rest ih =>
    rw [insertPair]
    split
    · exact List.mem_cons_of_mem _ held
    · split
      next same =>
        rcases List.mem_cons.1 held with here | later
        · exact absurd (congrArg Prod.fst here |>.trans same.symm) different
        · exact List.mem_cons_of_mem _ later
      next =>
        rcases List.mem_cons.1 held with here | later
        · simp [here]
        · exact List.mem_cons_of_mem _ (ih later)

theorem insertPair_cons_of_lt {key value : Text} {first : Text × Text}
    (larger : first.1 < key) (rest : List (Text × Text)) :
    insertPair key value (first :: rest) = first :: insertPair key value rest := by
  have notSmaller : ¬ key < first.1 := fun smaller =>
    List.lt_irrefl first.1 (List.lt_trans larger smaller)
  have different : key ≠ first.1 := fun same => List.lt_irrefl first.1 (same ▸ larger)
  rw [insertPair, if_neg notSmaller, if_neg different]

/-- A pair that is there already finds its own place. -/
theorem insertPair_of_mem {key value : Text} {pairs : List (Text × Text)}
    (sorted : pairs.Pairwise (fun left right => left.1 < right.1)) (held : (key, value) ∈ pairs) :
    insertPair key value pairs = pairs := by
  induction pairs with
  | nil => simp at held
  | cons first rest ih =>
    obtain ⟨least, others⟩ := List.pairwise_cons.1 sorted
    rcases List.mem_cons.1 held with here | later
    · subst here
      rw [insertPair, if_neg (List.lt_irrefl key), if_pos rfl]
    · rw [insertPair_cons_of_lt (least _ later), ih others later]

/-- A pair with the largest key goes to the end. -/
theorem insertPair_of_largest {key value : Text} {pairs : List (Text × Text)}
    (largest : ∀ pair ∈ pairs, pair.1 < key) : insertPair key value pairs = pairs ++ [(key, value)] := by
  induction pairs with
  | nil => rfl
  | cons first rest ih =>
    have others := ih fun pair inside => largest pair (List.mem_cons_of_mem _ inside)
    rw [insertPair_cons_of_lt (largest first (by simp)), others, List.cons_append]

theorem insertAll_cons (tags : TagSet) (pair : Text × Text) (pairs : List (Text × Text)) :
    tags.insertAll (pair :: pairs) = (tags.insert pair.1 pair.2).insertAll pairs := rfl

theorem mem_insertAll {tags : TagSet} {pair : Text × Text} {pairs : List (Text × Text)}
    (held : pair ∈ (tags.insertAll pairs).pairs) : pair ∈ tags.pairs ∨ pair ∈ pairs := by
  induction pairs generalizing tags with
  | nil => exact Or.inl held
  | cons first rest ih =>
    rcases ih held with inserted | later
    · rcases mem_insertPair inserted with here | before
      · exact Or.inr (by simp [here])
      · exact Or.inl before
    · exact Or.inr (List.mem_cons_of_mem _ later)

theorem mem_insertAll_of_forall_ne {tags : TagSet} {pair : Text × Text} {pairs : List (Text × Text)}
    (held : pair ∈ tags.pairs) (different : ∀ other ∈ pairs, pair.1 ≠ other.1) :
    pair ∈ (tags.insertAll pairs).pairs := by
  induction pairs generalizing tags with
  | nil => exact held
  | cons first rest ih =>
    rw [insertAll_cons]
    refine ih ?_ fun other inside => different other (List.mem_cons_of_mem _ inside)
    exact mem_insertPair_of_ne held (different first (by simp))

/-- Of pairs with increasing keys, none replaces another one. -/
theorem mem_insertAll_of_mem {tags : TagSet} {pair : Text × Text} {pairs : List (Text × Text)}
    (sorted : pairs.Pairwise (fun left right => left.1 < right.1)) (held : pair ∈ pairs) :
    pair ∈ (tags.insertAll pairs).pairs := by
  induction pairs generalizing tags with
  | nil => simp at held
  | cons first rest ih =>
    obtain ⟨least, others⟩ := List.pairwise_cons.1 sorted
    rw [insertAll_cons]
    rcases List.mem_cons.1 held with here | later
    · subst here
      apply mem_insertAll_of_forall_ne (mem_insertPair_self ..)
      exact fun other inside same => List.lt_irrefl _ (same ▸ least other inside)
    · exact ih others later

theorem insertAll_of_forall_mem {tags : TagSet} {pairs : List (Text × Text)}
    (held : ∀ pair ∈ pairs, pair ∈ tags.pairs) : tags.insertAll pairs = tags := by
  induction pairs with
  | nil => rfl
  | cons first rest ih =>
    have same : tags.insert first.1 first.2 = tags :=
      ext (insertPair_of_mem tags.sorted (held first (by simp)))
    rw [insertAll_cons, same]
    exact ih fun pair inside => held pair (List.mem_cons_of_mem _ inside)

theorem mem_merge_of_mem_newer (older : TagSet) {newer : TagSet} {pair : Text × Text}
    (held : pair ∈ newer.pairs) : pair ∈ (older.merge newer).pairs :=
  mem_insertAll_of_mem newer.sorted held

theorem mem_merge {older newer : TagSet} {pair : Text × Text}
    (held : pair ∈ (older.merge newer).pairs) : pair ∈ older.pairs ∨ pair ∈ newer.pairs :=
  mem_insertAll held

theorem merge_merge_self (older newer : TagSet) :
    (older.merge newer).merge newer = older.merge newer :=
  insertAll_of_forall_mem fun _ held => mem_merge_of_mem_newer older held

/-- Inserting pairs that all come behind those of a set appends them. -/
theorem pairs_insertAll_of_sorted {tags : TagSet} {pairs : List (Text × Text)}
    (sorted : (tags.pairs ++ pairs).Pairwise (fun left right => left.1 < right.1)) :
    (tags.insertAll pairs).pairs = tags.pairs ++ pairs := by
  induction pairs generalizing tags with
  | nil => simp [insertAll]
  | cons first rest ih =>
    have largest : ∀ pair ∈ tags.pairs, pair.1 < first.1 := fun pair inside =>
      (List.pairwise_append.1 sorted).2.2 pair inside first (by simp)
    have inserted : (tags.insert first.1 first.2).pairs = tags.pairs ++ [first] :=
      insertPair_of_largest largest
    rw [insertAll_cons, ih (by rw [inserted]; simpa using sorted), inserted]
    simp

/-- A set is what its own pairs make. -/
theorem ofPairs_pairs (tags : TagSet) : ofPairs tags.pairs = tags :=
  ext (@pairs_insertAll_of_sorted empty tags.pairs tags.sorted)

end GoGraft.TagSet
