import GoGraft.Text.Basic

/-! A struct tag is a set of keys, each with a value, kept in the order of the keys. Texts are
ordered by their code points, which is also the order of their UTF-8 bytes. -/

namespace GoGraft

/-- The pairs of a tag, in strictly increasing order of their keys. -/
structure TagSet where
  pairs : List (Text × Text)
  sorted : pairs.Pairwise (fun left right => left.1 < right.1)

namespace TagSet

instance : DecidableEq TagSet := fun left right =>
  decidable_of_iff (left.pairs = right.pairs) <| by
    cases left; cases right; simp

def empty : TagSet :=
  ⟨[], .nil⟩

def isEmpty (tags : TagSet) : Bool :=
  tags.pairs.isEmpty

/-- Puts a pair in its place, instead of one with the same key. -/
def insertPair (key value : Text) : List (Text × Text) → List (Text × Text)
  | [] => [(key, value)]
  | (other, held) :: rest =>
    if key < other then (key, value) :: (other, held) :: rest
    else if key = other then (key, value) :: rest
    else (other, held) :: insertPair key value rest

theorem mem_insertPair {key value : Text} {pair : Text × Text} {pairs : List (Text × Text)}
    (held : pair ∈ insertPair key value pairs) : pair = (key, value) ∨ pair ∈ pairs := by
  induction pairs with
  | nil => simpa [insertPair] using held
  | cons first rest ih =>
    rw [insertPair] at held
    split at held
    · simpa using held
    · split at held
      · exact (List.mem_cons.1 held).imp_right (List.mem_cons_of_mem _)
      · rcases List.mem_cons.1 held with same | later
        · exact Or.inr (by simp [same])
        · exact (ih later).imp_right (List.mem_cons_of_mem _)

theorem sorted_insertPair {key value : Text} {pairs : List (Text × Text)}
    (sorted : pairs.Pairwise (fun left right => left.1 < right.1)) :
    (insertPair key value pairs).Pairwise (fun left right => left.1 < right.1) := by
  induction pairs with
  | nil => simp [insertPair]
  | cons first rest ih =>
    obtain ⟨least, others⟩ := List.pairwise_cons.1 sorted
    rw [insertPair]
    split
    · rename_i smaller
      refine List.pairwise_cons.2 ⟨fun pair held => ?_, sorted⟩
      rcases List.mem_cons.1 held with same | later
      · exact same ▸ smaller
      · exact List.lt_trans smaller (least pair later)
    · rename_i notSmaller
      split
      · rename_i same
        exact List.pairwise_cons.2 ⟨fun pair held => same ▸ least pair held, others⟩
      · rename_i different
        refine List.pairwise_cons.2 ⟨fun pair held => ?_, ih others⟩
        rcases mem_insertPair held with same | later
        · rcases List.le_iff_lt_or_eq.1 (List.not_lt.1 notSmaller) with smaller | equal
          · exact same ▸ smaller
          · exact absurd equal.symm different
        · exact least pair later

def insert (tags : TagSet) (key value : Text) : TagSet :=
  ⟨insertPair key value tags.pairs, sorted_insertPair tags.sorted⟩

def get? (tags : TagSet) (key : Text) : Option Text :=
  (tags.pairs.find? (·.1 = key)).map Prod.snd

/-- The set with further pairs; of several values for a key the last one stays. -/
def insertAll (tags : TagSet) (pairs : List (Text × Text)) : TagSet :=
  pairs.foldl (fun tags pair => tags.insert pair.1 pair.2) tags

def ofPairs (pairs : List (Text × Text)) : TagSet :=
  empty.insertAll pairs

/-- Both sets together; the newer one wins where both have a key. -/
def merge (older newer : TagSet) : TagSet :=
  older.insertAll newer.pairs

end TagSet

end GoGraft
