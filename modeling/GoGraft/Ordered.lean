import GoGraft.Text.Basic

/-! A map whose entries keep the order in which their keys came. Each key has one entry: writing
to a key that is there already leaves its place, and either the old value or the new one. -/

namespace GoGraft

structure Ordered (α : Type) where
  entries : List (Text × α)
  distinct : (entries.map Prod.fst).Nodup

namespace Ordered

variable {α : Type}

def empty : Ordered α :=
  ⟨[], List.nodup_nil⟩

instance : Inhabited (Ordered α) := ⟨empty⟩

def keys (map : Ordered α) : List Text :=
  map.entries.map Prod.fst

def isEmpty (map : Ordered α) : Bool :=
  map.entries.isEmpty

def find? (key : Text) : List (Text × α) → Option α
  | [] => none
  | (other, value) :: rest => if other = key then some value else find? key rest

def get? (map : Ordered α) (key : Text) : Option α :=
  find? key map.entries

/-- The entries after the value of a key is changed, or a new entry is put at the end. -/
def updateEntries (key : Text) (change : Option α → α) : List (Text × α) → List (Text × α)
  | [] => [(key, change none)]
  | (other, value) :: rest =>
    if other = key then (other, change (some value)) :: rest
    else (other, value) :: updateEntries key change rest

theorem mem_keys_updateEntries {key other : Text} {change : Option α → α}
    {entries : List (Text × α)} (held : other ∈ (updateEntries key change entries).map Prod.fst) :
    other = key ∨ other ∈ entries.map Prod.fst := by
  induction entries with
  | nil => simpa [updateEntries] using held
  | cons entry rest ih =>
    rw [updateEntries] at held
    split at held
    · exact Or.inr (by simpa using held)
    · rcases List.mem_cons.1 held with same | later
      · exact Or.inr (by simp [same])
      · exact (ih later).imp_right fun inside => by simp [List.mem_map.1 inside]

theorem nodup_updateEntries {key : Text} {change : Option α → α} {entries : List (Text × α)}
    (distinct : (entries.map Prod.fst).Nodup) :
    ((updateEntries key change entries).map Prod.fst).Nodup := by
  induction entries with
  | nil => simp [updateEntries]
  | cons entry rest ih =>
    obtain ⟨fresh, others⟩ := List.nodup_cons.1 distinct
    rw [updateEntries]
    split
    · exact distinct
    · rename_i different
      refine List.nodup_cons.2 ⟨fun inside => ?_, ih others⟩
      rcases mem_keys_updateEntries inside with same | later
      · exact different same
      · exact fresh later

def update (map : Ordered α) (key : Text) (change : Option α → α) : Ordered α :=
  ⟨updateEntries key change map.entries, nodup_updateEntries map.distinct⟩

/-- Writes a value unless the key has one. -/
def keep (map : Ordered α) (key : Text) (value : α) : Ordered α :=
  map.update key fun held => held.getD value

/-- Writes a value in place of any other. -/
def put (map : Ordered α) (key : Text) (value : α) : Ordered α :=
  map.update key fun _ => value

end Ordered

end GoGraft
