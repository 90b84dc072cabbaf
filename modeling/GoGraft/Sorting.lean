/-! Sorting a list by insertion. Items that the order holds to be equal keep their places. -/

namespace GoGraft

/-- Puts an item before the first one that it does not come after. -/
def insertSorted {α : Type} (before : α → α → Bool) (item : α) : List α → List α
  | [] => [item]
  | other :: rest =>
    if before item other then item :: other :: rest
    else other :: insertSorted before item rest

def sortBy {α : Type} (before : α → α → Bool) (items : List α) : List α :=
  items.foldr (insertSorted before) []

end GoGraft
