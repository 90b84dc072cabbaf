/-! Character properties are kept as ascending lists of code point ranges, both ends included. -/

namespace GoGraft.Text

def inRanges (ranges : List (Nat × Nat)) (code : Nat) : Bool :=
  ranges.any fun (first, last) => first ≤ code && code ≤ last

end GoGraft.Text
