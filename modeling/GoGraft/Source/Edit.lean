import GoGraft.Sorting
import GoGraft.Source.Place

/-! Edits of a source. Edits that do not overlap are made together: all that stands between them is
kept, and each span gives way to its text. -/

namespace GoGraft

/-- A text to stand in place of a span. -/
structure Edit where
  span : Span
  text : Text
  deriving DecidableEq, Repr

namespace Edit

/-- The order of edits by their places. -/
def before (one other : Edit) : Bool :=
  one.span.start < other.span.start ||
    (one.span.start == other.span.start && one.span.stop ≤ other.span.stop)

/-- The first two neighbours of which one starts before the other has stopped. -/
def overlap? : List Edit → Option (Edit × Edit)
  | one :: other :: rest =>
    if other.span.start < one.span.stop then some (one, other) else overlap? (other :: rest)
  | _ => none

/-- Makes an edit in a text that starts at the given place. -/
def replace (place : Nat) (edit : Edit) (text : Text) : Text :=
  text.take (edit.span.start - place) ++ edit.text ++ text.drop (edit.span.stop - place)

/-- Makes edits, which stand in the order of their places, from the last to the first: an edit
leaves the places in front of it as they are. -/
def replaceAll (place : Nat) (text : Text) (edits : List Edit) : Text :=
  edits.foldr (replace place) text

/-- Makes edits in a source, or gives two that overlap. -/
def applyAll (source : Text) (edits : List Edit) : Except (Edit × Edit) Text :=
  let edits := sortBy before edits
  match overlap? edits with
  | some pair => .error pair
  | none => .ok (replaceAll 0 source edits)

end Edit

end GoGraft
