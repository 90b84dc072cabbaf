import GoGraft.Text.Basic

/-! Paths of files. Two paths are the same if their components are: doubled slashes, a slash at
the end and dots after the start do not count. Paths are ordered component by component. -/

namespace GoGraft

inductive PathComponent where
  | root
  | current
  | parent
  | name (text : Text)
  deriving DecidableEq, Repr

namespace PathComponent

/-- Names come last, and are ordered as texts. -/
def key : PathComponent → Nat × Text
  | root => (0, [])
  | current => (1, [])
  | parent => (2, [])
  | name text => (3, text)

instance : LT PathComponent where
  lt one other :=
    one.key.1 < other.key.1 ∨ (one.key.1 = other.key.1 ∧ one.key.2 < other.key.2)

instance (one other : PathComponent) : Decidable (one < other) :=
  inferInstanceAs (Decidable (_ ∨ _))

/-- The component that a piece between two slashes stands for. -/
def ofPiece? (piece : Text) : Option PathComponent :=
  if piece.isEmpty ∨ piece = ['.'] then none
  else if piece = ['.', '.'] then some parent
  else some (name piece)

end PathComponent

abbrev Path := Text

namespace Path

/-- The pieces of a path between its slashes. -/
def pieces : Path → List Text
  | [] => [[]]
  | '/' :: rest => [] :: pieces rest
  | c :: rest =>
    match pieces rest with
    | piece :: more => (c :: piece) :: more
    | [] => [[c]]

/-- What a path starts from, if it says so. -/
def start? : Path → Option PathComponent
  | '/' :: _ => some .root
  | ['.'] => some .current
  | '.' :: '/' :: _ => some .current
  | _ => none

def components (path : Path) : List PathComponent :=
  (start? path).toList ++ (pieces path).filterMap PathComponent.ofPiece?

/-- Whether a path comes before another or is the same. -/
def before (one other : Path) : Bool :=
  !decide (other.components < one.components)

/-- Drops each path that is the same as the one before it. -/
def dropRepeated : List Path → List Path
  | [] => []
  | path :: rest =>
    path :: (match dropRepeated rest with
      | other :: more => if other.components = path.components then more else other :: more
      | [] => [])

/-- The path of a file in the folder of another path. -/
def join (folder : Path) (name : Text) : Path :=
  if folder.getLast? = some '/' then folder ++ name else folder ++ '/' :: name

end Path

end GoGraft
