import GoGraft.Command.Path
import GoGraft.Sorting

/-! The files that a run works on. A path that names a file stands for itself; one that names a
folder stands for the files below it that have the right ending. -/

namespace GoGraft.Command

/-- What a path names. The files below a folder are given by the names that lead to them. -/
inductive Found where
  | file
  | folder (below : List (List Text))
  | missing
  deriving DecidableEq, Repr

def hasSuffix (suffix : Text) (names : List Text) : Bool :=
  names.getLast?.any fun name => (Text.before? suffix name).isSome

/-- The paths of files that a path stands for; none if it names nothing. -/
def inputsOf? (suffix : Text) (path : Path) : Found → Option (List Path)
  | .file => some [path]
  | .folder below => some ((below.filter (hasSuffix suffix)).map (List.foldl Path.join path))
  | .missing => none

/-- The inputs of several paths, in the order of the paths, or the first path that names nothing. -/
def gatherInputs (suffix : Text) : List (Path × Found) → Except Path (List Path)
  | [] => .ok []
  | (path, found) :: rest =>
    match inputsOf? suffix path found with
    | none => .error path
    | some inputs => (gatherInputs suffix rest).map (inputs ++ ·)

/-- All inputs, sorted and each of them once. -/
def collectInputs (suffix : Text) (paths : List (Path × Found)) : Except Path (List Path) :=
  (gatherInputs suffix paths).map fun inputs => Path.dropRepeated (sortBy Path.before inputs)

end GoGraft.Command
