import GoGraft.Command.Run

/-! Files in memory: a working folder and what is below it. A path leads from the working folder
from piece to piece; each piece but the last must lead to a folder. -/

namespace GoGraft.Command

/-- The names that lead from the working folder to a file or a folder. -/
abbrev Location := List Text

structure Store where
  files : List (Location × Bytes) := []
  /-- Folders that need not have files below them. -/
  folders : List Location := []
  deriving DecidableEq

namespace Store

/-- The location behind another one. -/
def below? : (location folder : Location) → Option Location
  | location, [] => some location
  | [], _ :: _ => none
  | name :: location, other :: folder => if name = other then below? location folder else none

def content? (store : Store) (location : Location) : Option Bytes :=
  (store.files.find? (·.1 = location)).map Prod.snd

/-- The files below a folder, by the names that lead there from the folder. -/
def filesBelow (store : Store) (folder : Location) : List Location :=
  (store.files.filterMap fun file => below? file.1 folder).filter fun names => !names.isEmpty

def isFolder (store : Store) (location : Location) : Bool :=
  location.isEmpty || !(store.filesBelow location).isEmpty ||
    store.folders.any fun folder => (below? folder location).isSome

/-- Follows the pieces of a path from a location. -/
def follow? (store : Store) (location : Location) : List Text → Option Location
  | [] => some location
  | piece :: rest =>
    if !store.isFolder location then none
    else if piece.isEmpty ∨ piece = ['.'] then follow? store location rest
    else if piece = ['.', '.'] then
      if location.isEmpty then none else follow? store location.dropLast rest
    else follow? store (location ++ [piece]) rest

/-- The location that a path leads to, if it stays in the store. -/
def locate? (store : Store) (path : Path) : Option Location :=
  if path.isEmpty ∨ path.head? = some '/' then none else store.follow? [] path.pieces

def find (store : Store) (path : Path) : Found :=
  match store.locate? path with
  | none => .missing
  | some location =>
    if (store.content? location).isSome then .file
    else if store.isFolder location then .folder (store.filesBelow location)
    else .missing

def read (store : Store) (path : Path) : Bytes :=
  ((store.locate? path).bind store.content?).getD []

def write (store : Store) (path : Path) (content : Bytes) : Store :=
  match store.locate? path with
  | none => store
  | some location =>
    { store with files := store.files.map fun file =>
        if file.1 = location then (location, content) else file }

/-- The files of a store, as a run works on them. -/
def system : FileSystem (StateM Store) where
  find path := return (← get).find path
  read path := return (← get).read path
  write path content := modify fun store => store.write path content

/-- A run of the command on a store: its outcome, and the store that it leaves. -/
def run (environmentSuffix : Option Text) (arguments : List Text) (store : Store) :
    Outcome × Store :=
  (Command.run system environmentSuffix arguments).run store

end Store

end GoGraft.Command
