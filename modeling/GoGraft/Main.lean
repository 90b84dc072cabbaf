import GoGraft.Command.Run

/-! The command on the files of the machine. -/

namespace GoGraft.Command

/-- The names that lead from the folder of an entry to the files at or below the entry. -/
def namesBelow (depth : Nat) (entry : IO.FS.DirEntry) : IO (List (List Text)) := do
  match depth with
  | 0 => return []
  | depth + 1 =>
    let name := entry.fileName.toList
    match (← entry.path.symlinkMetadata).type with
    | .file => return [[name]]
    | .dir =>
      let mut names := []
      for below in ← entry.path.readDir do
        names := names ++ (← namesBelow depth below).map (name :: ·)
      return names
    | _ => return []

/-- No folder lies deeper than this. -/
def deepest : Nat :=
  4096

def findOnDisk (path : Path) : IO Found := do
  let full := (← IO.currentDir) / String.ofList path
  if ← full.isDir then
    let mut names := []
    for entry in ← full.readDir do
      names := names ++ (← namesBelow deepest entry)
    return .folder names
  else if ← full.pathExists then return .file
  else return .missing

def disk : FileSystem IO where
  find := findOnDisk
  read path := return (← IO.FS.readBinFile (String.ofList path)).toList
  write path content := IO.FS.writeBinFile (String.ofList path) (ByteArray.mk content.toArray)

end GoGraft.Command

def main (arguments : List String) : IO UInt32 := do
  let suffix ← IO.getEnv GoGraft.Command.suffixVariable
  let outcome ← GoGraft.Command.run GoGraft.Command.disk (suffix.map String.toList)
    (arguments.map String.toList)
  IO.print (String.ofList outcome.output)
  IO.eprint (String.ofList outcome.errors)
  return outcome.exit.toUInt32
