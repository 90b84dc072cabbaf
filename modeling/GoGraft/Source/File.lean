import GoGraft.Go.Grammar
import GoGraft.Source.Body
import GoGraft.Source.Imports

/-! A Go file: its text, its imports and its structs, read from the tree of the text. Only
declarations at the top level count. -/

namespace GoGraft

structure SourceFile where
  source : Text
  imports : ImportSection
  structs : List StructDeclaration
  deriving DecidableEq, Repr

namespace SourceFile

/-- The model of a Go file, if the text is one. -/
def parse? (source : Text) : Option SourceFile :=
  (Go.parse? source).map fun trees =>
    let roots := Located.sideBySide {} trees
    { source := source
      imports := .ofRoots source roots
      structs := structsOfRoots source roots }

/-- The first struct of a name. -/
def findStruct? (file : SourceFile) (name : Text) : Option StructDeclaration :=
  file.structs.find? fun struct => struct.name = name

end SourceFile

/-- Whether a text, put into the body of a struct, is exactly one field. -/
def isFieldDeclaration (declaration : Text) : Bool :=
  let source := "package p\n\ntype T struct \x7b\n\t".toList ++ declaration ++ "\n\x7d\n".toList
  match SourceFile.parse? source with
  | some file => file.structs.head?.any fun struct => struct.fields.length == 1
  | none => false

end GoGraft
