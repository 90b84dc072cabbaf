import GoGraft.Source.File
import GoGraft.Text.Word

/-! A field as a directive asks for it: one word is the type of an embedded field, two are a name
and a type. Further words are passed over. The field must also be one that Go accepts. -/

namespace GoGraft

inductive FieldSpec where
  | embedded (type : Text)
  | named (name type : Text)
  deriving DecidableEq, Repr

namespace FieldSpec

def isNameStart (c : Char) : Bool :=
  Text.isLetter c || c == '_'

def isNameChar (c : Char) : Bool :=
  Text.isLetter c || Text.isDigit c || c == '_'

def isName (text : Text) : Bool :=
  text.head?.any isNameStart && text.all isNameChar

/-- Whether a text is empty or any text in square brackets. -/
def isArguments : Text → Bool
  | [] => true
  | c :: rest => c == '[' && 2 ≤ rest.length && rest.getLast? == some ']'

/-- Whether a word has the form of an embedded type: a star, a package, a name and arguments, where
only the name is needed. -/
def isEmbeddedType (text : Text) : Bool :=
  let text := match text with
    | '*' :: rest => rest
    | _ => text
  let (name, rest) := text.span isNameChar
  isName name &&
    match rest with
    | '.' :: rest =>
      let (name, rest) := rest.span isNameChar
      isName name && isArguments rest
    | _ => isArguments rest

/-- The field that the words of a text name, whether or not Go accepts it. -/
def ofWords? : List Text → Option FieldSpec
  | [] => none
  | [type] => if isEmbeddedType type then some (embedded type) else none
  | name :: type :: _ => if isName name then some (named name type) else none

def display : FieldSpec → Text
  | embedded type => type
  | named name type => name ++ " ".toList ++ type

def parse? (text : Text) : Option FieldSpec :=
  (ofWords? (Text.words text)).filter fun spec => isFieldDeclaration spec.display

def identity : FieldSpec → Text
  | embedded type => type
  | named name _ => name

def toField : FieldSpec → Field
  | embedded type => { names := [], type := type }
  | named name type => { names := [name], type := type }

end FieldSpec

end GoGraft
