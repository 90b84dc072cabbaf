import GoGraft.Text.Word

/-! The lines that open a struct or a group of types. A header is the word `type`, a name, an
optional bracketed list of type parameters and the word `struct`; inside a group the word `type`
is left out. -/

namespace GoGraft.Directive

open Text

/-- Whether the text starts with the whole word `struct`. -/
def startsWithStruct (text : Text) : Bool :=
  match after? "struct".toList text with
  | some rest => !isWordAt rest.head?
  | none => false

/-- Whether blanks and then the word `struct` follow. -/
def structFollows (text : Text) : Bool :=
  let (blank, rest) := text.span isBlank
  !blank.isEmpty && startsWithStruct rest

/-- Whether a header goes on after its name: an optional bracketed text, then the word `struct`. -/
def completesHeader (text : Text) : Bool :=
  match text.dropWhile isBlank with
  | '[' :: inner =>
    match inner.dropWhile (· != ']') with
    | _ :: rest => structFollows rest
    | [] => false
  | _ => structFollows text

/-- The name at the start of a text, if the rest completes a header. -/
def namedHeader? (text : Text) : Option Text :=
  let (name, rest) := takeWord text
  if !name.isEmpty && completesHeader rest then some name else none

/-- The name of the header that starts exactly here. -/
def headerAt? (previous : Option Char) (text : Text) : Option Text :=
  if isWordAt previous then none
  else match after? "type".toList text with
    | some rest =>
      let (blank, rest) := rest.span isBlank
      if blank.isEmpty then none else namedHeader? rest
    | none => none

/-- The struct that a line declares: the name of its first `type Name struct` header. -/
def declarationHeader? (line : Text) : Option Text :=
  firstSuffix headerAt? none line

/-- The struct that a line declares inside a group of types. -/
def memberHeader? (line : Text) : Option Text :=
  namedHeader? (trimStart line)

/-- Whether a line opens a group of types. -/
def opensTypeGroup (line : Text) : Bool :=
  match after? "type".toList (trimStart line) with
  | some rest => (trimStart rest).head? == some '('
  | none => false

end GoGraft.Directive
