import GoGraft.Text.Word

/-! Directives are written in comments, each after a marker of its own: `@goimport:` and a quoted
path, `@gofield:` and the rest of the line, `@gotags:` and the rest of the line. The field that a
tag directive is for is named by a `name=` marker on the same line. -/

namespace GoGraft

inductive Directive where
  | addImport (path : Text)
  | addField (spec : Text)
  | setTags (tags : Text)
  deriving DecidableEq, Repr

namespace Directive

open Text

def importMarker : Text := "@goimport:".toList

def fieldMarker : Text := "@gofield:".toList

def tagsMarker : Text := "@gotags:".toList

/-- The path in quotes after the marker that starts here. -/
def importPathAt? (text : Text) : Option Text :=
  match after? importMarker text with
  | some rest =>
    match trimStart rest with
    | '\x22' :: inner =>
      let (path, rest) := inner.span (· != '\x22')
      if path.isEmpty || rest.isEmpty then none else some path
    | _ => none
  | none => none

/-- The rest of the line after the marker that starts here and the blanks behind it. Where only
blanks are left, the last of them that is no newline is the content. -/
def contentAt? (marker text : Text) : Option Text :=
  match after? marker text with
  | some rest =>
    let (blank, content) := rest.span isBlank
    if content.isEmpty then (blank.reverse.find? (· != '\n')).map ([·])
    else some (content.takeWhile (· != '\n'))
  | none => none

def importPath? (line : Text) : Option Text :=
  firstSuffix (fun _ => importPathAt?) none line

def fieldSpec? (line : Text) : Option Text :=
  (firstSuffix (fun _ => contentAt? fieldMarker) none line).map trimEnd

def tags? (line : Text) : Option Text :=
  (firstSuffix (fun _ => contentAt? tagsMarker) none line).map trim

/-- The word after the `name=` marker that starts exactly here. -/
def nameAt? (previous : Option Char) (text : Text) : Option Text :=
  if isWordAt previous then none
  else match after? "name=".toList text with
    | some rest =>
      let word := (takeWord rest).1
      if word.isEmpty then none else some word
    | none => none

/-- The word after the first `name=` marker. -/
def nameMarker? (text : Text) : Option Text :=
  firstSuffix nameAt? none text

/-- The word after the last `name=` marker. -/
def lastNameMarker? : (previous : Option Char) → Text → Option Text
  | _, [] => none
  | previous, c :: rest =>
    (lastNameMarker? (some c) rest).orElse fun _ => nameAt? previous (c :: rest)

/-- The last name in the value of the `protobuf` tag that starts here. -/
def protobufNameAt? (text : Text) : Option Text :=
  match after? "protobuf:\"".toList text with
  | some rest => lastNameMarker? (some '\x22') (rest.takeWhile (· != '\x22'))
  | none => none

def protobufName? (text : Text) : Option Text :=
  firstSuffix (fun _ => protobufNameAt?) none text

/-- The field that a tag directive on the line is for. The part before the directive is searched
first, and there the `protobuf` tag before any other text. -/
def tagTarget? (line : Text) : Option Text :=
  let before := match splitAt? tagsMarker line with
    | some (before, _) => before
    | none => line
  ((protobufName? before).orElse fun _ => nameMarker? before).orElse fun _ => nameMarker? line

/-- The directives of a line, at most one of each kind. -/
def ofLine (line : Text) : List Directive :=
  ((importPath? line).map addImport).toList ++ ((fieldSpec? line).map addField).toList ++
    ((tags? line).map setTags).toList

end Directive

end GoGraft
