import GoGraft.Tag.Basic

/-! Tags in Go source. A tag is written `key:"value"` for each key, with a space between, inside a
raw string literal; where a backtick would end that literal, an interpreted one is written
instead. -/

namespace GoGraft.TagSet

open Text

def isKeyChar (c : Char) : Bool :=
  !(isBlank c || c == ':' || c == '\x22' || c == '\x60')

/-- The value up to its closing quote, as it is written, and what follows the quote. A backslash
takes the next character with it. -/
def takeValue? : Text → Option (Text × Text)
  | [] => none
  | '\x22' :: rest => some ([], rest)
  | '\\' :: c :: rest =>
    if c = '\n' then none
    else (takeValue? rest).map fun (value, rest) => ('\\' :: c :: value, rest)
  | c :: rest => (takeValue? rest).map fun (value, rest) => (c :: value, rest)

/-- The pair that starts exactly here. -/
def takePair? (text : Text) : Option ((Text × Text) × Text) :=
  let (key, rest) := text.span isKeyChar
  if key.isEmpty then none
  else match after? ":\"".toList rest with
    | some rest => (takeValue? rest).map fun (value, rest) => ((key, value), rest)
    | none => none

/-- The pairs in a text, wherever they stand; any other text is passed over. -/
def parse (text : Text) : TagSet :=
  ofPairs (readAll takePair? 0 (trimOf '\x60' (trim text)))

/-- Drops each backslash and keeps the character behind it. -/
def unescape : Text → Text
  | [] => []
  | ['\\'] => []
  | '\\' :: c :: rest => c :: unescape rest
  | c :: rest => c :: unescape rest

/-- Puts a backslash before each backslash and each double quote. -/
def escape (text : Text) : Text :=
  text.flatMap fun c => if c = '\\' ∨ c = '\x22' then ['\\', c] else [c]

/-- The text between double quotes. -/
def unquote? (literal : Text) : Option Text :=
  (after? ['\x22'] literal).bind (before? ['\x22'])

def ofLiteral (literal : Text) : TagSet :=
  match unquote? literal with
  | some inner => parse (unescape inner)
  | none => parse literal

def renderPair (pair : Text × Text) : Text :=
  pair.1 ++ ":\"".toList ++ pair.2 ++ "\"".toList

def body (tags : TagSet) : Text :=
  join " ".toList (tags.pairs.map renderPair)

def toLiteral (tags : TagSet) : Text :=
  if holds '\x60' tags.body then "\"".toList ++ escape tags.body ++ "\"".toList
  else inBackticks tags.body

end GoGraft.TagSet
