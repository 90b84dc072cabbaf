import GoGraft.Text.Basic
import GoGraft.Text.Word

/-! The words of Go, each read from the front of a text: comments, identifiers, string, number and
rune literals. A reader gives what it took and what is left. -/

namespace GoGraft.Go.Lexeme

/-- White space between tokens. -/
def isSpace (c : Char) : Bool :=
  c == ' ' || c == '\t' || c == '\n' || c == '\r' || c == '\x0b' || c == '\x0c'

/-- What a reader took from `text` when `rest` is left. -/
def upTo (text rest : Text) : Text × Text :=
  (text.take (text.length - rest.length), rest)

/-- A block comment after its opening marks, and the text after it. -/
def blockComment? : Text → Option (Text × Text)
  | '*' :: '/' :: rest => some (['*', '/'], rest)
  | c :: rest => (blockComment? rest).map fun (taken, left) => (c :: taken, left)
  | [] => none

def comment? : Text → Option (Text × Text)
  | '/' :: '/' :: rest =>
    some ('/' :: '/' :: rest.takeWhile (· != '\n'), rest.dropWhile (· != '\n'))
  | '/' :: '*' :: rest =>
    (blockComment? rest).map fun (taken, left) => ('/' :: '*' :: taken, left)
  | _ => none

def identifier? : Text → Option (Text × Text)
  | c :: rest =>
    if Text.startsIdentifier c then
      let (more, left) := rest.span Text.continuesIdentifier
      some (c :: more, left)
    else none
  | [] => none

def isHexDigit (c : Char) : Bool :=
  c.isDigit || ('a' ≤ c && c ≤ 'f') || ('A' ≤ c && c ≤ 'F')

def isOctalDigit (c : Char) : Bool :=
  '0' ≤ c && c ≤ '7'

def isBinaryDigit (c : Char) : Bool :=
  c == '0' || c == '1'

/-- The text after exactly `count` hexadecimal digits. -/
def afterHexDigits : (count : Nat) → Text → Option Text
  | 0, text => some text
  | count + 1, c :: rest => if isHexDigit c then afterHexDigits count rest else none
  | _ + 1, [] => none

/-! ### Strings -/

def rawString? : Text → Option (Text × Text)
  | '\x60' :: rest =>
    match rest.dropWhile (· != '\x60') with
    | _ :: left => some ('\x60' :: rest.takeWhile (· != '\x60') ++ ['\x60'], left)
    | [] => none
  | _ => none

/-- The text after a backslash and the escape that it begins: `x` with two or more hexadecimal
digits, `u` with four, `U` with eight, or any other character. -/
def afterEscape : Text → Option Text
  | 'x' :: rest => afterHexDigits 2 rest
  | 'u' :: rest => afterHexDigits 4 rest
  | 'U' :: rest => afterHexDigits 8 rest
  | _ :: rest => some rest
  | [] => none

/-- The text after the closing quote of an interpreted string. -/
def afterInterpreted : (fuel : Nat) → Text → Option Text
  | fuel + 1, c :: rest =>
    if c == '\x22' then some rest
    else if c == '\n' then none
    else if c == '\\' then (afterEscape rest).bind (afterInterpreted fuel)
    else afterInterpreted fuel rest
  | _, _ => none

def interpretedString? : Text → Option (Text × Text)
  | '\x22' :: rest => (afterInterpreted rest.length rest).map (upTo ('\x22' :: rest))
  | _ => none

def string? (text : Text) : Option (Text × Text) :=
  (rawString? text).orElse fun _ => interpretedString? text

/-! ### Runes -/

def afterRuneEscape : Text → Option Text
  | 'x' :: rest => afterHexDigits 2 rest
  | 'u' :: rest => afterHexDigits 4 rest
  | 'U' :: rest => afterHexDigits 8 rest
  | c :: rest =>
    if "abfnrtv\\'\"".toList.contains c then some rest
    else match c :: rest with
      | a :: b :: d :: left =>
        if isOctalDigit a && isOctalDigit b && isOctalDigit d then some left else none
      | _ => none
  | [] => none

def rune? : Text → Option (Text × Text)
  | '\x27' :: rest =>
    let inner := match rest with
      | '\\' :: escape => afterRuneEscape escape
      | c :: left => if c == '\x27' then none else some left
      | [] => none
    match inner with
    | some ('\x27' :: left) => some (upTo ('\x27' :: rest) left)
    | _ => none
  | _ => none

/-! ### Numbers -/

/-- The text after one or more digits; a single underscore may stand between two digits. -/
def afterDigits (isDigit : Char → Bool) : Text → Option Text
  | c :: rest => if isDigit c then some (more rest) else none
  | [] => none
where
  more : Text → Text
    | '_' :: c :: rest => if isDigit c then more rest else '_' :: c :: rest
    | c :: rest => if isDigit c then more rest else c :: rest
    | [] => []

/-- The text after an optional underscore. -/
def skipUnderscore : Text → Text
  | '_' :: rest => rest
  | text => text

def afterExponent (marks : List Char) : Text → Option Text
  | c :: rest =>
    if marks.contains c then
      match rest with
      | '+' :: digits => afterDigits Char.isDigit digits
      | '-' :: digits => afterDigits Char.isDigit digits
      | digits => afterDigits Char.isDigit digits
    else none
  | [] => none

/-- The text itself where the reader finds nothing. -/
def optionally (reader : Text → Option Text) (text : Text) : Text :=
  (reader text).getD text

/-- The ends of the integer literals that start here. -/
def integerEnds (text : Text) : List (Option Text) :=
  match text with
  | '0' :: rest =>
    [some rest, afterDigits isOctalDigit (skipUnderscore rest)] ++
      match rest with
      | c :: more =>
        [if c == 'b' || c == 'B' then afterDigits isBinaryDigit (skipUnderscore more) else none,
         if c == 'x' || c == 'X' then afterDigits isHexDigit (skipUnderscore more) else none,
         if c == 'o' || c == 'O' then afterDigits isOctalDigit (skipUnderscore more) else none]
      | [] => []
  | c :: rest =>
    if c.isDigit then
      [some rest, afterDigits Char.isDigit (skipUnderscore rest)]
    else []
  | [] => []

/-- The ends of the hexadecimal floating-point literals whose digits start here. -/
def hexFloatEnds (text : Text) : List (Option Text) :=
  let whole := afterDigits isHexDigit (skipUnderscore text)
  let exponent := afterExponent ['p', 'P']
  [whole.bind fun rest => match rest with
      | '.' :: fraction => exponent (optionally (afterDigits isHexDigit) fraction)
      | _ => none,
   whole.bind exponent,
   match text with
      | '.' :: fraction => (afterDigits isHexDigit fraction).bind exponent
      | _ => none]

/-- The ends of the floating-point literals that start here. -/
def floatEnds (text : Text) : List (Option Text) :=
  let whole := afterDigits Char.isDigit text
  let exponent := afterExponent ['e', 'E']
  [whole.bind fun rest => match rest with
      | '.' :: fraction =>
        some (optionally exponent (optionally (afterDigits Char.isDigit) fraction))
      | _ => none,
   whole.bind exponent,
   match text with
      | '.' :: fraction => (afterDigits Char.isDigit fraction).map (optionally exponent)
      | _ => none] ++
    match text with
    | '0' :: 'x' :: rest => hexFloatEnds rest
    | '0' :: 'X' :: rest => hexFloatEnds rest
    | _ => []

/-- An imaginary literal is a number followed by `i`. -/
def imaginaryEnd : Option Text → Option Text
  | some ('i' :: rest) => some rest
  | _ => none

/-- The shortest of the texts that readers left. -/
def shortest : List (Option Text) → Option Text
  | [] => none
  | none :: rest => shortest rest
  | some text :: rest =>
    match shortest rest with
    | some other => if other.length < text.length then some other else some text
    | none => some text

/-- The longest number literal at the front of a text. -/
def number? : Text → Option (Text × Text)
  | [] => none
  | c :: rest =>
    if c.isDigit || c == '.' then
      let text := c :: rest
      let ends := integerEnds text ++ floatEnds text
      (shortest (ends ++ (afterDigits Char.isDigit text :: ends).map imaginaryEnd)).map (upTo text)
    else none

end GoGraft.Go.Lexeme
