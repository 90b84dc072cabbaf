/-! Text is a list of characters. This module holds the few operations on it that several parts of
the library share: splitting into lines and words, trimming, and finding one text inside another. -/

namespace GoGraft

abbrev Text := List Char

namespace Text

/-- The white space of Unicode. -/
def isBlank (c : Char) : Bool :=
  let code := c.toNat
  (9 ≤ code && code ≤ 13) || code == 0x20 || code == 0x85 || code == 0xA0 || code == 0x1680 ||
    (0x2000 ≤ code && code ≤ 0x200A) || code == 0x2028 || code == 0x2029 || code == 0x202F ||
    code == 0x205F || code == 0x3000

def trimStart (text : Text) : Text :=
  text.dropWhile isBlank

def trimEnd (text : Text) : Text :=
  (text.reverse.dropWhile isBlank).reverse

def trim (text : Text) : Text :=
  trimEnd (trimStart text)

/-- The text without the runs of a character at its two ends. -/
def trimOf (c : Char) (text : Text) : Text :=
  ((text.dropWhile (· == c)).reverse.dropWhile (· == c)).reverse

/-- The text that follows a given beginning, if it begins so. -/
def after? : (beginning text : Text) → Option Text
  | [], text => some text
  | c :: beginning, d :: text => if c == d then after? beginning text else none
  | _ :: _, [] => none

/-- The text without a given end, if it ends so. -/
def before? (ending text : Text) : Option Text :=
  (after? ending.reverse text.reverse).map List.reverse

/-- Splits at the first place where `needle` stands: what comes before it, and what comes after. -/
def splitAt? (needle : Text) : (text : Text) → Option (Text × Text)
  | [] => (after? needle []).map fun rest => ([], rest)
  | c :: text =>
    match after? needle (c :: text) with
    | some rest => some ([], rest)
    | none => (splitAt? needle text).map fun (before, rest) => (c :: before, rest)

/-- The first answer `find` gives on a suffix of the text, the whole text being tried first. The
finder is told the character in front of the suffix. -/
def firstSuffix {α : Type} (find : Option Char → Text → Option α) :
    Option Char → Text → Option α
  | previous, [] => find previous []
  | previous, c :: text =>
    match find previous (c :: text) with
    | some answer => some answer
    | none => firstSuffix find (some c) text

/-- A line without the carriage return at its end. -/
def chomp (line : Text) : Text :=
  match line.reverse with
  | '\r' :: rest => rest.reverse
  | _ => line

/-- The lines of a text, each ended by a newline; a carriage return before the newline is dropped.
The last line need not be ended, and then keeps its carriage return. -/
def lines (text : Text) : List Text :=
  go [] text
where
  go (line : Text) : Text → List Text
    | [] => if line.isEmpty then [] else [line.reverse]
    | '\n' :: rest => chomp line.reverse :: go [] rest
    | c :: rest => go (c :: line) rest

/-- The stretches between white space. -/
def words (text : Text) : List Text :=
  go [] text
where
  go (word : Text) : Text → List Text
    | [] => if word.isEmpty then [] else [word.reverse]
    | c :: rest =>
      if isBlank c then
        if word.isEmpty then go [] rest else word.reverse :: go [] rest
      else go (c :: word) rest

/-- Texts written one after another with a separator between them. -/
def join (separator : Text) : List Text → Text
  | [] => []
  | [text] => text
  | text :: rest => text ++ separator ++ join separator rest

/-- The number of bytes that a text takes in UTF-8. -/
def byteSize (text : Text) : Nat :=
  text.foldr (fun c size => c.utf8Size + size) 0

/-- A natural number in decimal. -/
def ofNat (number : Nat) : Text :=
  Nat.toDigits 10 number

/-- A text in backticks. -/
def inBackticks (text : Text) : Text :=
  '\x60' :: text ++ ['\x60']

/-- Whether a text holds a character. -/
def holds (c : Char) (text : Text) : Bool :=
  text.any (· == c)

/-- The values of the non-overlapping places that a reader accepts, from the start on. The reader
gives a value and the rest of the text; the places before that rest are passed over. -/
def readAll {α : Type} (read? : Text → Option (α × Text)) : (passed : Nat) → Text → List α
  | _, [] => []
  | passed + 1, _ :: text => readAll read? passed text
  | 0, c :: text =>
    match read? (c :: text) with
    | some (value, rest) => value :: readAll read? (text.length - rest.length) text
    | none => readAll read? 0 text

end Text

end GoGraft
