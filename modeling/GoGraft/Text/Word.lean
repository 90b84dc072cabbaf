import GoGraft.Text.Basic
import GoGraft.Text.Digit
import GoGraft.Text.Letter
import GoGraft.Text.Mark

/-! Word characters: letters, marks, digits, letter-like numbers, connecting punctuation, the
circled and squared letters and the two joiners. A word boundary lies where exactly one of two
neighbours is a word character. -/

namespace GoGraft.Text

def connectorRanges : List (Nat × Nat) :=
  [(0x5F, 0x5F), (0x203F, 0x2040), (0x2054, 0x2054), (0xFE33, 0xFE34), (0xFE4D, 0xFE4F),
   (0xFF3F, 0xFF3F)]

def isConnector (c : Char) : Bool :=
  inRanges connectorRanges c.toNat

/-- Characters that count as alphabetic or joining without being letters, marks or numbers. -/
def symbolLetterRanges : List (Nat × Nat) :=
  [(0x200C, 0x200D), (0x24B6, 0x24E9), (0x1F130, 0x1F149), (0x1F150, 0x1F169), (0x1F170, 0x1F189)]

def isWordChar (c : Char) : Bool :=
  if c.toNat < 128 then c.isAlphanum || c == '_'
  else isLetter c || isMark c || isDigit c || isLetterNumber c || isConnector c ||
    inRanges symbolLetterRanges c.toNat

/-- Whether a neighbour, if there is one, is a word character. -/
def isWordAt (neighbour : Option Char) : Bool :=
  neighbour.any isWordChar

/-- The longest run of word characters at the start, and the rest. -/
def takeWord (text : Text) : Text × Text :=
  text.span isWordChar

/-- The identifier characters of Go: an underscore or a character that may start an identifier in
the sense of Unicode. -/
def startsIdentifier (c : Char) : Bool :=
  if c.toNat < 128 then c.isAlpha || c == '_'
  else
    (isLetter c || isLetterNumber c || inRanges otherStartRanges c.toNat) &&
      !inRanges notStartRanges c.toNat
where
  otherStartRanges : List (Nat × Nat) :=
    [(0x1885, 0x1886), (0x2118, 0x2118), (0x212E, 0x212E)]
  notStartRanges : List (Nat × Nat) :=
    [(0x37A, 0x37A), (0xE33, 0xE33), (0xEB3, 0xEB3), (0x2E2F, 0x2E2F), (0xFC5E, 0xFC63),
     (0xFDFA, 0xFDFB), (0xFE70, 0xFE70), (0xFE72, 0xFE72), (0xFE74, 0xFE74), (0xFE76, 0xFE76),
     (0xFE78, 0xFE78), (0xFE7A, 0xFE7A), (0xFE7C, 0xFE7C), (0xFE7E, 0xFE7E), (0xFF9E, 0xFF9F)]

def continuesIdentifier (c : Char) : Bool :=
  if c.toNat < 128 then c.isAlphanum || c == '_'
  else
    startsIdentifier c || isDigit c || isConnector c || (isMark c && !isEnclosingMark c) ||
      inRanges otherContinueRanges c.toNat
where
  otherContinueRanges : List (Nat × Nat) :=
    [(0xB7, 0xB7), (0x387, 0x387), (0xE33, 0xE33), (0xEB3, 0xEB3), (0x1369, 0x1371),
     (0x19DA, 0x19DA), (0x200C, 0x200D), (0x30FB, 0x30FB), (0xFF65, 0xFF65), (0xFF9E, 0xFF9F)]

end GoGraft.Text
