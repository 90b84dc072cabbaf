import GoGraft.Text.Basic
import GoGraft.Text.Extender
import GoGraft.Text.Printable

/-! Text in double quotes, for messages. What would not show is written as an escape: control
characters, characters that cannot be printed, and those that would join the one before them. -/

namespace GoGraft.Text

/-- The code point of a character as an escape. -/
def escapeCode (c : Char) : Text :=
  "\\u\x7b".toList ++ Nat.toDigits 16 c.toNat ++ "\x7d".toList

/-- A character between quotes. Apostrophes are escaped only if asked for. -/
def escapeChar (apostrophes : Bool) (c : Char) : Text :=
  if c = '\x00' then "\\0".toList
  else if c = '\t' then "\\t".toList
  else if c = '\r' then "\\r".toList
  else if c = '\n' then "\\n".toList
  else if c = '\\' ∨ c = '\x22' ∨ (apostrophes ∧ c = '\x27') then ['\\', c]
  else if isExtender c ∨ ¬ isPrintable c then escapeCode c
  else [c]

def quoted (apostrophes : Bool) (text : Text) : Text :=
  '\x22' :: text.flatMap (escapeChar apostrophes) ++ ['\x22']

end GoGraft.Text
