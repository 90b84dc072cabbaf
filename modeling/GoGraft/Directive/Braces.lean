import GoGraft.Text.Basic

/-! Opening braces less closing braces in the code of a line. Those inside string, raw string and
rune literals do not count, nor does anything after the marks of a line comment. -/

namespace GoGraft.Directive

/-- The balance of a text that starts inside the given quotes, or outside any. -/
def balanceFrom : (quote : Option Char) → Text → Int
  | _, [] => 0
  | some _, [_] => 0
  | some quote, c :: d :: rest =>
    if quote ≠ '\x60' ∧ c = '\\' then balanceFrom (some quote) rest
    else if c = quote then balanceFrom none (d :: rest)
    else balanceFrom (some quote) (d :: rest)
  | none, c :: rest =>
    if c = '\x22' ∨ c = '\x60' ∨ c = '\x27' then balanceFrom (some c) rest
    else if c = '/' ∧ rest.head? = some '/' then 0
    else if c = '\x7b' then balanceFrom none rest + 1
    else if c = '\x7d' then balanceFrom none rest - 1
    else balanceFrom none rest

def braceBalance (line : Text) : Int :=
  balanceFrom none line

end GoGraft.Directive
