import GoGraft.Text.Basic

/-! JSON values, and writing them with two spaces of indentation for each level. Members keep their
order. -/

namespace GoGraft

inductive Json where
  | number (value : Nat)
  | text (value : Text)
  | list (items : List Json)
  | object (members : List (Text × Json))

namespace Json

def hexDigits (code : Nat) : Text :=
  let digits := Nat.toDigits 16 code
  List.replicate (4 - digits.length) '0' ++ digits

/-- A character in a string. Only quotes, backslashes and control characters are escaped. -/
def escapeChar (c : Char) : Text :=
  if c = '\x22' ∨ c = '\\' then ['\\', c]
  else if c = '\n' then "\\n".toList
  else if c = '\t' then "\\t".toList
  else if c = '\r' then "\\r".toList
  else if c.toNat = 8 then "\\b".toList
  else if c.toNat = 12 then "\\f".toList
  else if c.toNat < 32 then "\\u".toList ++ hexDigits c.toNat
  else [c]

def renderText (value : Text) : Text :=
  '\x22' :: value.flatMap escapeChar ++ ['\x22']

/-- Items between brackets, each on a line of its own. -/
def bracket (opening closing : Char) (level : Nat) (items : List Text) : Text :=
  if items.isEmpty then [opening, closing]
  else
    let newline (level : Nat) : Text := '\n' :: List.replicate (2 * level) ' '
    opening :: newline (level + 1) ++ Text.join (',' :: newline (level + 1)) items ++
      newline level ++ [closing]

mutual
def render (level : Nat) : Json → Text
  | number value => Text.ofNat value
  | text value => renderText value
  | list items => bracket '[' ']' level (renderItems (level + 1) items)
  | object members => bracket '\x7b' '\x7d' level (renderMembers (level + 1) members)

def renderItems (level : Nat) : List Json → List Text
  | [] => []
  | item :: rest => item.render level :: renderItems level rest

def renderMembers (level : Nat) : List (Text × Json) → List Text
  | [] => []
  | (name, value) :: rest =>
    (renderText name ++ ": ".toList ++ value.render level) :: renderMembers level rest
end

end Json

end GoGraft
