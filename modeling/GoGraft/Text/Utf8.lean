import GoGraft.Text.Basic

/-! Text as UTF-8. Decoding stops at the first place that is not well formed and says where it is
and how many bytes of it could have been the beginning of a character. -/

namespace GoGraft

abbrev Bytes := List UInt8

namespace Utf8

/-- The number of well-formed bytes before the fault, and the length of the fault; none if the bytes
end inside a character that is well formed so far. -/
structure Fault where
  index : Nat
  length : Option Nat
  deriving DecidableEq, Repr

def Fault.message (fault : Fault) : Text :=
  let index := Text.ofNat fault.index
  match fault.length with
  | some length =>
    "invalid utf-8 sequence of ".toList ++ Text.ofNat length ++ " bytes from index ".toList ++
      index
  | none => "incomplete utf-8 byte sequence from index ".toList ++ index

/-- The ranges of the bytes that must follow a first byte. -/
def following? (first : UInt8) : Option (List (UInt8 × UInt8)) :=
  if first < 0x80 then some []
  else if 0xC2 ≤ first ∧ first ≤ 0xDF then some [(0x80, 0xBF)]
  else if first = 0xE0 then some [(0xA0, 0xBF), (0x80, 0xBF)]
  else if first = 0xED then some [(0x80, 0x9F), (0x80, 0xBF)]
  else if 0xE1 ≤ first ∧ first ≤ 0xEF then some [(0x80, 0xBF), (0x80, 0xBF)]
  else if first = 0xF0 then some [(0x90, 0xBF), (0x80, 0xBF), (0x80, 0xBF)]
  else if 0xF1 ≤ first ∧ first ≤ 0xF3 then some [(0x80, 0xBF), (0x80, 0xBF), (0x80, 0xBF)]
  else if first = 0xF4 then some [(0x80, 0x8F), (0x80, 0xBF), (0x80, 0xBF)]
  else none

/-- The bits of a code point in its first byte, when a number of bytes follow. -/
def leadingBits (first : UInt8) : (following : Nat) → Nat
  | 0 => first.toNat
  | 1 => first.toNat % 32
  | 2 => first.toNat % 16
  | _ => first.toNat % 8

/-- Reads the bytes of a character, and then the characters after it. The state is the number of
bytes before the character, the number of its bytes so far, its bits so far and the ranges of the
bytes that are still missing. -/
def decodeFrom (index size bits : Nat) (missing : List (UInt8 × UInt8)) :
    Bytes → Except Fault Text
  | [] => if size = 0 then .ok [] else .error ⟨index, none⟩
  | byte :: rest =>
    match missing with
    | (low, high) :: missing =>
      if low ≤ byte ∧ byte ≤ high then
        let bits := bits * 64 + byte.toNat % 64
        if missing.isEmpty then
          (decodeFrom (index + size + 1) 0 0 [] rest).map (Char.ofNat bits :: ·)
        else decodeFrom index (size + 1) bits missing rest
      else .error ⟨index, some size⟩
    | [] =>
      match following? byte with
      | none => .error ⟨index, some 1⟩
      | some [] => (decodeFrom (index + 1) 0 0 [] rest).map (Char.ofNat byte.toNat :: ·)
      | some missing => decodeFrom index 1 (leadingBits byte missing.length) missing rest

def decode (bytes : Bytes) : Except Fault Text :=
  decodeFrom 0 0 0 [] bytes

def encode (text : Text) : Bytes :=
  text.flatMap String.utf8EncodeChar

end Utf8

end GoGraft
