/-!
# Bytes read as text

Bytes that are no UTF-8 text are read all the same: each longest start of a character that breaks
off, and each byte that starts none, becomes one replacement character.
-/

namespace LinkedApi.Text

def replacement : Char := Char.ofNat 0xFFFD

/-- How many bytes follow a first byte, the range of the next one, and the bits of the first. -/
def leadOf? (b : Nat) : Option (Nat × Nat × Nat × Nat) :=
  if b < 0x80 then some (0, 0x80, 0xBF, b)
  else if 0xC2 ≤ b ∧ b ≤ 0xDF then some (1, 0x80, 0xBF, b - 0xC0)
  else if b = 0xE0 then some (2, 0xA0, 0xBF, 0)
  else if b = 0xED then some (2, 0x80, 0x9F, 0xD)
  else if 0xE1 ≤ b ∧ b ≤ 0xEF then some (2, 0x80, 0xBF, b - 0xE0)
  else if b = 0xF0 then some (3, 0x90, 0xBF, 0)
  else if b = 0xF4 then some (3, 0x80, 0x8F, 4)
  else if 0xF1 ≤ b ∧ b ≤ 0xF3 then some (3, 0x80, 0xBF, b - 0xF0)
  else none

/-- A character that has been begun: bytes still missing, the range of the next one, and the bits
read so far. -/
structure Begun where
  missing : Nat
  low : Nat
  high : Nat
  bits : Nat

mutual

/-- Reads at the start of a character. -/
def decodeLossy : List UInt8 → List Char
  | [] => []
  | b :: rest =>
    match leadOf? b.toNat with
    | none => replacement :: decodeLossy rest
    | some (0, _, _, bits) => Char.ofNat bits :: decodeLossy rest
    | some (missing + 1, low, high, bits) => decodeRest ⟨missing, low, high, bits⟩ rest

/-- Reads inside a character, of which `missing` bytes follow the next. -/
def decodeRest (begun : Begun) : List UInt8 → List Char
  | [] => [replacement]
  | b :: rest =>
    if begun.low ≤ b.toNat ∧ b.toNat ≤ begun.high then
      let bits := begun.bits * 64 + (b.toNat - 0x80)
      match begun.missing with
      | 0 => Char.ofNat bits :: decodeLossy rest
      | missing + 1 => decodeRest ⟨missing, 0x80, 0xBF, bits⟩ rest
    else
      match leadOf? b.toNat with
      | none => replacement :: replacement :: decodeLossy rest
      | some (0, _, _, bits) => replacement :: Char.ofNat bits :: decodeLossy rest
      | some (missing + 1, low, high, bits) =>
        replacement :: decodeRest ⟨missing, low, high, bits⟩ rest

end

end LinkedApi.Text
