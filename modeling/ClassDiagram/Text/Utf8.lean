/-!
# Reading UTF-8 with replacement

Bytes are read as UTF-8. Where they are not, each longest run that could still have begun a
character is read as one replacement character. A character that has begun says how many bytes it
still needs and between which bounds the next one lies; that rules out overlong forms, surrogates
and code points beyond the last one.
-/

namespace ClassDiagram.Text.Utf8

/-- The character that stands for what cannot be read. -/
def replacement : Char := '�'

/-- A character that has begun. -/
structure Begun where
  /-- The bits read so far. -/
  value : Nat
  /-- The number of bytes still needed. -/
  needed : Nat
  /-- The least next byte. -/
  low : Nat
  /-- The greatest next byte. -/
  high : Nat

/-- Reads the first byte of a character. -/
def lead (byte : Nat) : List Char × Option Begun :=
  if byte < 0x80 then ([Char.ofNat byte], none)
  else if 0xc2 ≤ byte ∧ byte ≤ 0xdf then ([], some ⟨byte - 0xc0, 1, 0x80, 0xbf⟩)
  else if byte = 0xe0 then ([], some ⟨0, 2, 0xa0, 0xbf⟩)
  else if byte = 0xed then ([], some ⟨0xd, 2, 0x80, 0x9f⟩)
  else if 0xe1 ≤ byte ∧ byte ≤ 0xef then ([], some ⟨byte - 0xe0, 2, 0x80, 0xbf⟩)
  else if byte = 0xf0 then ([], some ⟨0, 3, 0x90, 0xbf⟩)
  else if 0xf1 ≤ byte ∧ byte ≤ 0xf3 then ([], some ⟨byte - 0xf0, 3, 0x80, 0xbf⟩)
  else if byte = 0xf4 then ([], some ⟨4, 3, 0x80, 0x8f⟩)
  else ([replacement], none)

/-- Reads a byte after the first one; a byte out of bounds begins anew. -/
def follow (b : Begun) (byte : Nat) : List Char × Option Begun :=
  if b.low ≤ byte ∧ byte ≤ b.high then
    let value := b.value * 64 + (byte - 0x80)
    if b.needed ≤ 1 then ([Char.ofNat value], none)
    else ([], some ⟨value, b.needed - 1, 0x80, 0xbf⟩)
  else
    let (cs, begun) := lead byte
    (replacement :: cs, begun)

/-- Reads bytes after a character that may have begun. -/
def decodeFrom : Option Begun → List UInt8 → List Char
  | none, [] => []
  | some _, [] => [replacement]
  | begun?, byte :: bytes =>
    let (cs, next) :=
      match begun? with
      | none => lead byte.toNat
      | some b => follow b byte.toNat
    cs ++ decodeFrom next bytes

/-- The text of a sequence of bytes. -/
def decode (bytes : List UInt8) : String := String.ofList (decodeFrom none bytes)

end ClassDiagram.Text.Utf8
