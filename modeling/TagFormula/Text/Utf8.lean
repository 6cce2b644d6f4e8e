import TagFormula.Text.Basic

/-!
# UTF-8

A text is written as bytes by `utf8Encode`. Any bytes can be read: `utf8Decode`
puts the replacement character U+FFFD for every longest run of bytes that begins
a character and cannot be finished, and for every byte that begins none.

The first byte of a character fixes how many bytes follow it and the interval
of the first of these (`Lead`); each later byte lies between 0x80 and 0xBF. The
intervals leave out overlong forms, surrogates and code points above U+10FFFF.
-/

namespace TagFormula.Text

/-- What the first byte of a character announces: its share of the code point,
the number of bytes that follow, and the interval of the first of these. -/
structure Lead where
  /-- The bits of the code point that the byte carries. -/
  bits : Nat
  /-- How many bytes follow. -/
  following : Nat
  /-- The least value of the next byte. -/
  low : Nat
  /-- The greatest value of the next byte. -/
  high : Nat

/-- Reads a byte as the first of a character of more than one byte. -/
def lead? (b : Nat) : Option Lead :=
  if 0xC2 ≤ b && b ≤ 0xDF then some ⟨b - 0xC0, 1, 0x80, 0xBF⟩
  else if b = 0xE0 then some ⟨0, 2, 0xA0, 0xBF⟩
  else if b = 0xED then some ⟨0xD, 2, 0x80, 0x9F⟩
  else if 0xE1 ≤ b && b ≤ 0xEF then some ⟨b - 0xE0, 2, 0x80, 0xBF⟩
  else if b = 0xF0 then some ⟨0, 3, 0x90, 0xBF⟩
  else if b = 0xF4 then some ⟨4, 3, 0x80, 0x8F⟩
  else if 0xF1 ≤ b && b ≤ 0xF3 then some ⟨b - 0xF0, 3, 0x80, 0xBF⟩
  else none

/-- Reads bytes while `owed` more are needed to finish a character whose bits so
far are `bits` and whose next byte lies between `low` and `high`. With nothing
owed a character is about to begin. -/
def utf8DecodeFrom (owed bits low high : Nat) : List UInt8 → Text
  | [] => if owed = 0 then [] else ['\uFFFD']
  | b :: rest =>
    if 0 < owed ∧ low ≤ b.toNat ∧ b.toNat ≤ high then
      let bits := bits * 64 + (b.toNat - 0x80)
      if owed = 1 then Char.ofNat bits :: utf8DecodeFrom 0 0 0 0 rest
      else utf8DecodeFrom (owed - 1) bits 0x80 0xBF rest
    else
      (if owed = 0 then [] else ['\uFFFD']) ++
        (if b.toNat < 0x80 then Char.ofNat b.toNat :: utf8DecodeFrom 0 0 0 0 rest
         else match lead? b.toNat with
          | some l => utf8DecodeFrom l.following l.bits l.low l.high rest
          | none => '\uFFFD' :: utf8DecodeFrom 0 0 0 0 rest)

/-- The text that bytes hold, with U+FFFD in place of what is not UTF-8. -/
def utf8Decode (bytes : List UInt8) : Text :=
  utf8DecodeFrom 0 0 0 0 bytes

/-- The bytes of a text. -/
def utf8Encode (t : Text) : List UInt8 :=
  t.flatMap String.utf8EncodeChar

@[simp] theorem utf8Decode_nil : utf8Decode [] = [] := rfl

/-- An ASCII byte is read as the character of its code point. -/
theorem utf8Decode_cons_ascii {b : UInt8} (h : b.toNat < 0x80) (rest : List UInt8) :
    utf8Decode (b :: rest) = Char.ofNat b.toNat :: utf8Decode rest := by
  simp [utf8Decode, utf8DecodeFrom, h]

theorem utf8Encode_append (s t : Text) :
    utf8Encode (s ++ t) = utf8Encode s ++ utf8Encode t := by
  simp [utf8Encode]

end TagFormula.Text
