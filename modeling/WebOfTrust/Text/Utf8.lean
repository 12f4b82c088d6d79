/-!
# `WebOfTrust.Text.Utf8`: characters as bytes

Every file of the program is a sequence of bytes that holds UTF-8 text. This module gives the bytes
of a text and two readings of bytes:

- `Utf8.decode`: the characters, with `none` for every malformed stretch;
- `Utf8.decodeStrict`: the text, or nothing when a stretch is malformed;
- `Utf8.decodeReplacing`: the text, with U+FFFD for every malformed stretch.

A malformed stretch is the longest run of bytes that begins a character, or one byte where none
begins. The reader is an automaton with one step per byte: it is between two characters, or it is
inside one, and `Partial` says what it still waits for.
-/

set_option autoImplicit false

namespace WebOfTrust.Text.Utf8

/-! ### Bytes of a text -/

/-- The bytes of one character: one, two, three or four, by its code point. `decode_encode` and its
kin are about it. -/
def encodeChar (c : Char) : List UInt8 :=
  let v := c.toNat
  if v < 0x80 then
    [UInt8.ofNat v]
  else if v < 0x800 then
    [UInt8.ofNat (0xC0 + v / 0x40), UInt8.ofNat (0x80 + v % 0x40)]
  else if v < 0x10000 then
    [UInt8.ofNat (0xE0 + v / 0x1000), UInt8.ofNat (0x80 + v / 0x40 % 0x40),
      UInt8.ofNat (0x80 + v % 0x40)]
  else
    [UInt8.ofNat (0xF0 + v / 0x40000), UInt8.ofNat (0x80 + v / 0x1000 % 0x40),
      UInt8.ofNat (0x80 + v / 0x40 % 0x40), UInt8.ofNat (0x80 + v % 0x40)]

/-- The bytes of a sequence of characters. `Source.ofString` delivers them. -/
def encode (cs : List Char) : List UInt8 :=
  cs.flatMap encodeChar

/-- Nothing is encoded as nothing. `simp` uses it. -/
@[simp] theorem encode_nil : encode [] = [] := rfl

/-- Characters are encoded one by one. `encode_append` follows from it. -/
@[simp] theorem encode_cons (c : Char) (cs : List Char) :
    encode (c :: cs) = encodeChar c ++ encode cs := rfl

/-- The bytes of two texts, one behind the other, are those of each. A text can be cut at any
character, therefore. -/
@[simp] theorem encode_append (cs ds : List Char) : encode (cs ++ ds) = encode cs ++ encode ds := by
  simp [encode]

/-! ### Characters of a byte sequence -/

/-- A character of which some bytes have been read: the bits so far, the bytes still missing, and
the bounds of the next byte. The bounds keep out overlong forms, surrogates and code points past the
last one. `start` gives the first one. -/
structure Partial where
  value : Nat
  missing : Nat
  low : Nat
  high : Nat

/-- What a byte means where a character may begin. Bytes with which no character begins are
`malformed`. -/
inductive Start where
  /-- A whole character. -/
  | single (c : Char)
  /-- The first byte of a longer character. -/
  | longer (p : Partial)
  /-- A byte with which no character begins. -/
  | malformed

/-- Reads the first byte of a character. The bounds in its `Partial` depend on that byte. -/
def start (b : UInt8) : Start :=
  let v := b.toNat
  if v < 0x80 then .single (Char.ofNat v)
  else if v < 0xC2 then .malformed
  else if v < 0xE0 then .longer ⟨v - 0xC0, 1, 0x80, 0xBF⟩
  else if v = 0xE0 then .longer ⟨0, 2, 0xA0, 0xBF⟩
  else if v = 0xED then .longer ⟨0xD, 2, 0x80, 0x9F⟩
  else if v < 0xF0 then .longer ⟨v - 0xE0, 2, 0x80, 0xBF⟩
  else if v = 0xF0 then .longer ⟨0, 3, 0x90, 0xBF⟩
  else if v < 0xF4 then .longer ⟨v - 0xF0, 3, 0x80, 0xBF⟩
  else if v = 0xF4 then .longer ⟨4, 3, 0x80, 0x8F⟩
  else .malformed

/-- The characters of `bytes`, read from inside the character `p` or from between two characters;
`none` stands for a malformed stretch. -/
def decodeFrom : Option Partial → List UInt8 → List (Option Char)
  | none, [] => []
  | some _, [] => [none]
  | none, b :: bs =>
    match start b with
    | .single c => some c :: decodeFrom none bs
    | .longer p => decodeFrom (some p) bs
    | .malformed => none :: decodeFrom none bs
  | some p, b :: bs =>
    if p.low ≤ b.toNat ∧ b.toNat ≤ p.high then
      let value := p.value * 0x40 + b.toNat % 0x40
      if p.missing ≤ 1 then some (Char.ofNat value) :: decodeFrom none bs
      else decodeFrom (some ⟨value, p.missing - 1, 0x80, 0xBF⟩) bs
    else
      none :: match start b with
        | .single c => some c :: decodeFrom none bs
        | .longer q => decodeFrom (some q) bs
        | .malformed => none :: decodeFrom none bs

/-- The characters of `bytes`; `none` stands for a malformed stretch. -/
def decode (bytes : List UInt8) : List (Option Char) :=
  decodeFrom none bytes

/-- The characters of `bytes`, if no stretch of them is malformed. -/
def decodeStrict (bytes : List UInt8) : Option (List Char) :=
  (decode bytes).mapM id

/-- The characters of `bytes`, with U+FFFD in place of every malformed stretch. -/
def decodeReplacing (bytes : List UInt8) : List Char :=
  (decode bytes).map (·.getD '\uFFFD')

end WebOfTrust.Text.Utf8
