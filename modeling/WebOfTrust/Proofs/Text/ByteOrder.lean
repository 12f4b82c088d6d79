import WebOfTrust.KeyId
import WebOfTrust.Proofs.Text.Utf8

/-!
# `WebOfTrust.Proofs.Text.ByteOrder`: texts are in the order of their bytes

Tables compare texts character by character, while whoever sorts the files that hold them compares
bytes. Both give one order: of two characters the one with the lower code point has the lower bytes,
and the bytes of no character begin those of another.

- `Utf8.encode_lt_encode`: a lower text has lower bytes;
- `KeyId.bytes_lt_of_compare`, `Text.bytes_lt_of_compare`: what tables are sorted by.
-/

set_option autoImplicit false

namespace WebOfTrust

namespace Text.Utf8

/-- Two sequences of bytes of which the first one has the lower first byte, or the same one and a
lower rest. The bytes are given as numbers, as the encoding computes them. -/
theorem cons_lt_cons {m n : Nat} {xs ys : List UInt8} (hle : m ≤ n) (hn : n < 256)
    (hrest : m = n → xs < ys) : UInt8.ofNat m :: xs < UInt8.ofNat n :: ys := by
  rw [List.cons_lt_cons_iff, UInt8.lt_iff_toNat_lt, toNat_ofNat_byte hn,
    toNat_ofNat_byte (Nat.lt_of_le_of_lt hle hn)]
  rcases Nat.lt_or_eq_of_le hle with hlt | rfl
  · exact .inl hlt
  · exact .inr ⟨rfl, hrest rfl⟩

/-- The bytes of a lower character are lower, whatever follows. UTF-8 was made so that this
holds. -/
theorem encodeChar_append_lt {c d : Char} (h : c < d) (xs ys : List UInt8) :
    encodeChar c ++ xs < encodeChar d ++ ys := by
  have hlt : c.toNat < d.toNat := h
  have hd := toNat_bounds d
  simp only [encodeChar]
  generalize c.toNat = v at hlt
  generalize d.toNat = w at hlt hd
  -- A character of more bytes has the higher first byte. Among those of as many bytes, the highest
  -- digit in which the code points differ decides.
  repeat' split
  all_goals try omega
  all_goals
    repeat refine cons_lt_cons (by omega) (by omega) fun _ => ?_
    omega

/-- A lower text has lower bytes. The order of texts goes by code points, and that of the artifacts
by bytes. -/
theorem encode_lt_encode {cs ds : List Char} (h : cs < ds) : encode cs < encode ds := by
  induction h with
  | @nil d ds =>
    -- The shorter text is a beginning of the longer one, and every further character has a byte.
    have hne : encodeChar d ≠ [] := by
      simp only [encodeChar]
      repeat' split
      all_goals simp
    rw [encode_cons, ← List.nil_append (encode [])]
    obtain ⟨b, bs, hb⟩ := List.exists_cons_of_ne_nil hne
    rw [hb]
    exact .nil
  | rel hlt => exact encodeChar_append_lt hlt _ _
  | cons _ ih => exact List.append_left_lt ih

end Text.Utf8

/-- The bytes of a text, by which texts are ordered in the artifacts. `Utf8.encode` gives them, and
they are compared from the first on. -/
def Text.bytes (s : String) : List UInt8 := Utf8.encode s.toList

/-- Texts that `compare` puts in order are in the order of their bytes. -/
theorem Text.bytes_lt_of_compare {s t : String} (h : compare s t = .lt) : bytes s < bytes t :=
  Utf8.encode_lt_encode (String.lt_iff.1 (compareOfLessAndEq_eq_lt.1 h))

namespace KeyId

/-- The bytes of an id, by which ids are ordered in the artifacts. `KeyId.bytes_lt_of_compare` says
that this order is the one of tables. -/
def bytes (k : KeyId) : List UInt8 := Text.Utf8.encode k.text.toList

/-- Ids are in the order of their bytes. `Table` keeps them in the order of `compare`, and this is
what that order means. -/
theorem bytes_lt_of_compare {a b : KeyId} (h : compare a b = .lt) : a.bytes < b.bytes :=
  Text.bytes_lt_of_compare h

end KeyId

end WebOfTrust
