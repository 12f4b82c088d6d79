import WebOfTrust.Text.Utf8

/-!
# `WebOfTrust.Proofs.Text.Utf8`: texts survive as bytes

The artifacts of a pass are texts that the next one reads as bytes, so the reader of characters has
to undo their writer.

- `decodeStrict_encode`, `decodeReplacing_encode`: the bytes of a text spell that text, for either
  reader;
- `ascii_mem_of_mem_decodeFrom`: a character below 128 comes from its own byte and from no other, so
  a line of bytes without a line feed has none among its characters;
- `decodeFrom_concat_ascii`: such a byte is a character of its own wherever it stands.
-/

set_option autoImplicit false

namespace WebOfTrust.Text.Utf8

/-! ### Characters survive -/

/-- A number below 256 is a byte. The encoding computes with numbers, and the decoder looks at
bytes. -/
theorem toNat_ofNat_byte {n : Nat} (h : n < 256) : (UInt8.ofNat n).toNat = n := by
  simp [Nat.mod_eq_of_lt h]

/-- A code point is below the surrogates or past them, and below the end of the code space. These
are the bounds that the decoder checks at the second byte. -/
theorem toNat_bounds (c : Char) :
    c.toNat < 0xD800 ∨ (0xDFFF < c.toNat ∧ c.toNat < 0x110000) := by
  have h := c.valid
  simp only [UInt32.isValidChar, Nat.isValidChar] at h
  show c.val.toNat < 0xD800 ∨ (0xDFFF < c.val.toNat ∧ c.val.toNat < 0x110000)
  omega

/-- A first byte that begins a longer character: nothing is decoded yet, and the rest of the
character is missing. -/
theorem decodeFrom_longer {p : Partial} {b : UInt8} {bs : List UInt8} (h : start b = .longer p) :
    decodeFrom none (b :: bs) = decodeFrom (some p) bs := by
  rw [decodeFrom, h]

/-- One byte inside the bounds of a character that misses more than it. The bounds of the next byte
are the usual ones. -/
theorem decodeFrom_more {p : Partial} {b : UInt8} {bs : List UInt8}
    (hb : p.low ≤ b.toNat ∧ b.toNat ≤ p.high) (hm : 1 < p.missing) :
    decodeFrom (some p) (b :: bs)
      = decodeFrom (some ⟨p.value * 0x40 + b.toNat % 0x40, p.missing - 1, 0x80, 0xBF⟩) bs := by
  simp only [decodeFrom, if_pos hb, if_neg (Nat.not_le.2 hm)]

/-- The last byte of a character, with which it is complete. The bits so far and those of the byte
make up its code point. -/
theorem decodeFrom_last {p : Partial} {b : UInt8} {bs : List UInt8}
    (hb : p.low ≤ b.toNat ∧ b.toNat ≤ p.high) (hm : p.missing = 1) :
    decodeFrom (some p) (b :: bs)
      = some (Char.ofNat (p.value * 0x40 + b.toNat % 0x40)) :: decodeFrom none bs := by
  simp only [decodeFrom, if_pos hb, hm, Nat.le_refl, if_true]

/-- The last two bytes of a character whose last byte but one has the usual bounds or narrower
ones. -/
theorem decodeFrom_two {value low high : Nat} {v : Nat} {bs : List UInt8}
    (hv : v / 0x1000 = value)
    (hb : low ≤ 0x80 + v / 0x40 % 0x40 ∧ 0x80 + v / 0x40 % 0x40 ≤ high) :
    decodeFrom (some ⟨value, 2, low, high⟩)
        (UInt8.ofNat (0x80 + v / 0x40 % 0x40) :: UInt8.ofNat (0x80 + v % 0x40) :: bs)
      = some (Char.ofNat v) :: decodeFrom none bs := by
  have h₁ : (UInt8.ofNat (0x80 + v / 0x40 % 0x40)).toNat = 0x80 + v / 0x40 % 0x40 :=
    toNat_ofNat_byte (by omega)
  have h₀ : (UInt8.ofNat (0x80 + v % 0x40)).toNat = 0x80 + v % 0x40 :=
    toNat_ofNat_byte (by omega)
  rw [decodeFrom_more (by simpa only [h₁] using hb) Nat.one_lt_two,
    decodeFrom_last (by simp only [h₀]; omega) rfl]
  simp only [h₁, h₀]
  rw [show (value * 0x40 + (0x80 + v / 0x40 % 0x40) % 0x40) * 0x40 + (0x80 + v % 0x40) % 0x40 = v
    by omega]

/-- The first byte of a character of three bytes, and bounds that its second byte meets.
`decodeFrom_encodeChar` has one case for each number of bytes. -/
theorem start_three {v : Nat} (hlow : 0x800 ≤ v) (hhigh : v < 0x10000)
    (hv : v < 0xD800 ∨ 0xDFFF < v) :
    ∃ low high, start (UInt8.ofNat (0xE0 + v / 0x1000)) = .longer ⟨v / 0x1000, 2, low, high⟩ ∧
      low ≤ 0x80 + v / 0x40 % 0x40 ∧ 0x80 + v / 0x40 % 0x40 ≤ high := by
  have hb : (UInt8.ofNat (0xE0 + v / 0x1000)).toNat = 0xE0 + v / 0x1000 :=
    toNat_ofNat_byte (by omega)
  simp only [start, hb]
  rw [if_neg (by omega), if_neg (by omega), if_neg (by omega)]
  -- The overlong forms and the surrogates narrow the bounds behind two of the first bytes.
  by_cases h0 : v / 0x1000 = 0
  · exact ⟨0xA0, 0xBF, by rw [if_pos (by omega), h0], by omega⟩
  by_cases hD : v / 0x1000 = 0xD
  · exact ⟨0x80, 0x9F, by rw [if_neg (by omega), if_pos (by omega), hD], by omega⟩
  · refine ⟨0x80, 0xBF, ?_, by omega⟩
    rw [if_neg (by omega), if_neg (by omega), if_pos (by omega)]
    simp

/-- The first byte of a character of four bytes, and bounds that its second byte meets. There is no
longer form: code points end below `0x110000`. -/
theorem start_four {v : Nat} (hlow : 0x10000 ≤ v) (hhigh : v < 0x110000) :
    ∃ low high, start (UInt8.ofNat (0xF0 + v / 0x40000)) = .longer ⟨v / 0x40000, 3, low, high⟩ ∧
      low ≤ 0x80 + v / 0x1000 % 0x40 ∧ 0x80 + v / 0x1000 % 0x40 ≤ high := by
  have hb : (UInt8.ofNat (0xF0 + v / 0x40000)).toNat = 0xF0 + v / 0x40000 :=
    toNat_ofNat_byte (by omega)
  simp only [start, hb]
  rw [if_neg (by omega), if_neg (by omega), if_neg (by omega), if_neg (by omega),
    if_neg (by omega), if_neg (by omega)]
  -- The second byte is bounded from below after `0xF0`, and from above after `0xF4`.
  by_cases h0 : v / 0x40000 = 0
  · exact ⟨0x90, 0xBF, by rw [if_pos (by omega), h0], by omega⟩
  by_cases h4 : v / 0x40000 = 4
  · refine ⟨0x80, 0x8F, ?_, by omega⟩
    rw [if_neg (by omega), if_neg (by omega), if_pos (by omega), h4]
  · refine ⟨0x80, 0xBF, ?_, by omega⟩
    rw [if_neg (by omega), if_pos (by omega)]
    simp

/-- The bytes of a character are read as that character, whatever follows. The cases are the four
lengths of an encoding. -/
theorem decodeFrom_encodeChar (c : Char) (bs : List UInt8) :
    decodeFrom none (encodeChar c ++ bs) = some c :: decodeFrom none bs := by
  have hc := toNat_bounds c
  simp only [encodeChar]
  generalize hv : c.toNat = v at hc ⊢
  -- The bits of the bytes put together are the code point.
  have hback : Char.ofNat v = c := by rw [← hv, Char.ofNat_toNat]
  split
  · next h =>
    have hb : (UInt8.ofNat v).toNat = v := toNat_ofNat_byte (by omega)
    simp only [List.cons_append, List.nil_append, decodeFrom, start, hb, if_pos h, hback]
  split
  · next h =>
    have h₁ : (UInt8.ofNat (0xC0 + v / 0x40)).toNat = 0xC0 + v / 0x40 :=
      toNat_ofNat_byte (by omega)
    have h₀ : (UInt8.ofNat (0x80 + v % 0x40)).toNat = 0x80 + v % 0x40 :=
      toNat_ofNat_byte (by omega)
    have hs : start (UInt8.ofNat (0xC0 + v / 0x40)) = .longer ⟨v / 0x40, 1, 0x80, 0xBF⟩ := by
      simp only [start, h₁]
      rw [if_neg (by omega), if_neg (by omega), if_pos (by omega)]
      simp
    simp only [List.cons_append, List.nil_append, decodeFrom, hs, h₀]
    rw [if_pos (by omega), if_pos (Nat.le_refl 1),
      show v / 0x40 * 0x40 + (0x80 + v % 0x40) % 0x40 = v by omega, hback]
  split
  · next h =>
    obtain ⟨low, high, hs, hb⟩ := start_three (v := v) (by omega) (by omega) (by omega)
    simp only [List.cons_append, List.nil_append]
    rw [decodeFrom_longer hs, decodeFrom_two rfl hb, hback]
  · next h =>
    obtain ⟨low, high, hs, hb⟩ := start_four (v := v) (by omega) (by omega)
    have h₂ : (UInt8.ofNat (0x80 + v / 0x1000 % 0x40)).toNat = 0x80 + v / 0x1000 % 0x40 :=
      toNat_ofNat_byte (by omega)
    simp only [List.cons_append, List.nil_append]
    rw [decodeFrom_longer hs, decodeFrom_more (by simpa only [h₂] using hb) (by simp)]
    simp only [h₂]
    rw [decodeFrom_two (by omega) (by omega), hback]

/-- The bytes of a text are decoded as its characters, none of them refused. The induction is on the
characters, with `decodeFrom_encodeChar` for each of them. -/
theorem decode_encode (cs : List Char) : decode (encode cs) = cs.map some := by
  induction cs with
  | nil => rfl
  | cons c cs ih =>
    rw [encode_cons, decode, decodeFrom_encodeChar]
    simpa [decode] using ih

/-- The bytes of a text spell that text, so the strict decoder accepts them. `decode_encode` has no
`none` in its result. -/
theorem decodeStrict_encode (cs : List Char) : decodeStrict (encode cs) = some cs := by
  rw [decodeStrict, decode_encode]
  induction cs with
  | nil => rfl
  | cons c cs ih => simp_all

/-- Where nothing is refused, nothing is replaced. `U+FFFD` can still be in the result, if it was in
the text. -/
theorem decodeReplacing_encode (cs : List Char) : decodeReplacing (encode cs) = cs := by
  rw [decodeReplacing, decode_encode, List.map_map]
  exact List.map_id cs

/-! ### Characters of one byte

Bytes below 128 are characters, and none of them is part of a longer one. Readers of lines rely on
that: they look for the line feed among the bytes. -/

/-- A byte below 128 stands for itself among the bytes of a character: the character is that byte,
and has no other. -/
theorem toNat_of_mem_encodeChar {c : Char} {b : UInt8} (h : b ∈ encodeChar c)
    (hb : b.toNat < 0x80) : b.toNat = c.toNat := by
  have hc := toNat_bounds c
  -- Every byte of a longer character is `k + r` for some `k` of 128 or more.
  have large : ∀ {k r : Nat}, 0x80 ≤ k → k + r < 256 → b ≠ UInt8.ofNat (k + r) := by
    rintro k r hk hr rfl
    rw [toNat_ofNat_byte hr] at hb
    omega
  simp only [encodeChar] at h
  repeat' split at h
  all_goals simp only [List.mem_cons, List.not_mem_nil, or_false] at h
  · rw [h, toNat_ofNat_byte (by omega)]
  · rcases h with h | h
    · exact absurd h (large (by decide) (by omega))
    · exact absurd h (large (by decide) (by omega))
  · rcases h with h | h | h
    · exact absurd h (large (by decide) (by omega))
    · exact absurd h (large (by decide) (by omega))
    · exact absurd h (large (by decide) (by omega))
  · rcases h with h | h | h | h
    · exact absurd h (large (by decide) (by omega))
    · exact absurd h (large (by decide) (by omega))
    · exact absurd h (large (by decide) (by omega))
    · exact absurd h (large (by decide) (by omega))

/-- What holds inside a character: it has bytes to come, none of which is below 128, and its code
point will be 128 or more. The last part is not yet visible in `value` where the first byte
contributes nothing; there the narrow bounds of the second byte make up for it. -/
structure Partial.Long (p : Partial) : Prop where
  /-- At least one byte is to come. -/
  missing : 1 ≤ p.missing
  /-- The next one is not below 128. -/
  low : 0x80 ≤ p.low
  /-- The code point will not be below 128. -/
  large : 2 ≤ p.value ∨ 2 ≤ p.missing ∧ p.high ≤ 0xBF ∧ (1 ≤ p.value ∨ 0x90 ≤ p.low)

/-- Each first byte of a longer character leads into a state with `Long`. -/
theorem long_of_start {b : UInt8} {p : Partial} (h : start b = .longer p) : p.Long := by
  have hb : b.toNat < 256 := b.toNat_lt
  simp only [start] at h
  -- Each first byte has its own row: the bounds of the row settle all three parts.
  repeat' split at h
  all_goals first
    | exact Start.noConfusion h
    | obtain rfl := Start.longer.inj h
  all_goals constructor <;> simp only <;> omega

/-- A byte that is a character on its own is below 128, and the character has its number. -/
theorem start_eq_single {b : UInt8} {c : Char} (h : start b = .single c) :
    b.toNat < 0x80 ∧ c = Char.ofNat b.toNat := by
  simp only [start] at h
  repeat' split at h
  all_goals cases h
  exact ⟨by assumption, rfl⟩

/-- A byte below 128 is a character on its own. In particular line feeds and semicolons are. -/
theorem start_of_lt {b : UInt8} (h : b.toNat < 0x80) : start b = .single (Char.ofNat b.toNat) := by
  simp only [start, if_pos h]

/-- A byte that fits leaves `Long` in place while more are missing. -/
theorem Partial.Long.more {p : Partial} (hp : p.Long) {b : UInt8}
    (hb : p.low ≤ b.toNat ∧ b.toNat ≤ p.high) (hm : ¬ p.missing ≤ 1) :
    Partial.Long ⟨p.value * 0x40 + b.toNat % 0x40, p.missing - 1, 0x80, 0xBF⟩ := by
  obtain ⟨-, hlow, hlarge⟩ := hp
  exact ⟨by dsimp only; omega, by dsimp only; omega, by dsimp only; omega⟩

/-- The code point of a character that is complete is 128 or more. So no byte of a longer character
is mistaken for one of ASCII. -/
theorem Partial.Long.codePoint {p : Partial} (hp : p.Long) (b : UInt8) (hm : p.missing ≤ 1) :
    0x80 ≤ p.value * 0x40 + b.toNat % 0x40 := by
  obtain ⟨-, -, hlarge⟩ := hp
  omega

/-- The code point of a character made from a number; numbers that are no code point give the
character 0. The decoder never makes one of those, but that does not have to be known here. -/
theorem toNat_ofNat_char (v : Nat) : (Char.ofNat v).toNat = if v.isValidChar then v else 0 := by
  by_cases h : v.isValidChar
  · rw [if_pos h, Char.ofNat, dif_pos h]
    rfl
  · rw [if_neg h, Char.ofNat, dif_neg h]
    rfl

/-- A character made from a number of 128 or more is not one below 128, apart from the character
0. -/
theorem ofNat_ne_of_large {v : Nat} {c : Char} (hv : 0x80 ≤ v) (h0 : 0 < c.toNat)
    (hc : c.toNat < 0x80) : Char.ofNat v ≠ c := by
  rintro rfl
  rw [toNat_ofNat_char] at h0 hc
  by_cases hvalid : v.isValidChar
  · rw [if_pos hvalid] at hc
    omega
  · rw [if_neg hvalid] at h0
    omega

/-- A character below 128 comes from its own byte. The induction is on the bytes, for any state with
`Long`, since a byte that does not fit sends the decoder back to its first state. -/
theorem ascii_mem_of_mem_decodeFrom {c : Char} (h0 : 0 < c.toNat) (hc : c.toNat < 0x80)
    (p : Option Partial) (bytes : List UInt8) (hp : ∀ q ∈ p, q.Long)
    (h : some c ∈ decodeFrom p bytes) : UInt8.ofNat c.toNat ∈ bytes := by
  -- The byte that makes `c` a character on its own is the byte of `c`.
  have single : ∀ {b : UInt8} {d : Char}, start b = .single d → c = d →
      UInt8.ofNat c.toNat = b := by
    rintro b d hs rfl
    obtain ⟨hb, hd⟩ := start_eq_single hs
    have hval : c.toNat = b.toNat := by
      rw [hd, toNat_ofNat_char, if_pos (Or.inl (by omega))]
    rw [hval, UInt8.ofNat_toNat]
  fun_induction decodeFrom p bytes with
  | case1 => simp at h
  | case2 => simp at h
  | case3 b bs d hs ih =>
    rcases List.mem_cons.1 h with h | h
    · exact List.mem_cons.2 (.inl (single hs (Option.some.inj h)))
    · exact List.mem_cons_of_mem _ (ih (by simp) h)
  | case4 b bs q hs ih =>
    exact List.mem_cons_of_mem _ (ih (by simpa using long_of_start hs) h)
  | case5 b bs hs ih =>
    rcases List.mem_cons.1 h with h | h
    · cases h
    · exact List.mem_cons_of_mem _ (ih (by simp) h)
  | case6 q b bs hb value hm ih =>
    rcases List.mem_cons.1 h with h | h
    · have hlarge := (hp q rfl).codePoint b hm
      exact absurd (Option.some.inj h).symm (ofNat_ne_of_large hlarge h0 hc)
    · exact List.mem_cons_of_mem _ (ih (by simp) h)
  | case7 q b bs hb value hm ih =>
    exact List.mem_cons_of_mem _ (ih (by simpa using (hp q rfl).more hb hm) h)
  | case8 q b bs hb ihNone ihSome =>
    -- A byte that does not fit ends the character and begins the next one.
    rcases List.mem_cons.1 h with h | h
    · cases h
    cases hs : start b with
    | single d =>
      rw [hs] at h
      rcases List.mem_cons.1 h with h | h
      · exact List.mem_cons.2 (.inl (single hs (Option.some.inj h)))
      · exact List.mem_cons_of_mem _ (ihNone (by simp) h)
    | longer r =>
      rw [hs] at h
      exact List.mem_cons_of_mem _ (ihSome r (by simpa using long_of_start hs) h)
    | malformed =>
      rw [hs] at h
      rcases List.mem_cons.1 h with h | h
      · cases h
      · exact List.mem_cons_of_mem _ (ihNone (by simp) h)

/-- A byte below 128 at the end is a character of its own, whatever stands before it, also the
beginning of a character that it cuts off. -/
theorem decodeFrom_concat_ascii {b : UInt8} (hb : b.toNat < 0x80) (p : Option Partial)
    (bytes : List UInt8) (hp : ∀ q ∈ p, q.Long) :
    decodeFrom p (bytes ++ [b]) = decodeFrom p bytes ++ [some (Char.ofNat b.toNat)] := by
  have hs := start_of_lt hb
  fun_induction decodeFrom p bytes with
  | case1 => simp [decodeFrom, hs]
  | case2 q =>
    have hlow := (hp q rfl).low
    simp only [List.nil_append, decodeFrom, hs]
    rw [if_neg (by omega)]
    rfl
  | case3 b' bs d hs' ih => simp [decodeFrom, hs', ih]
  | case4 b' bs q hs' ih => simp [decodeFrom, hs', ih (by simpa using long_of_start hs')]
  | case5 b' bs hs' ih => simp [decodeFrom, hs', ih]
  | case6 q b' bs hb' value hm ih => simp [decodeFrom, hb', hm, value, ih]
  | case7 q b' bs hb' value hm ih =>
    have hlong := (hp q rfl).more hb' hm
    simpa only [List.cons_append, decodeFrom, if_pos hb', if_neg hm] using
      ih (by simpa using hlong)
  | case8 q b' bs hb' ihNone ihSome =>
    simp only [List.cons_append, decodeFrom, if_neg hb']
    cases hs' : start b' with
    | single d => simp [ihNone]
    | longer r => simp [ihSome r (by simpa using long_of_start hs')]
    | malformed => simp [ihNone]

end WebOfTrust.Text.Utf8
