import WebOfTrust.Tagged

/-!
# `WebOfTrust.SignatureType`: levels of certification and kinds of revocation

A signature type is one byte (RFC 4880, section 5.2.1). Types 0x10 to 0x13 certify a user id at
one of four levels; 0x20, 0x28 and 0x30 revoke a key, a subkey or a certification. Other numbers
stay known by their value.
-/

set_option autoImplicit false

namespace WebOfTrust

/-! ### Levels of certification -/

/-- How well an issuer has checked whom it certifies, by the type of its signature. `unknown` keeps
the type of a signature that is none of the four. -/
inductive CertificationLevel where
  /-- 0x10: nothing is said about how the identity was checked. -/
  | generic
  /-- 0x11: no check at all. -/
  | persona
  /-- 0x12: a casual check. -/
  | casual
  /-- 0x13: a substantial check. -/
  | positive
  /-- Any other type, with its number. -/
  | unknown (n : UInt8)
  deriving DecidableEq, Repr, Inhabited

namespace CertificationLevel

/-- The code of every unknown level. It is none of the four known codes, so an unknown level that
has been written never reads back as a known one. `Signature.reread` is what becomes of such a
level. -/
def otherCode : UInt8 := 255

/-- Reads a level from the code that corpora hold. Any other number is the code of an `unknown`
level. -/
def ofByte (n : UInt8) : CertificationLevel :=
  if n = 0 then .generic
  else if n = 1 then .persona
  else if n = 2 then .casual
  else if n = 3 then .positive
  else .unknown n

/-- Reads a level from a signature type. `ofByte` is given the last two bits of a known type. -/
def ofSignatureType (n : UInt8) : CertificationLevel :=
  if 0x10 ≤ n ∧ n ≤ 0x13 then ofByte (n - 0x10) else .unknown n

/-- The code that corpora hold. Unknown levels have `otherCode`, whatever their type is. -/
def code : CertificationLevel → UInt8
  | generic => 0
  | persona => 1
  | casual => 2
  | positive => 3
  | unknown _ => otherCode

/-- The level by its name, as JSON and messages give it. Only `unknown` carries a number. -/
def tagged : CertificationLevel → Tagged
  | generic => ⟨"Generic", none⟩
  | persona => ⟨"Persona", none⟩
  | casual => ⟨"Casual", none⟩
  | positive => ⟨"Positive", none⟩
  | unknown n => ⟨"Unknown", some n⟩

/-- The bucket in which reports count the level. So all unknown levels are counted together. -/
def bucket (level : CertificationLevel) : UInt8 := level.code

/-- What a report calls a bucket. It is asked for the members of `CertificationLevel.buckets`
only. -/
def bucketLabel (bucket : UInt8) : String :=
  if bucket = 0 then "Generic"
  else if bucket = 1 then "Persona"
  else if bucket = 2 then "Casual"
  else if bucket = 3 then "Positive"
  else "Unknown"

/-- The buckets that a report always lists. They are the values of `code`. -/
def buckets : List UInt8 := [0, 1, 2, 3, otherCode]

end CertificationLevel

/-! ### Kinds of revocation -/

/-- What a revocation revokes, by the type of its signature. `unknown` keeps the type of any other
signature. -/
inductive RevocationKind where
  /-- 0x20: the whole key is revoked. -/
  | key
  /-- 0x28: a subkey is revoked. -/
  | subkey
  /-- 0x30: a certification is revoked. -/
  | certification
  /-- Any other type, with its number. -/
  | unknown (n : UInt8)
  deriving DecidableEq, Repr, Inhabited

namespace RevocationKind

/-- Reads what is revoked from a signature type. A `rev` record may have any type, so reading never
fails. -/
def ofSignatureType (n : UInt8) : RevocationKind :=
  if n = 0x20 then .key
  else if n = 0x28 then .subkey
  else if n = 0x30 then .certification
  else .unknown n

/-- The kind by its name, as JSON and messages give it. Messages of the log use it. -/
def tagged : RevocationKind → Tagged
  | key => ⟨"KeyRevocation", none⟩
  | subkey => ⟨"SubkeyRevocation", none⟩
  | certification => ⟨"CertificationRevocation", none⟩
  | unknown n => ⟨"Unknown", some n⟩

end RevocationKind

/-! ### Format versions -/

/-- The bucket in which reports count a key or signature of a format version: versions 2 to 4 stand
for themselves, any other is bucket 0. `versionBuckets` lists these four. -/
def versionBucket (version : UInt8) : UInt8 :=
  if 2 ≤ version ∧ version ≤ 4 then version else 0

end WebOfTrust
