import WebOfTrust.Tagged

/-!
# `WebOfTrust.Algorithm`: hash and public-key algorithms

OpenPGP numbers its algorithms by one byte (RFC 4880, sections 9.1 and 9.4). A number outside the
registry stays known by its value, so nothing is lost by reading it. Reports group the numbers into
buckets: the registered ones stand for themselves, private use is bucket 100, the rest bucket 0.

- `HashAlgorithm.toByte_ofByte`, `PublicKeyAlgorithm.toByte_ofByte`: a number survives being read.
-/

set_option autoImplicit false

namespace WebOfTrust

/-- The bucket of private and experimental numbers. Both kinds of algorithms have such numbers, and
`bucket` sends all of them here. -/
def privateBucket : UInt8 := 100

/-- The bucket of numbers outside the registry. It is listed in every report, so an `unknown`
algorithm is never left out of a sum. -/
def unknownBucket : UInt8 := 0

/-! ### Hash algorithms -/

/-- A hash algorithm, with its number where that is all that is known of it. `ofByte` and `toByte`
convert it. -/
inductive HashAlgorithm where
  | md5
  | sha1
  | ripeMd160
  | sha256
  | sha384
  | sha512
  | sha224
  /-- One of the numbers 4 to 7. -/
  | reserved (n : UInt8)
  /-- One of the numbers from 100 on. -/
  | privateUse (n : UInt8)
  /-- A number outside the registry. -/
  | unknown (n : UInt8)
  deriving DecidableEq, Repr, Inhabited

namespace HashAlgorithm

/-- Reads the number of a hash algorithm. Every number is one, so reading never fails. -/
def ofByte (n : UInt8) : HashAlgorithm :=
  if n = 1 then .md5
  else if n = 2 then .sha1
  else if n = 3 then .ripeMd160
  else if 4 ≤ n ∧ n ≤ 7 then .reserved n
  else if n = 8 then .sha256
  else if n = 9 then .sha384
  else if n = 10 then .sha512
  else if n = 11 then .sha224
  else if 100 ≤ n then .privateUse n
  else .unknown n

/-- The number of a hash algorithm, as records and corpora hold it. -/
def toByte : HashAlgorithm → UInt8
  | md5 => 1
  | sha1 => 2
  | ripeMd160 => 3
  | sha256 => 8
  | sha384 => 9
  | sha512 => 10
  | sha224 => 11
  | reserved n => n
  | privateUse n => n
  | unknown n => n

/-- The algorithm by its name, as JSON and messages give it. Alternatives with a number carry it
along. `Tagged.text` writes both. -/
def tagged : HashAlgorithm → Tagged
  | md5 => ⟨"Md5", none⟩
  | sha1 => ⟨"Sha1", none⟩
  | ripeMd160 => ⟨"RipeMd160", none⟩
  | sha256 => ⟨"Sha256", none⟩
  | sha384 => ⟨"Sha384", none⟩
  | sha512 => ⟨"Sha512", none⟩
  | sha224 => ⟨"Sha224", none⟩
  | reserved n => ⟨"Reserved", some n⟩
  | privateUse n => ⟨"Private", some n⟩
  | unknown n => ⟨"Unknown", some n⟩

/-- The bucket in which reports count the algorithm. Numbers that `HashAlgorithm.buckets` does not
list share one of its two extra buckets. -/
def bucket : HashAlgorithm → UInt8
  | privateUse _ => privateBucket
  | unknown _ => unknownBucket
  | known => known.toByte

/-- What a report calls a bucket. It is asked for the members of `HashAlgorithm.buckets` only. -/
def bucketLabel (bucket : UInt8) : String :=
  if bucket = 1 then "MD5"
  else if bucket = 2 then "SHA1"
  else if bucket = 3 then "RIPEMD160"
  else if 4 ≤ bucket ∧ bucket ≤ 7 then "Reserved"
  else if bucket = 8 then "SHA256"
  else if bucket = 9 then "SHA384"
  else if bucket = 10 then "SHA512"
  else if bucket = 11 then "SHA224"
  else if bucket = privateBucket then "Private/Experimental"
  else "Unknown"

/-- The buckets that a report always lists. `HashAlgorithm.bucket` never gives another one for what
`ofByte` reads. -/
def buckets : List UInt8 := [0, 1, 2, 3, 4, 5, 6, 7, 8, 9, 10, 11, 100]

/-- A number survives being read, also one that is reserved, private or unknown. The converse needs
`ofByte h.toByte = h`, since `.unknown 1` is no reading of a number. -/
theorem toByte_ofByte (n : UInt8) : (ofByte n).toByte = n := by
  unfold ofByte
  repeat' split
  all_goals simp_all [toByte]

end HashAlgorithm

/-! ### Public-key algorithms -/

/-- A public-key algorithm, with its number where that is all that is known of it. It is built as
`HashAlgorithm` is, with other numbers. -/
inductive PublicKeyAlgorithm where
  | rsaEncryptSign
  | rsaEncryptOnly
  | rsaSignOnly
  | elgamalEncryptOnly
  | dsa
  | ellipticCurve
  | ecdsa
  | elgamalEncryptSign
  | diffieHellman
  /-- One of the numbers from 100 on. -/
  | privateUse (n : UInt8)
  /-- A number outside the registry. -/
  | unknown (n : UInt8)
  deriving DecidableEq, Repr, Inhabited

namespace PublicKeyAlgorithm

/-- Reads the number of a public-key algorithm. Every number is one. The comparison goes from the
known numbers to the ranges of the registry. -/
def ofByte (n : UInt8) : PublicKeyAlgorithm :=
  if n = 1 then .rsaEncryptSign
  else if n = 2 then .rsaEncryptOnly
  else if n = 3 then .rsaSignOnly
  else if n = 16 then .elgamalEncryptOnly
  else if n = 17 then .dsa
  else if n = 18 then .ellipticCurve
  else if n = 19 then .ecdsa
  else if n = 20 then .elgamalEncryptSign
  else if n = 21 then .diffieHellman
  else if 100 ≤ n then .privateUse n
  else .unknown n

/-- The number of a public-key algorithm, as records and tables hold it. -/
def toByte : PublicKeyAlgorithm → UInt8
  | rsaEncryptSign => 1
  | rsaEncryptOnly => 2
  | rsaSignOnly => 3
  | elgamalEncryptOnly => 16
  | dsa => 17
  | ellipticCurve => 18
  | ecdsa => 19
  | elgamalEncryptSign => 20
  | diffieHellman => 21
  | privateUse n => n
  | unknown n => n

/-- The algorithm by its name, as JSON and messages give it. `HashAlgorithm.tagged` does the
same. -/
def tagged : PublicKeyAlgorithm → Tagged
  | rsaEncryptSign => ⟨"RsaEncryptSign", none⟩
  | rsaEncryptOnly => ⟨"RsaEncryptOnly", none⟩
  | rsaSignOnly => ⟨"RsaSignOnly", none⟩
  | elgamalEncryptOnly => ⟨"ElgamalEncryptOnly", none⟩
  | dsa => ⟨"Dsa", none⟩
  | ellipticCurve => ⟨"EllipticCurve", none⟩
  | ecdsa => ⟨"Ecdsa", none⟩
  | elgamalEncryptSign => ⟨"ElgamalEncryptSign", none⟩
  | diffieHellman => ⟨"DiffieHellman", none⟩
  | privateUse n => ⟨"Private", some n⟩
  | unknown n => ⟨"Unknown", some n⟩

/-- The bucket in which reports count the algorithm. The rule is that of `HashAlgorithm.bucket`. -/
def bucket : PublicKeyAlgorithm → UInt8
  | privateUse _ => privateBucket
  | unknown _ => unknownBucket
  | known => known.toByte

/-- What a report calls a bucket. It is asked for the members of `PublicKeyAlgorithm.buckets`
only. -/
def bucketLabel (bucket : UInt8) : String :=
  if bucket = 1 then "RSA Encrypt or Sign"
  else if bucket = 2 then "RSA Encrypt-Only"
  else if bucket = 3 then "RSA Sign-Only"
  else if bucket = 16 then "Elgamal (Encrypt-Only)"
  else if bucket = 17 then "DSA"
  else if bucket = 18 then "Elliptic Curve"
  else if bucket = 19 then "ECDSA"
  else if bucket = 20 then "Elgamal Encrypt or Sign (deprecated)"
  else if bucket = 21 then "Diffie-Hellman (X9.42)"
  else if bucket = privateBucket then "Private/Experimental"
  else "Unknown"

/-- The buckets that a report always lists. `PublicKeyAlgorithm.bucket` never gives another one for
what `ofByte` reads. -/
def buckets : List UInt8 := [0, 1, 2, 3, 16, 17, 18, 19, 20, 21, 100]

/-- A number survives being read, as that of a hash algorithm does. So what `StatusLine.render`
writes is read back. -/
theorem toByte_ofByte (n : UInt8) : (ofByte n).toByte = n := by
  unfold ofByte
  repeat' split
  all_goals simp_all [toByte]

end PublicKeyAlgorithm

end WebOfTrust
