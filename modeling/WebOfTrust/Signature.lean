import WebOfTrust.Algorithm
import WebOfTrust.KeyId
import WebOfTrust.SignatureType

/-!
# `WebOfTrust.Signature`: certifications and revocations as they are signed

What a signature over a user id says, whether it stands in a dump, is retained by an identity, or is
written to a corpus. Dates are kept as texts and compared as texts.
-/

set_option autoImplicit false

namespace WebOfTrust

/-- A signature that certifies a user id. A corpus holds all fields of it, and the `sig` records of
a dump have them, too. -/
structure Signature where
  issuer : KeyId
  date : String
  expires : String
  /-- Letters, among them `e` for an expired signature. -/
  flags : String
  level : CertificationLevel
  algorithm : PublicKeyAlgorithm
  hash : HashAlgorithm
  version : UInt8
  deriving DecidableEq, Repr, Inhabited

/-- Whether the flags of the signature call it expired. `Certification.ofSignature` copies the
answer. -/
def Signature.isExpired (s : Signature) : Bool := s.flags.toList.contains 'e'

/-- A signature that revokes a key, a subkey or a certification. Its `kind` says which of these. -/
structure Revocation where
  issuer : KeyId
  date : String
  kind : RevocationKind
  version : UInt8
  algorithm : PublicKeyAlgorithm
  hash : HashAlgorithm
  deriving DecidableEq, Repr, Inhabited

end WebOfTrust
