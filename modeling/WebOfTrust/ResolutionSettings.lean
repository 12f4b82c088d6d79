import WebOfTrust.Algorithm

/-!
# `WebOfTrust.ResolutionSettings`: which certifications are left out

The passes leave out certifications by three tests, each with its own switch: the dump flags them as
expired, their issuer revoked them, or their hash algorithm is listed as deprecated.
-/

set_option autoImplicit false

namespace WebOfTrust

/-- What can be set for the two passes. The first four settings decide which certifications are left
out; the last one is about log lines only. `Certification.isExcluded` reads those four. -/
structure ResolutionSettings where
  /-- Whether expired certifications are left out. -/
  excludeExpired : Bool := true
  /-- Whether revoked certifications are left out. -/
  excludeRevoked : Bool := true
  /-- Whether certifications with a deprecated hash algorithm are left out. -/
  excludeDeprecated : Bool := false
  /-- The numbers of the deprecated hash algorithms. -/
  deprecatedHashes : List UInt8 := []
  /-- The number of keys after which progress is reported; zero for never. -/
  progressInterval : UInt64 := 100000
  deriving DecidableEq, Repr, Inhabited

/-- Whether certifications that use `hash` are left out. -/
def ResolutionSettings.isDeprecated (s : ResolutionSettings) (hash : HashAlgorithm) : Bool :=
  s.excludeDeprecated && s.deprecatedHashes.contains hash.toByte

end WebOfTrust
