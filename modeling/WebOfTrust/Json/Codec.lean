import WebOfTrust.AnalyticsSettings
import WebOfTrust.Json.Value
import WebOfTrust.KeyStatus
import WebOfTrust.ResolutionSettings
import WebOfTrust.SignatureType

/-!
# `WebOfTrust.Json.Codec`: settings and alternatives as JSON

How settings and the names of alternatives are read from JSON and written to it.

- An alternative without a number is its name, one with a number an object that maps its name to
  the number. An object that maps the name of an alternative without a number to null stands for it.
- Settings are an object with a field for each setting, where absent fields have their default and
  unknown ones are ignored, or an array of the first settings in their order.
-/

set_option autoImplicit false

namespace WebOfTrust.Json

/-! ### Simple values -/

/-- A whole number in the given range. Floating-point numbers are refused, even if they are
whole. -/
def readInteger (low high : Int) : Json → Option Int
  | .integer n => if low ≤ n ∧ n ≤ high then some n else none
  | _ => none

/-- A number of one byte. It is `readInteger` with its bounds. -/
def readByte (j : Json) : Option UInt8 :=
  (readInteger 0 0xFF j).map fun n => UInt8.ofNat n.toNat

/-- A number of 64 bits. It is `readInteger` with its bounds. -/
def readWord64 (j : Json) : Option UInt64 :=
  (readInteger 0 0xFFFFFFFFFFFFFFFF j).map fun n => UInt64.ofNat n.toNat

/-- A number of 32 bits with a sign. It is `readInteger` with its bounds. -/
def readInt32 (j : Json) : Option Int32 :=
  (readInteger (-0x80000000) 0x7FFFFFFF j).map Int32.ofInt

/-- A truth value. Numbers are no truth values. -/
def readBool : Json → Option Bool
  | .bool b => some b
  | _ => none

/-- A text. Other values are not turned into one. -/
def readString : Json → Option String
  | .string s => some s
  | _ => none

/-- The items of an array, if each of them can be read. It is `List.mapM`, so the first item that
cannot be read refuses all. -/
def readList {α : Type} (read : Json → Option α) : Json → Option (List α)
  | .array items => items.mapM read
  | _ => none

/-! ### Alternatives -/

/-- Reads an alternative: its name, with the number it carries if it is given one. `readAlternative`
looks the name up. -/
def readTagged : Json → Option (String × Option Json)
  | .string name => some (name, none)
  | .object [(name, content)] => some (name, some content)
  | _ => none

/-- Writes an alternative: its name, or an object of its name and the number it carries.
`readTagged` reads both forms. -/
def writeTagged (t : Tagged) : Json :=
  match t.number with
  | none => .string t.name
  | some n => .object [(t.name, .natural n.toNat)]

/-- Reads one of `plain`, the alternatives without a number, or of `numbered`, those with one. -/
def readAlternative {α : Type} (plain : List (String × α)) (numbered : List (String × (UInt8 → α)))
    (j : Json) : Option α := do
  let (name, content) ← readTagged j
  match plain.lookup name, content with
  | some a, none => some a
  | some a, some .null => some a
  | some _, some _ => none
  | none, none => none
  | none, some content =>
    let f ← numbered.lookup name
    return f (← readByte content)

/-- The alternatives without a number under their names. The names are those of `tagged`, so they
are written in one place only. -/
def byName {α : Type} (tagged : α → Tagged) (alternatives : List α) : List (String × α) :=
  alternatives.map fun a => ((tagged a).name, a)

/-- Reads a hash algorithm by its name. A known one has no number, and the others need theirs.
`writeTagged` of `HashAlgorithm.tagged` is the way back. -/
def readHashAlgorithm : Json → Option HashAlgorithm :=
  readAlternative
    (byName HashAlgorithm.tagged [.md5, .sha1, .ripeMd160, .sha256, .sha384, .sha512, .sha224])
    [("Reserved", .reserved), ("Private", .privateUse), ("Unknown", .unknown)]

/-- Reads a public-key algorithm by its name. It is `readAlternative` with other names. -/
def readPublicKeyAlgorithm : Json → Option PublicKeyAlgorithm :=
  readAlternative
    (byName PublicKeyAlgorithm.tagged
      [.rsaEncryptSign, .rsaEncryptOnly, .rsaSignOnly, .elgamalEncryptOnly, .dsa, .ellipticCurve,
        .ecdsa, .elgamalEncryptSign, .diffieHellman])
    [("Private", .privateUse), ("Unknown", .unknown)]

/-- Reads the level of a certification by its name. It is `readAlternative` with other names. -/
def readCertificationLevel : Json → Option CertificationLevel :=
  readAlternative (byName CertificationLevel.tagged [.generic, .persona, .casual, .positive])
    [("Unknown", .unknown)]

/-- Reads by its name what is revoked. It is `readAlternative` with other names. -/
def readRevocationKind : Json → Option RevocationKind :=
  readAlternative (byName RevocationKind.tagged [.key, .subkey, .certification])
    [("Unknown", .unknown)]

/-- Reads the status of a key by its name. None of them carries a number. It is `readAlternative`
with no second list. -/
def readKeyStatus : Json → Option KeyStatus :=
  readAlternative
    (byName KeyStatus.tagged
      [.unvalidated, .valid, .certified, .expired, .revokedByOwner, .revokedByDesignatedRevoker,
        .invalid])
    []

/-! ### Settings -/

/-- The settings that a value gives, each looked up by name or place. An array with more settings
than there are is refused. Names that no setting has are ignored. -/
def settingsOf (names : List String) : Json → Option (List (String × Json))
  | .object fields => some fields
  | .array items => if items.length ≤ names.length then some (names.zip items) else none
  | _ => none

/-- A setting, or its default where it is not given. A value that `read` refuses is not replaced by
the default. -/
def setting {α : Type} (given : List (String × Json)) (name : String) (read : Json → Option α)
    (default : α) : Option α :=
  match given.lookup name with
  | none => some default
  | some j => read j

/-- Reads the settings of the passes. Those that are not given have their defaults. The order of the
names is that of an array. -/
def readResolutionSettings (j : Json) : Option ResolutionSettings := do
  let given ← settingsOf ["exclude_expired_certifications", "exclude_revoked_certifications",
    "exclude_deprecated_hash_algorithms", "deprecated_hash_algorithms", "progress_interval"] j
  let d : ResolutionSettings := {}
  return {
    excludeExpired := ← setting given "exclude_expired_certifications" readBool d.excludeExpired
    excludeRevoked := ← setting given "exclude_revoked_certifications" readBool d.excludeRevoked
    excludeDeprecated :=
      ← setting given "exclude_deprecated_hash_algorithms" readBool d.excludeDeprecated
    deprecatedHashes :=
      ← setting given "deprecated_hash_algorithms" (readList readByte) d.deprecatedHashes
    progressInterval := ← setting given "progress_interval" readWord64 d.progressInterval }

/-- Writes the settings of the passes, all of them. `readResolutionSettings` reads them back. -/
def writeResolutionSettings (s : ResolutionSettings) : Json :=
  .object [
    ("exclude_expired_certifications", .bool s.excludeExpired),
    ("exclude_revoked_certifications", .bool s.excludeRevoked),
    ("exclude_deprecated_hash_algorithms", .bool s.excludeDeprecated),
    ("deprecated_hash_algorithms", .array (s.deprecatedHashes.map fun n => .natural n.toNat)),
    ("progress_interval", .natural s.progressInterval.toNat)]

/-- Reads the settings of an analysis. It is like `readResolutionSettings`, with two settings. -/
def readAnalyticsSettings (j : Json) : Option AnalyticsSettings := do
  let given ← settingsOf ["workers", "current_year"] j
  let d : AnalyticsSettings := {}
  return {
    workers := ← setting given "workers" readWord64 d.workers
    currentYear := ← setting given "current_year" readInt32 d.currentYear }

/-- Writes the settings of an analysis, both of them. `readAnalyticsSettings` reads them back. -/
def writeAnalyticsSettings (s : AnalyticsSettings) : Json :=
  .object [
    ("workers", .natural s.workers.toNat),
    ("current_year", .integer s.currentYear.toInt)]

end WebOfTrust.Json
