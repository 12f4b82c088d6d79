import WebOfTrust.Corpus
import WebOfTrust.Dump.Record
import WebOfTrust.Keyring.Identity
import WebOfTrust.StatusTable

/-!
# `WebOfTrust.Keyring.Key`: keys, and what becomes of them

A key collects user ids, their certifications and revocations, in the order of the dump. When its
records are complete, `Key.commit` consolidates the certifications of its live user ids into one per
issuer and settles its status. A `CommittedKey` has a line in the key-status table and, if it is
interesting, a block in the edge corpus.
-/

set_option autoImplicit false

namespace WebOfTrust

open Dump

/-! ### Keys that receive records -/

/-- A key that still receives records. `Key.commit` makes a `CommittedKey` of it. -/
structure Key where
  /-- What its `pub` record says. -/
  record : PubRecord
  /-- The user ids, the newest first. -/
  newestFirst : List Identity := []
  /-- The issuer of the latest revocation of the key. -/
  revoker : Option KeyId := none
  deriving DecidableEq

namespace Key

/-- The id of the key. It is read from the `pub` record. -/
def keyId (k : Key) : KeyId := k.record.keyId

/-- The user ids, in the order of the dump. `newestFirst` is that list from behind. -/
def identities (k : Key) : List Identity := k.newestFirst.reverse

/-- Adds a user id. It becomes the newest one, to which further records belong. -/
def addIdentity (k : Key) (i : Identity) : Key :=
  { k with newestFirst := i :: k.newestFirst }

/-- Adds a certification of the newest user id. `Identity.certify` decides whether it is
retained. -/
def certify (settings : ResolutionSettings) (k : Key) (c : Certification) :
    Except Misplacement Key :=
  match k.newestFirst with
  | [] => .error (.beforeAnyIdentity .sig k.keyId)
  | i :: rest => .ok { k with newestFirst := i.certify settings k.keyId c :: rest }

/-- Adds a revocation: of the key, or of a certification of the newest user id. Others say nothing
of the key, but before the first user id they are refused as well. What the `RevocationKind` is
decides between the cases. -/
def revoke (k : Key) (r : Revocation) : Except Misplacement Key :=
  match k.newestFirst with
  | [] => .error (.beforeAnyIdentity .rev k.keyId)
  | i :: rest =>
    match r.kind with
    | .key => .ok { k with revoker := some r.issuer }
    | .certification => .ok { k with newestFirst := i.revoke k.keyId r :: rest }
    | .subkey | .unknown _ => .ok k

/-- The user ids that count, as they are once revocations are applied. `Identity.commit` applies
them. -/
def liveIdentities (k : Key) : List Identity :=
  (k.identities.map Identity.commit).filter Identity.isLive

/-- One certification per issuer, out of all live user ids. `Holdings.offer` keeps the better one of
two, as it does within a user id. -/
def consolidated (settings : ResolutionSettings) (k : Key) : Holdings :=
  (k.liveIdentities.flatMap Identity.candidates).foldl (·.offer settings k.keyId ·) {}

/-- What settles the status: a revocation of the key, the flags of the dump, or whether a
self-certification is left. They are looked at in this order. -/
def settlingEvent (k : Key) (own : Option Certification) : KeyStatusEvent :=
  match k.revoker with
  | some issuer => if issuer = k.keyId then .revokedByOwner else .revokedByDesignatedRevoker
  | none =>
    if k.record.isFlaggedRevoked then .revokedByOwner
    else if k.record.isFlaggedExpired then .flaggedExpired
    else if own.isSome then .selfCertified
    else .noSelfCertification

end Key

/-! ### Keys whose records are complete -/

/-- A key that is complete. Nothing of it changes any more, but for its line in the table, which the
second pass may promote. `CommittedKey.statusLine` is that line. -/
structure CommittedKey where
  /-- What its `pub` record says. -/
  record : PubRecord
  /-- The status that it was settled to. -/
  status : KeyStatus
  /-- The number of live user ids. -/
  validIdentities : Nat
  /-- The issuer of the latest revocation of the key. -/
  revoker : Option KeyId
  /-- The latest certification of the owner that counts, out of all live user ids. -/
  selfCertification : Option Certification
  /-- One certification per issuer other than the key itself. -/
  certifications : Table KeyId Certification
  deriving DecidableEq

/-- Completes a key. Every settling event is possible for an unvalidated key, so the status that
stands in for an impossible one is never taken. `KeyStatus.transition` is asked all the same. -/
def Key.commit (settings : ResolutionSettings) (k : Key) : CommittedKey :=
  let held := k.consolidated settings
  { record := k.record
    status :=
      match KeyStatus.unvalidated.transition (k.settlingEvent held.own) with
      | .ok status => status
      | .error _ => .invalid
    validIdentities := k.liveIdentities.length
    revoker := k.revoker
    selfCertification := held.own
    certifications := held.byIssuer }

namespace CommittedKey

/-- The id of the key. A commit does not change the record. -/
def keyId (k : CommittedKey) : KeyId := k.record.keyId

/-- Valid, and certified by somebody else. These are the keys that the second pass takes
certifications from. -/
def isInteresting (k : CommittedKey) : Bool :=
  k.status = .valid && !k.certifications.isEmpty

/-- The line of the key in the key-status table. The user ids of a key are kept in memory, so that
they are fewer than a word counts, and `UInt64.ofNatClamp` cuts nothing off. -/
def statusLine (k : CommittedKey) : StatusLine :=
  { status := k.status
    keyId := k.keyId
    algorithm := k.record.algorithm
    bits := k.record.bits
    created := k.record.created
    expires := k.record.expires
    version := k.record.version
    validIdentities := .ofNatClamp k.validIdentities }

/-- The block of the edge corpus, which only interesting keys have. Its entries are ascending, as
`certifications` is a `Table`. -/
def edgeBlock (k : CommittedKey) : Option EdgeBlock :=
  if k.isInteresting then
    some ⟨k.keyId, k.certifications.values.map Certification.toSignature⟩
  else none

end CommittedKey

end WebOfTrust
