import WebOfTrust.Keyring.Certification

/-!
# `WebOfTrust.Keyring.Identity`: user ids

A user id collects certifications and revocations of certifications. A revocation by the owner of
the key revokes the user id itself. One by somebody else is retained, the latest of each issuer, and
`Identity.commit` marks the certifications that are older than the revocation of their issuer.
-/

set_option autoImplicit false

namespace WebOfTrust

/-- A user id of a key, with what is retained of its certifications and revocations: of each
issuer at most one of either. `Holdings` keeps the certifications, and `revocations` is a table by
issuer. -/
structure Identity where
  /-- The text of the user id. Nothing is read off it. -/
  userId : String
  /-- Its owner revoked it. -/
  revoked : Bool := false
  holdings : Holdings := {}
  /-- The retained revocations, by issuer. -/
  revocations : Table KeyId Revocation := ∅
  deriving DecidableEq, Inhabited

namespace Identity

/-- Offers a certification to the user id. What becomes of it is decided by `Holdings.offer`. -/
def certify (settings : ResolutionSettings) (owner : KeyId) (i : Identity) (c : Certification) :
    Identity :=
  { i with holdings := i.holdings.offer settings owner c }

/-- Offers a revocation. That of the owner revokes the user id itself, and of others the newest one
is retained. `isNewer` compares the dates. -/
def revoke (owner : KeyId) (i : Identity) (r : Revocation) : Identity :=
  if r.issuer = owner then { i with revoked := true }
  else if isNewer ((i.revocations.find? r.issuer).map (·.date)) r.date then
    { i with revocations := i.revocations.insert r.issuer r }
  else i

/-- A certification as the retained revocation of its issuer leaves it. Only a date strictly before
that of the revocation is affected. -/
def settle (i : Identity) (c : Certification) : Certification :=
  match i.revocations.find? c.issuer with
  | some r => { c with revoked := c.revoked || c.date < r.date }
  | none => c

/-- Marks the certifications that are older than the retained revocation of their issuer. That of
the owner is left alone, as its revocation would have set `revoked`. -/
def commit (i : Identity) : Identity :=
  { i with
    holdings := { i.holdings with byIssuer := i.holdings.byIssuer.map fun _ c => i.settle c } }

/-- The certifications of others, by issuer. They come in the order of a `Table`. -/
def certifications (i : Identity) : List Certification := i.holdings.byIssuer.values

/-- The certification of an issuer other than the owner. The owner is no such issuer; its one is
`selfCertification`. -/
def certificationFrom (i : Identity) (issuer : KeyId) : Option Certification :=
  i.holdings.byIssuer.find? issuer

/-- The retained revocation of an issuer. `settle` compares a certification with it. -/
def revocationFrom (i : Identity) (issuer : KeyId) : Option Revocation :=
  i.revocations.find? issuer

/-- The certification of the owner. Whether there is one decides about `isLive`. -/
def selfCertification (i : Identity) : Option Certification := i.holdings.own

/-- Not revoked, and certified by its owner. `Key.liveIdentities` are those user ids. -/
def isLive (i : Identity) : Bool := !i.revoked && i.selfCertification.isSome

/-- What the identity contributes to its key: the owner's certification, then those of others.
`Key.consolidated` chooses among them. -/
def candidates (i : Identity) : List Certification :=
  i.selfCertification.toList ++ i.certifications

end Identity

end WebOfTrust
