import WebOfTrust.ResolutionSettings
import WebOfTrust.Signature
import WebOfTrust.Table

/-!
# `WebOfTrust.Keyring.Certification`: which certifications are retained

Of the certifications that one issuer gives, the latest counts, and of two with one date the one
that came first. `Holdings` are the certifications retained so far: those of the owner of the key in
one place, those of others by issuer. `Holdings.offer` lets a further one in, unless the settings
leave it out.

- `Certification.ofSignature`: the certification that a `sig` record stands for;
- `Certification.isExcluded`: what the settings look at, which is more than the signature;
- `Holdings.offer`: one certification more.
-/

set_option autoImplicit false

namespace WebOfTrust

/-- A certification of a user id: a `Signature` with two marks. Neither is read off the signature
when the settings look at it, so a certification can be marked as `expired` whatever its flags say,
and it is marked as `revoked` only later. -/
structure Certification extends Signature where
  /-- The dump calls the certification expired. Where nothing else is said, the flags do. -/
  expired : Bool := toSignature.isExpired
  /-- A later revocation of the same issuer is retained. -/
  revoked : Bool := false
  deriving DecidableEq, Repr, Inhabited

/-- The certification that a `sig` record stands for: `expired` if its flags have the letter `e`,
and not `revoked`, since no revocation has been seen that could reach it. -/
def Certification.ofSignature (s : Signature) : Certification :=
  { toSignature := s, expired := s.isExpired, revoked := false }

/-- Whether the settings leave a certification out: for one of its two marks, or for its hash
algorithm. The marks count as they stand, whatever `Signature.isExpired` says of the flags. -/
def Certification.isExcluded (settings : ResolutionSettings) (c : Certification) : Bool :=
  (settings.excludeRevoked && c.revoked) || (settings.excludeExpired && c.expired) ||
    settings.isDeprecated c.hash

/-- Whether a record dated `candidate` takes the place of one dated `current`. -/
def isNewer (current : Option String) (candidate : String) : Bool :=
  match current with
  | none => true
  | some date => date < candidate

/-- Retained certifications. `Holdings.offer` keeps it that way: of each issuer at most one. -/
structure Holdings where
  /-- The one of the owner. -/
  own : Option Certification := none
  /-- Those of others. -/
  byIssuer : Table KeyId Certification := ∅
  deriving DecidableEq, Inhabited

/-- Offers a certification for the key `owner`: it is retained if it is not left out and newer than
what its issuer has given. -/
def Holdings.offer (settings : ResolutionSettings) (owner : KeyId) (h : Holdings)
    (c : Certification) : Holdings :=
  if c.isExcluded settings then h
  else if c.issuer = owner then
    if isNewer (h.own.map (·.date)) c.date then { h with own := some c } else h
  else
    if isNewer ((h.byIssuer.find? c.issuer).map (·.date)) c.date then
      { h with byIssuer := h.byIssuer.insert c.issuer c }
    else h

end WebOfTrust
