import WebOfTrust.Tagged

/-!
# `WebOfTrust.KeyStatus`: what is known of a key

A key is unvalidated while its records arrive. The first pass settles its status from one event;
the second pass may promote a valid key to a certified one. No other transition exists.

- `KeyStatus.transition_eq_ok_iff`: the transitions, as a list;
- `KeyStatus.ofCode_code`: every status of a table is read back from its code.
-/

set_option autoImplicit false

namespace WebOfTrust

/-- The status of a key. It is settled once, when the key is complete, and may be promoted once
after that. `KeyStatus.transition` allows no more than that. -/
inductive KeyStatus where
  /-- The key still receives records. No table holds this status. -/
  | unvalidated
  /-- Some live user id carries a self-certification. -/
  | valid
  /-- Valid, and certified by an interesting key. -/
  | certified
  /-- The dump flags the key as expired. -/
  | expired
  /-- Revoked by its own key, or flagged as revoked by the dump. -/
  | revokedByOwner
  /-- Revoked by another key, which the owner designated. -/
  | revokedByDesignatedRevoker
  /-- No live user id carries a self-certification. -/
  | invalid
  deriving DecidableEq, Repr, Inhabited

/-- What settles the status of a key. The last one, `certifiedByInterestingKey`, belongs to the
second pass and promotes. -/
inductive KeyStatusEvent where
  | selfCertified
  | noSelfCertification
  | flaggedExpired
  | revokedByOwner
  | revokedByDesignatedRevoker
  | certifiedByInterestingKey
  deriving DecidableEq, Repr, Inhabited

/-- The status to which an event leads, where it is possible. It does not depend on the status
before. -/
def KeyStatusEvent.target : KeyStatusEvent → KeyStatus
  | selfCertified => .valid
  | noSelfCertification => .invalid
  | flaggedExpired => .expired
  | revokedByOwner => .revokedByOwner
  | revokedByDesignatedRevoker => .revokedByDesignatedRevoker
  | certifiedByInterestingKey => .certified

namespace KeyStatus

/-! ### Names and codes -/

/-- The name of a status, as JSON has it. Messages about a wrong `transition` use it, too. -/
def name : KeyStatus → String
  | unvalidated => "Unvalidated"
  | valid => "Valid"
  | certified => "Certified"
  | expired => "Expired"
  | revokedByOwner => "RevokedByOwner"
  | revokedByDesignatedRevoker => "RevokedByDesignatedRevoker"
  | invalid => "Invalid"

/-- Messages give the name as well. It is `KeyStatus.name`. -/
instance : ToString KeyStatus := ⟨name⟩

/-- A status carries no number. `Tagged` is shared with the algorithms, some of which do. -/
def tagged (s : KeyStatus) : Tagged := ⟨s.name, none⟩

/-- The code that the key-status table holds. `ofCode` reads all of them but that of
`unvalidated`. -/
def code : KeyStatus → String
  | unvalidated => "?"
  | valid => "V"
  | certified => "VC"
  | expired => "E"
  | revokedByOwner => "Ro"
  | revokedByDesignatedRevoker => "Rd"
  | invalid => "I"

/-- A text that is the code of no status in a table. `StatusLine.parse` wraps it into a
`Malformation`. -/
structure InvalidCode where
  code : String
  deriving DecidableEq, Repr

/-- The message of a text that is no code. It quotes the text. -/
def InvalidCode.message (e : InvalidCode) : String :=
  "invalid key status code: " ++ e.code

/-- Reads a code of the key-status table. A code is compared as a whole, in the spelling of
`code`. -/
def ofCode (s : String) : Except InvalidCode KeyStatus :=
  if s = "V" then .ok .valid
  else if s = "VC" then .ok .certified
  else if s = "E" then .ok .expired
  else if s = "Ro" then .ok .revokedByOwner
  else if s = "Rd" then .ok .revokedByDesignatedRevoker
  else if s = "I" then .ok .invalid
  else .error ⟨s⟩

/-- A settled status is read back from its code. An unvalidated one has a code for messages only.
That is why `s ≠ unvalidated` is asked for. -/
theorem ofCode_code {s : KeyStatus} (h : s ≠ unvalidated) : ofCode s.code = .ok s := by
  cases s <;> simp [ofCode, code] at h ⊢

/-! ### Transitions -/

/-- A transition that does not exist. `source` is the status before, `target` the one to which the
event would lead. -/
structure InvalidTransition where
  source : KeyStatus
  target : KeyStatus
  deriving DecidableEq, Repr

/-- The message of a transition that does not exist, with its two ends. The statuses are given by
`KeyStatus.name`. -/
def InvalidTransition.message (e : InvalidTransition) : String :=
  "invalid key status transition from " ++ e.source.name ++ " to " ++ e.target.name

/-- The status after an event. `transition_eq_ok_iff` lists what is possible. -/
def transition (s : KeyStatus) (e : KeyStatusEvent) : Except InvalidTransition KeyStatus :=
  match s, e with
  | unvalidated, .certifiedByInterestingKey => .error ⟨s, e.target⟩
  | unvalidated, _ => .ok e.target
  | valid, .certifiedByInterestingKey => .ok e.target
  | _, _ => .error ⟨s, e.target⟩

/-- Whether an event is possible. It is `transition`, without its result. -/
def canTransition (s : KeyStatus) (e : KeyStatusEvent) : Bool :=
  (s.transition e).isOk

/-- Whether no event is possible any more. All statuses but `unvalidated` and `valid` are final. -/
def isFinal : KeyStatus → Bool
  | unvalidated | valid => false
  | _ => true

/-- Whether reports count the key as valid. A `certified` key is one that was valid before its
promotion. -/
def isValid : KeyStatus → Bool
  | valid | certified => true
  | _ => false

/-- The transitions: an unvalidated key is settled by any event but a promotion, a valid one can
only be promoted. Proofs about a status use it and need not unfold `transition`. -/
theorem transition_eq_ok_iff {s t : KeyStatus} {e : KeyStatusEvent} :
    s.transition e = .ok t ↔ t = e.target ∧
      (s = unvalidated ∧ e ≠ .certifiedByInterestingKey ∨
        s = valid ∧ e = .certifiedByInterestingKey) := by
  cases s <;> cases e <;> simp [transition, eq_comm]

end KeyStatus

end WebOfTrust
