import WebOfTrust.Resolver

/-!
# `WebOfTrust.Resolver.InPlace`: a resolver that is changed bit by bit

A resolver is one object, and a record changes it in several places: the current key, the newest
user id of that key, the issuer that policies belong to, the table of policies. A refusal in between
does not undo what has been done by then. So here a record is taken field by field, in the order in
which that happens, and whoever goes on behind a refusal goes on with what it has left.

- `Key.certifyInPlace`, `Key.revokeInPlace`: what happens within the current key;
- `Resolver.pushInPlace`, `Resolver.finishInPlace`: one record, and the end.
-/

set_option autoImplicit false

namespace WebOfTrust

open Dump

/-- Changes of a state that may be refused on the way. What has been changed by then stays so. The
transformer is `ExceptT` over `StateM` and not the other way round for that reason. -/
abbrev Attempt (σ α : Type) : Type := ExceptT ResolutionError (StateM σ) α

namespace Attempt

variable {σ α β : Type}

/-- What an attempt gives, and the state that it leaves. The lemmas below compute it, one for each
operation. -/
def outcome (x : Attempt σ α) (s : σ) : Except ResolutionError α × σ := (ExceptT.run x).run s

/-- A value is given, and nothing is changed. It is the case of `pure`. -/
@[simp] theorem outcome_pure (a : α) (s : σ) : outcome (pure a) s = (.ok a, s) := rfl

/-- An error leaves the state as it is at that time. What was changed before stays. -/
@[simp] theorem outcome_throw (e : ResolutionError) (s : σ) :
    outcome (throw e : Attempt σ α) s = (.error e, s) := rfl

/-- The state is read. Nothing is changed by that. -/
@[simp] theorem outcome_get (s : σ) : outcome get s = (.ok s, s) := rfl

/-- The state is replaced. The old state `s` is lost. -/
@[simp] theorem outcome_set (t s : σ) : outcome (set t : Attempt σ PUnit) s = (.ok ⟨⟩, t) := rfl

/-- The state is changed. It cannot fail. -/
@[simp] theorem outcome_modify (f : σ → σ) (s : σ) : outcome (modify f) s = (.ok ⟨⟩, f s) := rfl

/-- A result from elsewhere does not touch the state. So checks that need no state are shared with
`Resolver.push`. -/
@[simp] theorem outcome_liftExcept (x : Except ResolutionError α) (s : σ) :
    outcome (liftExcept x) s = (x, s) := by
  cases x <;> rfl

/-- One attempt after another. If the first one fails, the second one is not made, and what the
first one changed stays. Proofs go through a `do` block step by step with it. -/
theorem outcome_bind (x : Attempt σ α) (f : α → Attempt σ β) (s : σ) :
    outcome (x >>= f) s =
      match x.outcome s with
      | (.ok a, s') => (f a).outcome s'
      | (.error e, s') => (.error e, s') := by
  rw [outcome, ExceptT.run_bind, StateT.run_bind, outcome]
  generalize (ExceptT.run x).run s = o
  rcases o with ⟨_ | _, _⟩ <;> rfl

/-- A result is turned into another one, whatever the state is. Neither errors nor states are
affected. -/
@[simp] theorem outcome_map (f : α → β) (x : Attempt σ α) (s : σ) :
    outcome (f <$> x) s = (f <$> (x.outcome s).1, (x.outcome s).2) := by
  rw [map_eq_pure_bind, outcome_bind]
  rcases x.outcome s with ⟨_ | _, _⟩ <;> rfl

end Attempt

namespace Key

/-- Adds a certification of the newest user id. It is `Key.certify` as assignments. -/
def certifyInPlace (settings : ResolutionSettings) (line : Nat) (c : Certification) :
    Attempt Key Unit := do
  let key ← get
  match key.newestFirst with
  | [] => throw (.structural line (.beforeAnyIdentity .sig key.keyId))
  | i :: rest => set { key with newestFirst := i.certify settings key.keyId c :: rest }

/-- Adds a revocation: of the key, or of a certification of the newest user id. It is `Key.revoke`
as assignments, where the check for user ids comes first for all kinds. -/
def revokeInPlace (line : Nat) (r : Revocation) : Attempt Key Unit := do
  let key ← get
  if key.newestFirst.isEmpty then
    throw (.structural line (.beforeAnyIdentity .rev key.keyId))
  match r.kind with
  | .key => modify fun key => { key with revoker := some r.issuer }
  | .certification =>
    match key.newestFirst with
    | [] => return ()
    | i :: rest => set { key with newestFirst := i.revoke key.keyId r :: rest }
  | .subkey | .unknown _ => return ()

end Key

namespace Resolver

/-- Changes the current key. Whatever becomes of it is the current key from then on. A refusal in
`change` leaves the key as `change` has left it, and is passed on. -/
def changeCurrent (line : Nat) (kind : LineKind) (change : ResolutionSettings → Attempt Key Unit) :
    Attempt Resolver Unit := do
  let r ← get
  match r.current with
  | none => throw (.structural line (.beforeAnyKey kind))
  | some key =>
    let (result, key) := (change r.settings).outcome key
    modify fun r => { r with current := some key }
    liftExcept result

/-- Completes the current key. It is `Resolver.commitCurrent` as assignments. -/
def commitInPlace : Attempt Resolver (Option CommittedKey) := do
  match (← get).current with
  | none => return none
  | some key =>
    modify fun r => { r with current := none }
    let committed := key.commit (← get).settings
    if committed.isInteresting then
      modify fun r => { r with interesting := r.interesting.add committed.keyId }
    return some committed

/-- Takes the record of a line, and completes the key before a further one. `outcome_pushInPlace`
compares it with `Resolver.push`. -/
def pushInPlace (line : Nat) : Record → Attempt Resolver (Option CommittedKey)
  | .pub record => do
    let committed ← commitInPlace
    modify fun r => { r with current := some { record } }
    modify fun r => { r with lastIssuer := none }
    modify fun r => { r with keys := r.keys + 1 }
    return committed
  | .uid record => do
    changeCurrent line .uid fun _ => modify (·.addIdentity { userId := record.userId })
    return none
  | .sig signature => do
    changeCurrent line .sig fun settings =>
      Key.certifyInPlace settings line (.ofSignature signature)
    modify fun r => { r with lastIssuer := some signature.issuer }
    return none
  | .rev revocation => do
    changeCurrent line .rev fun _ => Key.revokeInPlace line revocation
    return none
  | .spk record => do
    if !record.isPolicyUri then return none
    match (← get).lastIssuer with
    | none => throw (.structural line .policyUriBeforeSignature)
    | some issuer =>
      modify fun r => { r with policyUris := r.policyUris.add ⟨issuer, record.data⟩ }
      return none

/-- Completes the last key. `outcome_finishInPlace` compares it with `Resolver.finish`. -/
def finishInPlace : Attempt Resolver (Option CommittedKey) := do
  modify fun r => { r with lastIssuer := none }
  commitInPlace

end Resolver

end WebOfTrust
