import WebOfTrust.Proofs.CurrentKey
import WebOfTrust.Proofs.Keyring.Status
import WebOfTrust.Proofs.Sections
import WebOfTrust.Resolver.InPlace

/-!
# `WebOfTrust.Proofs.Refusals`: a refused record leaves nothing behind

A resolver is changed bit by bit while it takes a record, so a refusal could come too late. It never
does: what a record needs is looked up before anything is changed (`Resolver.outcome_pushInPlace`).
Which records are refused can then be told from those that were taken before, as these give the
current key with what belongs to it.

- `Resolver.outcome_pushInPlace`: a record is taken as a whole or not at all;
- `Resolver.Tracks.push_eq_error_iff`: which records are refused, and why;
- `Resolver.refusals_leave_nothing`: what a run that goes on behind refusals comes to.
-/

set_option autoImplicit false

namespace WebOfTrust

open Dump

/-! ### All or nothing -/

/-- The outcome of a change that is made as a whole or not at all: an error comes with the state as
it was. -/
def wholly {σ α : Type} (line : Nat) (s : σ) :
    Except Misplacement (σ × α) → Except ResolutionError α × σ
  | .ok (s', a) => (.ok a, s')
  | .error cause => (.error (.structural line cause), s)

/-- Nothing is refused any more behind a change that is made as a whole or not at all. The program
has its checks first for this reason. -/
theorem Attempt.outcome_bind_wholly {σ α β : Type} {x : Attempt σ α} {f : α → Attempt σ β}
    {line : Nat} {s : σ} {y : Except Misplacement (σ × α)} (hx : x.outcome s = wholly line s y)
    (g : σ × α → σ × β) (hf : ∀ s' a, (f a).outcome s' = (.ok (g (s', a)).2, (g (s', a)).1)) :
    (x >>= f).outcome s = wholly line s (g <$> y) := by
  rw [outcome_bind, hx]
  cases y with
  | error cause => rfl
  | ok y => exact hf y.1 y.2

namespace Key

/-- A certification in place does what `Key.certify` does, or nothing. -/
theorem outcome_certifyInPlace (settings : ResolutionSettings) (line : Nat) (c : Certification)
    (k : Key) : (certifyInPlace settings line c).outcome k
      = wholly line k ((·, ()) <$> k.certify settings c) := by
  rw [certifyInPlace, certify, Attempt.outcome_bind, Attempt.outcome_get]
  cases hk : k.newestFirst with
  | nil => simp [hk, wholly]
  | cons i rest => simp [hk, wholly]

/-- A revocation in place does what `Key.revoke` does, or nothing. -/
theorem outcome_revokeInPlace (line : Nat) (r : Revocation) (k : Key) :
    (revokeInPlace line r).outcome k = wholly line k ((·, ()) <$> k.revoke r) := by
  rw [revokeInPlace, revoke, Attempt.outcome_bind, Attempt.outcome_get]
  cases hk : k.newestFirst with
  | nil => simp [hk, wholly]
  | cons i rest => cases r.kind <;> simp [hk, wholly]

/-- A certification is refused for one reason only: there is no user id yet. The error is
`Misplacement.beforeAnyIdentity`, with the id of the key. -/
theorem certify_eq_error {settings : ResolutionSettings} {k : Key} {c : Certification}
    {cause : Misplacement} (h : k.certify settings c = .error cause) :
    k.newestFirst = [] ∧ cause = .beforeAnyIdentity .sig k.keyId := by
  rw [certify] at h
  split at h
  · next hnone => exact ⟨hnone, (Except.error.inj h).symm⟩
  · cases h

/-- So is a revocation, of whatever kind it is. Even a revocation of the key itself has to come
behind a user id. -/
theorem revoke_eq_error {k : Key} {revocation : Revocation} {cause : Misplacement}
    (h : k.revoke revocation = .error cause) :
    k.newestFirst = [] ∧ cause = .beforeAnyIdentity .rev k.keyId := by
  rw [revoke] at h
  split at h
  · next hnone => exact ⟨hnone, (Except.error.inj h).symm⟩
  · split at h <;> cases h

end Key

namespace Resolver

/-- If the current key is changed as a whole or not at all, so is the resolver. -/
theorem outcome_changeCurrent (line : Nat) (kind : LineKind) (r : Resolver)
    (change : ResolutionSettings → Attempt Key Unit) (f : Key → Except Misplacement Key)
    (h : ∀ key, (change r.settings).outcome key = wholly line key ((·, ()) <$> f key)) :
    (changeCurrent line kind change).outcome r = wholly line r (do
      let key ← r.owner kind
      let key ← f key
      return ({ r with current := some key }, ())) := by
  rw [changeCurrent, Attempt.outcome_bind, Attempt.outcome_get, owner]
  cases hr : r.current with
  | none => simp [hr]; rfl
  | some key =>
    simp only [hr, h, Attempt.outcome_bind, Attempt.outcome_modify, Attempt.outcome_liftExcept,
      except_bind_ok]
    cases hf : f key with
    | ok key' => rfl
    | error cause =>
      -- The key that is put back is the one that was current before.
      have hback : { r with current := some key } = r := by rw [← hr]
      exact congrArg (Prod.mk _) hback

/-- To complete the current key in place does what `commitCurrent` does. -/
theorem outcome_commitInPlace (r : Resolver) :
    commitInPlace.outcome r = (.ok r.commitCurrent.2, r.commitCurrent.1) := by
  rw [commitInPlace, Attempt.outcome_bind, Attempt.outcome_get, commitCurrent]
  cases hr : r.current with
  | none => simp [hr]
  | some key =>
    cases hi : (key.commit r.settings).isInteresting with
    | true => simp [hr, hi, Attempt.outcome_bind]
    | false => simp [hr, hi, Attempt.outcome_bind]

/-- A record is taken as a whole or not at all. The cases are the kinds of records; each is either a
change that cannot fail, or a check with one change behind it. -/
theorem outcome_pushInPlace (line : Nat) (record : Record) (r : Resolver) :
    (pushInPlace line record).outcome r = wholly line r (r.push record) := by
  cases record with
  | pub record => simp [pushInPlace, push, wholly, outcome_commitInPlace, Attempt.outcome_bind]
  | uid record =>
    have hadd := outcome_changeCurrent line .uid r
      (fun _ => modify (·.addIdentity { userId := record.userId }))
      (fun key => .ok (key.addIdentity { userId := record.userId })) fun _ => rfl
    refine (Attempt.outcome_bind_wholly hadd (fun x => (x.1, none)) fun _ _ => ?_).trans ?_
    · rfl
    · rw [push]
      cases r.owner .uid <;> rfl
  | sig signature =>
    -- The key is changed first, and then the issuer, which cannot fail.
    have hcertify := outcome_changeCurrent line .sig r
      (fun settings => Key.certifyInPlace settings line (.ofSignature signature))
      (fun key => key.certify r.settings (.ofSignature signature))
      (Key.outcome_certifyInPlace r.settings line (.ofSignature signature))
    refine (Attempt.outcome_bind_wholly hcertify
      (fun x => ({ x.1 with lastIssuer := some signature.issuer }, none)) fun _ _ => ?_).trans ?_
    · rfl
    · rw [push]
      simp only [map_bind, map_pure]
  | rev revocation =>
    have hrevoke := outcome_changeCurrent line .rev r
      (fun _ => Key.revokeInPlace line revocation) (fun key => key.revoke revocation)
      (Key.outcome_revokeInPlace line revocation)
    refine (Attempt.outcome_bind_wholly hrevoke (fun x => (x.1, none)) fun _ _ => ?_).trans ?_
    · rfl
    · rw [push]
      simp only [map_bind, map_pure]
  -- Nothing is changed before the last check, so there is nothing to undo.
  | spk record =>
    cases hkind : record.isPolicyUri with
    | false => simp [pushInPlace, push, wholly, hkind]
    | true =>
      cases hissuer : r.lastIssuer with
      | none => simp [pushInPlace, push, wholly, hkind, hissuer, Attempt.outcome_bind]
      | some issuer => simp [pushInPlace, push, wholly, hkind, hissuer, Attempt.outcome_bind]

/-- To end in place does what `finish` does, and is never refused. -/
theorem outcome_finishInPlace (r : Resolver) :
    finishInPlace.outcome r = (.ok r.finish.2, r.finish.1) := by
  rw [finishInPlace, Attempt.outcome_bind, Attempt.outcome_modify]
  exact outcome_commitInPlace _

/-! ### Which records are refused -/

variable {r : Resolver} {s : Option Segment}

/-- A record that is out of place behind a current key with its records, and why. There is a case
for each refusal of the program. -/
inductive Misplaced (current : Option Segment) : Record → Misplacement → Prop
  | uid (record : UidRecord) (h : current = none) :
    Misplaced current (.uid record) (.beforeAnyKey .uid)
  | sig (signature : Signature) (h : current = none) :
    Misplaced current (.sig signature) (.beforeAnyKey .sig)
  | rev (revocation : Revocation) (h : current = none) :
    Misplaced current (.rev revocation) (.beforeAnyKey .rev)
  | sigOfNothing (signature : Signature) (s : Segment) (h : current = some s)
    (huid : ∀ record, .uid record ∉ s.body) :
    Misplaced current (.sig signature) (.beforeAnyIdentity .sig s.head.keyId)
  | revOfNothing (revocation : Revocation) (s : Segment) (h : current = some s)
    (huid : ∀ record, .uid record ∉ s.body) :
    Misplaced current (.rev revocation) (.beforeAnyIdentity .rev s.head.keyId)
  /-- Behind no key there is no certification of it either. -/
  | policyOfNothing (record : SpkRecord) (hkind : record.isPolicyUri = true)
    (hsig : ∀ s ∈ current, ∀ signature, .sig signature ∉ s.body) :
    Misplaced current (.spk record) .policyUriBeforeSignature

/-- A key has no user ids if and only if none of its records begins one. It turns the condition of
`certify_eq_error` into one on records. -/
theorem Segment.newestFirst_eq_nil_iff {settings : ResolutionSettings} {t : Segment} {k : Key}
    (h : t.key settings = .ok k) : k.newestFirst = [] ↔ ∀ record, .uid record ∉ t.body := by
  rw [Key.newestFirst_foldlM_take h, List.map_eq_nil_iff, Identity.segments_eq_nil_iff]

/-- The id of a key is that of the record that opened it, which errors name. `Misplacement.message`
shows it. -/
theorem Segment.keyId_of_key {settings : ResolutionSettings} {t : Segment} {k : Key}
    (h : t.key settings = .ok k) : k.keyId = t.head.keyId :=
  congrArg PubRecord.keyId (Key.record_foldlM_take h)

/-- Policies belong to nobody if and only if the current key has no certification among its
records. -/
theorem Tracks.lastIssuer_eq_none_iff (hs : r.Tracks s) :
    r.lastIssuer = none ↔ ∀ t ∈ s, ∀ signature, .sig signature ∉ t.body := by
  rw [hs.lastIssuer]
  cases s with
  | none => simp
  | some t =>
    simp only [Option.bind_some, Option.map_eq_none_iff, List.getLast?_eq_none_iff,
      Segment.signatures_eq_nil_iff, Option.mem_def, Option.some.injEq, forall_eq']

/-- A record that is out of place is refused, for the reason that `Misplaced` gives. -/
theorem Misplaced.push_eq_error {record : Record} {cause : Misplacement} (hs : r.Tracks s)
    (h : Misplaced s record cause) : r.push record = .error cause := by
  cases h with
  | uid record hnone | sig signature hnone | rev revocation hnone =>
    obtain ⟨hr, -⟩ | ⟨k, t, -, ht, -⟩ := hs.cases
    · simp only [Resolver.push, owner, hr]
      rfl
    · rw [hnone] at ht
      cases ht
  -- There is a current key, but it has no user id.
  | sigOfNothing signature t ht huid | revOfNothing revocation t ht huid =>
    obtain ⟨-, hnone⟩ | ⟨k, t', hk, ht', hkey⟩ := hs.cases
    · rw [hnone] at ht
      cases ht
    · obtain rfl := Option.some.inj (ht.symm.trans ht')
      rw [← Segment.keyId_of_key hkey]
      simp only [Resolver.push, owner, hk, except_bind_ok, Key.certify, Key.revoke,
        (Segment.newestFirst_eq_nil_iff hkey).2 huid]
      rfl
  | policyOfNothing record hkind hsig =>
    simp only [Resolver.push, hkind, hs.lastIssuer_eq_none_iff.2 hsig, if_true]

/-- A record that belongs to the current key is refused because there is none, or by that key. -/
theorem Tracks.of_owner_bind_eq_error {α : Type} {kind : LineKind} {cause : Misplacement}
    {f : Key → Except Misplacement α} (hs : r.Tracks s) (h : r.owner kind >>= f = .error cause) :
    (s = none ∧ cause = .beforeAnyKey kind) ∨
      ∃ k t, s = some t ∧ t.key r.settings = .ok k ∧ f k = .error cause := by
  obtain ⟨hr, rfl⟩ | ⟨k, t, hk, rfl, hkey⟩ := hs.cases
  · rw [owner, hr] at h
    exact .inl ⟨rfl, (Except.error.inj h).symm⟩
  · rw [owner, hk] at h
    exact .inr ⟨k, t, rfl, hkey, h⟩

/-- A record that is refused is out of place, the converse of `Misplaced.push_eq_error`. -/
theorem Tracks.misplaced {record : Record} {cause : Misplacement} (hs : r.Tracks s)
    (h : r.push record = .error cause) : Misplaced s record cause := by
  cases record with
  | pub record => cases h
  -- Only a policy can be misplaced, and only for want of a signature.
  | spk record =>
    simp only [Resolver.push] at h
    split at h
    · next hkind =>
      split at h
      · cases h
      · next hnone =>
        rw [← Except.error.inj h]
        exact .policyOfNothing record hkind (hs.lastIssuer_eq_none_iff.1 hnone)
    · cases h
  -- Only a missing key can be the cause.
  | uid record =>
    obtain ⟨rfl, rfl⟩ | ⟨k, t, rfl, hkey, hrefused⟩ := hs.of_owner_bind_eq_error h
    · exact .uid record rfl
    · cases hrefused
  | sig signature =>
    obtain ⟨rfl, rfl⟩ | ⟨k, t, rfl, hkey, hrefused⟩ := hs.of_owner_bind_eq_error h
    · exact .sig signature rfl
    · obtain hrefused | ⟨_, -, hdone⟩ := except_bind_eq_error.1 hrefused
      · obtain ⟨hnone, rfl⟩ := Key.certify_eq_error hrefused
        rw [Segment.keyId_of_key hkey]
        exact .sigOfNothing signature t rfl ((Segment.newestFirst_eq_nil_iff hkey).1 hnone)
      · cases hdone
  | rev revocation =>
    obtain ⟨rfl, rfl⟩ | ⟨k, t, rfl, hkey, hrefused⟩ := hs.of_owner_bind_eq_error h
    · exact .rev revocation rfl
    · obtain hrefused | ⟨_, -, hdone⟩ := except_bind_eq_error.1 hrefused
      · obtain ⟨hnone, rfl⟩ := Key.revoke_eq_error hrefused
        rw [Segment.keyId_of_key hkey]
        exact .revOfNothing revocation t rfl ((Segment.newestFirst_eq_nil_iff hkey).1 hnone)
      · cases hdone

/-- Which records are refused, and why. `Misplaced` lists the reasons in terms of the current
segment. -/
theorem Tracks.push_eq_error_iff {record : Record} {cause : Misplacement} (hs : r.Tracks s) :
    r.push record = .error cause ↔ Misplaced s record cause :=
  ⟨hs.misplaced, Misplaced.push_eq_error hs⟩

/-! ### Runs that go on -/

/-- Answers a call in place. A record has the line `line`, which goes into the error of a
refusal. -/
def answerInPlace (line : Nat) : Call → Attempt Resolver (Option CommittedKey)
  | .push record => pushInPlace line record
  | .finish => finishInPlace

/-- A call in place does what `answer` does, or nothing. -/
theorem outcome_answerInPlace (line : Nat) (call : Call) (r : Resolver) :
    (answerInPlace line call).outcome r = wholly line r (r.answer call) := by
  cases call with
  | push record => exact outcome_pushInPlace line record r
  | finish => exact outcome_finishInPlace r

/-- A run that goes on behind refusals, with what they have left. `taken` lists the calls that were
not refused, so that they can be given to a new resolver. -/
structure PatientRun where
  /-- The resolver as the last call has left it, refused or not. -/
  resolver : Resolver
  /-- The calls that were not refused, with their lines. -/
  taken : List (Nat × Call) := []
  /-- The keys that were handed back. -/
  keys : List CommittedKey := []

/-- The run behind one more call. A refused call leaves whatever state the attempt has left. The
attempt is that of `pushInPlace`, which could have changed something on the way. -/
def PatientRun.answer (run : PatientRun) (call : Nat × Call) : PatientRun :=
  match (answerInPlace call.1 call.2).outcome run.resolver with
  | (.ok key, r) => ⟨r, run.taken ++ [call], run.keys ++ key.toList⟩
  | (.error _, r) => { run with resolver := r }

/-- The run over calls, each with a line, from a new resolver. The settings are those of the
resolver, and nothing else is given. -/
def patientRun (settings : ResolutionSettings) (calls : List (Nat × Call)) : PatientRun :=
  calls.foldl PatientRun.answer { resolver := { settings } }

/-- A call that is refused might as well not have been made. That `pushInPlace` undoes nothing makes
this a theorem and not a definition. -/
theorem PatientRun.answer_eq (run : PatientRun) (call : Nat × Call) :
    run.answer call =
      match run.resolver.answer call.2 with
      | .ok (r, key) => ⟨r, run.taken ++ [call], run.keys ++ key.toList⟩
      | .error _ => run := by
  rw [PatientRun.answer, outcome_answerInPlace]
  cases run.resolver.answer call.2 <;> rfl

/-- What refusals leave behind, which is nothing: what is refused next depends on the calls that
were taken, and the run over those alone comes to the same. -/
structure Unharmed (settings : ResolutionSettings) (run : PatientRun) : Prop where
  /-- A record is refused if it is out of place, with its line and the reason. -/
  refuses : ∀ line record e, ((pushInPlace line record).outcome run.resolver).1 = .error e ↔
    ∃ cause, Misplaced (currentSegment (run.taken.map Prod.snd)) record cause ∧
      e = .structural line cause
  /-- A refused record leaves the resolver as it was, in every field. -/
  keeps : ∀ line record e r', (pushInPlace line record).outcome run.resolver = (.error e, r') →
    r' = run.resolver
  /-- None of the calls that were taken is refused in a run of its own. -/
  answered : ({ settings } : Resolver).answerAll (run.taken.map Prod.snd)
    = .ok (run.resolver, run.keys)
  /-- The run over the calls that were taken has no refusal and comes to the same state. -/
  alone : patientRun settings run.taken = run

/-- A run is unharmed if its taken calls are answered and are all there is of it. -/
theorem unharmed_of_answered {settings : ResolutionSettings} {run : PatientRun}
    (hanswered : ({ settings } : Resolver).answerAll (run.taken.map Prod.snd)
      = .ok (run.resolver, run.keys))
    (halone : patientRun settings run.taken = run) : Unharmed settings run where
  refuses line record e := by
    have htracks := tracks_currentSegment hanswered
    simp only [outcome_pushInPlace, ← htracks.push_eq_error_iff]
    cases run.resolver.push record with
    | ok a => simp [wholly]
    | error cause => simp [wholly, eq_comm]
  keeps line record e r' h := by
    rw [outcome_pushInPlace] at h
    cases hpush : run.resolver.push record with
    | ok a =>
      rw [hpush] at h
      cases h
    | error cause =>
      rw [hpush] at h
      exact (congrArg Prod.snd h).symm
  answered := hanswered
  alone := halone

/-- A refused record leaves the resolver as it was. So a run that goes on behind refusals comes to
the keys, and to the first pass, of the run over what was taken. -/
theorem refusals_leave_nothing (settings : ResolutionSettings) (calls : List (Nat × Call)) :
    Unharmed settings (patientRun settings calls) := by
  induction calls using List.reverseRecOn with
  | nil => exact unharmed_of_answered rfl rfl
  | append_singleton calls call ih =>
    have hrun : patientRun settings (calls ++ [call])
        = (patientRun settings calls).answer call := List.foldl_concat ..
    rw [hrun, PatientRun.answer_eq]
    -- A call that is refused leaves the run as it is, so the hypothesis is enough.
    cases hanswer : (patientRun settings calls).resolver.answer call.2 with
    | error cause => exact ih
    | ok a =>
      refine unharmed_of_answered ?answered ?alone
      case answered =>
        rw [List.map_append]
        exact answerAll_append_eq_ok.2
          ⟨_, _, _, ih.answered, answerAll_cons_eq_ok hanswer rfl, by simp⟩
      case alone =>
        have hconcat : patientRun settings ((patientRun settings calls).taken ++ [call])
            = (patientRun settings (patientRun settings calls).taken).answer call :=
          List.foldl_concat ..
        rw [hconcat, ih.alone, PatientRun.answer_eq, hanswer]

/-- Four records are out of place: before every key, before every user id, before every
certification, and behind the end. -/
example :
    let record : PubRecord := ⟨"", 1024, .dsa, .ofText "AA", "2000-01-01", "", 4⟩
    let sig : Call := .push (.sig ⟨.ofText "AA", "2001-01-01", "", "", .generic, .dsa, .sha1, 4⟩)
    let policy : Call := .push (.spk ⟨26, 0, 1, "a"⟩)
    let run := patientRun {} [(1, sig), (2, .push (.pub record)), (3, sig), (4, .push (.uid ⟨"A"⟩)),
      (5, policy), (6, sig), (7, policy), (8, .finish), (9, policy)]
    run.taken.map Prod.fst = [2, 4, 6, 7, 8] ∧ run.keys.map CommittedKey.status = [.valid] := by
  decide +kernel

end Resolver

end WebOfTrust
