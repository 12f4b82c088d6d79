import Mathlib.Data.List.Induction
import WebOfTrust.Proofs.Policies

/-!
# `WebOfTrust.Proofs.CurrentKey`: what a state is by the calls before it

Of what a resolver keeps, two things decide how it answers: the current key, and the issuer that
policies belong to. Both can be told from the calls that it has answered. A `pub` record opens a
key, what follows belongs to it, and `finish` closes it, so the current key is the end of the calls,
from the latest `pub` record on. The issuer goes with the key: it is that of the last certification
among its records, and behind `finish` there is none.

- `Resolver.currentSegment_eq_some_iff`: the current key, as the end of the calls;
- `Resolver.Tracks`, `Resolver.Tracks.answer`: what a state is, and that each answer keeps it so;
- `Resolver.tracks_currentSegment`: what a state is behind a run.
-/

set_option autoImplicit false

namespace WebOfTrust

open Dump

namespace Resolver

variable {r r' : Resolver} {s : Option Segment} {call : Call} {calls : List Call}
  {key : Option CommittedKey}

/-! ### The current key -/

/-- The current key and its records behind a further call. It is told without settings and without
refusals, by the calls alone. -/
def Call.enter (s : Option Segment) : Call → Option Segment
  | .push (.pub record) => some ⟨record, []⟩
  | .push record => s.map fun s => { s with body := s.body ++ [record] }
  | .finish => none

/-- The current key behind calls, with the records that belong to it, subpackets included. It is
computed from the calls alone, by `Call.enter`, and `tracks_currentSegment` ties it to the
resolver. -/
def currentSegment (calls : List Call) : Option Segment := calls.foldl Call.enter none

/-- Behind no key, only a further one is current, whatever else is called. In particular `finish`
has no effect any more. -/
theorem foldl_enter_none {rest : List Call} (hpub : ∀ head, .push (.pub head) ∉ rest) :
    rest.foldl Call.enter none = none := by
  induction rest with
  | nil => rfl
  | cons call rest ih =>
    have hrest := ih fun head hmem => hpub head (List.mem_cons_of_mem _ hmem)
    rcases call with (head | _ | _ | _ | _) | _
    case push.pub => exact absurd List.mem_cons_self (hpub head)
    all_goals exact hrest

/-- A record that opens no key belongs to the current one. It is added behind the records that are
there. -/
theorem enter_push {t : Segment} {record : Record} (hrecord : ∀ head, record ≠ .pub head) :
    Call.enter (some t) (.push record) = some { t with body := t.body ++ [record] } := by
  cases record with
  | pub head => exact absurd rfl (hrecord head)
  | uid _ | sig _ | rev _ | spk _ => rfl

/-- A key that is still current behind other calls has taken their records, and there is no `finish`
among them. -/
theorem foldl_enter_some_iff {t u : Segment} {rest : List Call}
    (hpub : ∀ head, .push (.pub head) ∉ rest) : rest.foldl Call.enter (some t) = some u ↔
      ∃ records, rest = records.map .push ∧ u = { t with body := t.body ++ records } := by
  induction rest generalizing t with
  | nil =>
    constructor
    · intro h
      cases h
      exact ⟨[], rfl, by rw [List.append_nil]⟩
    · rintro ⟨records, hnil, rfl⟩
      rw [List.map_eq_nil_iff.1 hnil.symm, List.append_nil]
      rfl
  | cons call rest ih =>
    have hrest : ∀ head, .push (.pub head) ∉ rest :=
      fun head hmem => hpub head (List.mem_cons_of_mem _ hmem)
    cases call with
    | finish =>
      -- No key is current from here on, and the calls are not all records.
      rw [List.foldl_cons, Call.enter, foldl_enter_none hrest]
      refine iff_of_false (by simp) ?_
      rintro ⟨_ | _, hcalls, -⟩ <;> cases hcalls
    | push record =>
      have hrecord : ∀ head, record ≠ .pub head :=
        fun head heq => hpub head (heq ▸ List.mem_cons_self)
      rw [List.foldl_cons, enter_push hrecord, ih hrest]
      constructor
      · rintro ⟨records, rfl, rfl⟩
        exact ⟨record :: records, rfl, by simp⟩
      · rintro ⟨_ | ⟨record', records⟩, hcalls, rfl⟩
        · cases hcalls
        · cases hcalls
          exact ⟨records, rfl, by simp⟩

/-- The current key and its records are the end of the calls, from the latest `pub` record on. By
this a state is told by the place of a call in a run. -/
theorem currentSegment_eq_some_iff {t : Segment} :
    currentSegment calls = some t ↔ (∀ head, .pub head ∉ t.body) ∧
      ∃ before, calls = before ++ .push (.pub t.head) :: t.body.map .push := by
  constructor
  · intro h
    induction calls using List.reverseRecOn generalizing t with
    | nil => cases h
    | append_singleton calls call ih =>
      rw [currentSegment, List.foldl_concat, ← currentSegment] at h
      rcases call with (head | _ | _ | _ | _) | _
      case push.pub =>
        cases h
        exact ⟨by simp, calls, rfl⟩
      case finish => cases h
      all_goals
        -- The record is the last one of a key that was current before.
        obtain ⟨t, ht, rfl⟩ := Option.map_eq_some_iff.1 h
        obtain ⟨hpub, before, hcalls⟩ := ih ht
        refine ⟨by simpa using hpub, before, ?_⟩
        rw [hcalls]
        simp
  · rintro ⟨hpub, before, rfl⟩
    rw [currentSegment, List.foldl_append, List.foldl_cons, Call.enter,
      foldl_enter_some_iff (by simpa using hpub)]
    exact ⟨t.body, rfl, rfl⟩

/-! ### States -/

/-- The certifications among the records of a segment, in their order. The last one of them is whom
a policy belongs to. -/
def Segment.signatures (s : Segment) : List Signature :=
  s.body.filterMap fun
    | .sig signature => some signature
    | _ => none

/-- There are none if and only if no record is one. A policy is refused in that case. -/
theorem Segment.signatures_eq_nil_iff {t : Segment} :
    t.signatures = [] ↔ ∀ signature, .sig signature ∉ t.body := by
  rw [signatures, List.filterMap_eq_nil_iff]
  constructor
  · intro h signature hmem
    cases h _ hmem
  · intro h record hmem
    cases record with
    | sig signature => exact absurd hmem (h signature)
    | pub _ | uid _ | rev _ | spk _ => rfl

/-- The current key and the issuer that policies belong to, by the records of the key. It is the
invariant that relates a `Resolver` to the calls that it has answered. -/
structure Tracks (r : Resolver) (s : Option Segment) : Prop where
  /-- The current key is what its records make of it. -/
  current : r.current.map .ok = s.map (Segment.key r.settings)
  /-- Policies belong to the issuer of the last certification of the current key. -/
  lastIssuer : r.lastIssuer = s.bind fun s => s.signatures.getLast?.map Signature.issuer

/-- A further record is taken into the key that the records before it make. `Key.take` is the step
of the fold that makes the key. -/
theorem Segment.key_concat (settings : ResolutionSettings) (s : Segment) (record : Record) :
    Segment.key settings { s with body := s.body ++ [record] }
      = s.key settings >>= (·.take settings record) := by
  rw [Segment.key, List.foldlM_append]
  simp only [List.foldlM_cons, List.foldlM_nil, bind_pure]
  rfl

/-- The issuer that policies belong to changes with each certification, and with each key. It is
changed also by a certification that the settings leave out. -/
theorem lastIssuer_push {record : Record} (h : r.answer (.push record) = .ok (r', key)) :
    r'.lastIssuer =
      match record with
      | .pub _ => none
      | .sig signature => some signature.issuer
      | .uid _ | .rev _ | .spk _ => r.lastIssuer := by
  cases record with
  | pub record => exact congrArg (·.1.lastIssuer) (Except.ok.inj h).symm
  | uid record =>
    obtain ⟨-, k, -, rfl⟩ := push_uid_eq_ok.1 h
    rfl
  | sig signature =>
    obtain ⟨-, k, k', -, -, rfl⟩ := push_sig_eq_ok.1 h
    rfl
  | rev revocation =>
    obtain ⟨-, k, k', -, -, rfl⟩ := push_rev_eq_ok.1 h
    rfl
  -- A policy is laid to the issuer, who stays the same.
  | spk record =>
    obtain ⟨-, ⟨-, rfl⟩ | ⟨-, issuer, -, rfl⟩⟩ := push_spk_eq_ok.1 h <;> rfl

/-- The current key takes a record that does not open another one. A record that is refused leaves
it as it was, so success is assumed. -/
theorem current_push {record : Record} (hrecord : ∀ head, record ≠ .pub head)
    (h : r.answer (.push record) = .ok (r', key)) :
    r'.settings = r.settings ∧
      r'.current.map .ok = r.current.map (Key.take r.settings · record) := by
  cases record with
  | pub head => exact absurd rfl (hrecord head)
  | spk record =>
    obtain ⟨-, hs, -, -, hc⟩ := push_spk h
    exact ⟨hs, by rw [hc]; rfl⟩
  | uid record | sig signature | rev revocation =>
    obtain ⟨-, hs, -, -, k, k', hk, htake, hk'⟩ := push_own (fun _ => rfl) h
    exact ⟨hs, by rw [hk', hk, Option.map_some, Option.map_some, htake]⟩

/-- Whether there is a current key, and that it is what its records make of it. It is the form in
which `Tracks` is taken apart in proofs about single calls. -/
theorem Tracks.cases (hs : r.Tracks s) :
    (r.current = none ∧ s = none) ∨
      ∃ k t, r.current = some k ∧ s = some t ∧ t.key r.settings = .ok k := by
  have hcurrent := hs.current
  cases hk : r.current with
  | none =>
    rw [hk, Option.map_none, eq_comm, Option.map_eq_none_iff] at hcurrent
    exact .inl ⟨rfl, hcurrent⟩
  | some k =>
    rw [hk, Option.map_some, eq_comm, Option.map_eq_some_iff] at hcurrent
    obtain ⟨t, ht, hkey⟩ := hcurrent
    exact .inr ⟨k, t, rfl, ht, hkey⟩

/-- A record that is taken belongs to the current key from then on. The cases are those of `Record`,
and each is a lemma about `Key.take`. -/
theorem Tracks.push {record : Record} (hrecord : ∀ head, record ≠ .pub head) (hs : r.Tracks s)
    (h : r.answer (.push record) = .ok (r', key)) :
    r'.Tracks (s.map fun s => { s with body := s.body ++ [record] }) := by
  obtain ⟨hsettings, hcurrent⟩ := current_push hrecord h
  refine ⟨?current, ?lastIssuer⟩
  case current =>
    have htake := congrArg (Option.map (· >>= (Key.take r.settings · record))) hs.current
    rw [Option.map_map, Option.map_map] at htake
    rw [hcurrent, hsettings, Option.map_map]
    exact htake.trans (Option.map_congr fun s _ => (Segment.key_concat _ s record).symm)
  case lastIssuer =>
    rw [lastIssuer_push h]
    cases record with
    | pub head => exact absurd rfl (hrecord head)
    | sig signature =>
      obtain ⟨-, -, -, -, k, k', hk, -⟩ := push_own (fun _ => rfl) h
      obtain ⟨hnone, -⟩ | ⟨-, t, -, rfl, -⟩ := hs.cases
      · -- Without a current key, the certification would have been refused.
        rw [hnone] at hk
        cases hk
      · simp [Segment.signatures]
    | uid _ | rev _ | spk _ =>
      rw [hs.lastIssuer]
      cases s <;> simp [Segment.signatures]

/-- What a state is by the calls before it stays so behind one more. `Tracks.push` and the end,
which leaves no current key. -/
theorem Tracks.answer (hs : r.Tracks s) (h : r.answer call = .ok (r', key)) :
    r'.Tracks (call.enter s) := by
  rcases call with (record | record | signature | revocation | record) | _
  case finish =>
    obtain ⟨-, -, -, -, hc⟩ := finish_eq (Except.ok.inj h)
    refine ⟨by rw [hc]; rfl, ?_⟩
    -- The end forgets the issuer before it completes the key.
    have hissuer : r'.lastIssuer = { r with lastIssuer := none }.commitCurrent.1.lastIssuer :=
      congrArg (·.1.lastIssuer) (Except.ok.inj h).symm
    rw [hissuer, lastIssuer_commitCurrent]
    rfl
  case push.pub =>
    obtain ⟨-, -, -, -, hc⟩ := push_pub h
    exact ⟨by rw [hc]; rfl, lastIssuer_push h⟩
  all_goals exact hs.push (by simp) h

/-- Behind a run that is answered, a state is what its calls make of it. The induction is on the
calls, for any state to start from. -/
theorem Tracks.answerAll {keys : List CommittedKey} (hs : r.Tracks s)
    (h : r.answerAll calls = .ok (r', keys)) : r'.Tracks (calls.foldl Call.enter s) := by
  induction calls generalizing r s keys with
  | nil =>
    cases h
    exact hs
  | cons call calls ih =>
    obtain ⟨r₁, key, keys₁, hanswer, hrest, -⟩ := answerAll_cons h
    exact ih (hs.answer hanswer) hrest

/-- A run from the beginning leaves the state that `currentSegment` tells. -/
theorem tracks_currentSegment {settings : ResolutionSettings} {keys : List CommittedKey}
    (h : ({ settings } : Resolver).answerAll calls = .ok (r, keys)) :
    r.Tracks (currentSegment calls) :=
  Tracks.answerAll ⟨rfl, rfl⟩ h

end Resolver

end WebOfTrust
