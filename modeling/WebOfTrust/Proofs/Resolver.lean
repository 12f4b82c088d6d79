import WebOfTrust.Proofs.Keyring.Key
import WebOfTrust.Resolver

/-!
# `WebOfTrust.Proofs.Resolver`: one key at a time

A resolver answers calls, and its state carries over from each of them to the next. What it hands
back can be told without that state: the calls are cut into segments, one for each key, and each
segment is folded into a key by itself. `Resolver.owed` is what links the two readings. It says of a
state and the calls to come which keys are still to be handed back, and every answer takes from its
front what it hands back.

- `Resolver.push_uid_eq_ok`, `Resolver.push_sig_eq_ok`, `Resolver.push_rev_eq_ok`,
  `Resolver.push_spk_eq_ok`: when a record is accepted, and all that it changes then;
- `Resolver.owed_answer`: one answer;
- `Resolver.answerAll_eq_owed`: a run that ends with `finish`;
- `Resolver.answerAll_segments`: such a run hands back one key per segment, and nothing else.
-/

set_option autoImplicit false

namespace WebOfTrust

open Dump

/-! ### Segments -/

namespace Resolver

/-- What is asked of a resolver: to take a record, or to end. A run may end several times and go
on. -/
inductive Call where
  | push (record : Record)
  | finish
  deriving DecidableEq, Repr

/-- A key and the records that belong to it, as far as they are its own: subpackets are left out. -/
structure Segment where
  /-- The record that opens the key. -/
  head : PubRecord
  /-- What comes behind it, up to the next key or the end. -/
  body : List Record
  deriving DecidableEq, Repr

/-- The key of a segment, before it is complete. It fails at the first record that is out of
place. -/
def Segment.key (settings : ResolutionSettings) (s : Segment) : Except Misplacement Key :=
  s.body.foldlM (Key.take settings) { record := s.head }

/-- The key of a segment, completed. It is told by the segment and the settings, and by nothing else
in the run. -/
def Segment.commit (settings : ResolutionSettings) (s : Segment) :
    Except Misplacement CommittedKey :=
  (Key.commit settings) <$> s.key settings

/-- The user ids, certifications and revocations before the next key or the next `finish`. They are
what the current key is still to take. -/
def ownRecords : List Call → List Record
  | [] => []
  | .finish :: _ => []
  | .push (.pub _) :: _ => []
  | .push (.spk _) :: calls => ownRecords calls
  | .push (.uid record) :: calls => .uid record :: ownRecords calls
  | .push (.sig signature) :: calls => .sig signature :: ownRecords calls
  | .push (.rev revocation) :: calls => .rev revocation :: ownRecords calls

/-- The keys that calls push, each with its own records. What stands before the first key belongs to
none. -/
def segments : List Call → List Segment
  | [] => []
  | .push (.pub record) :: calls => ⟨record, ownRecords calls⟩ :: segments calls
  | _ :: calls => segments calls

/-- The record of a key, if a call pushes one. It tells where segments begin. Everything between two
of them is one `Segment`. -/
def Call.pub? : Call → Option PubRecord
  | .push (.pub record) => some record
  | _ => none

/-- There is a segment for each key that is pushed, in their order. The number of keys of a run is
read off it. -/
theorem head_segments (calls : List Call) :
    (segments calls).map Segment.head = calls.filterMap Call.pub? := by
  fun_induction segments calls with
  | case1 => rfl
  | case2 record calls ih => simp [Call.pub?, ih]
  | case3 call calls hcall ih =>
    have hnone : call.pub? = none := by
      rcases call with (_ | _ | _ | _ | _) | _
      · exact absurd rfl (hcall _)
      all_goals rfl
    rw [List.filterMap_cons_none hnone, ih]

/-- A completed key has the record of the one that was opened. `Key.take` never changes it. -/
theorem Segment.record_commit {settings : ResolutionSettings} {s : Segment} {c : CommittedKey}
    (h : s.commit settings = .ok c) : c.record = s.head := by
  obtain ⟨k, hk, rfl⟩ := except_map_eq_ok.1 h
  exact Key.record_foldlM_take hk

/-! ### Calls one by one -/

/-- Answers a call: with the resolver from then on and a key that is complete now, or with the
reason of a refusal. -/
def answer (r : Resolver) : Call → Except Misplacement (Resolver × Option CommittedKey)
  | .push record => r.push record
  | .finish => .ok r.finish

/-- Answers calls one after the other, with the keys that are handed back. It stops at the first
refusal. -/
def answerAll (r : Resolver) : List Call → Except Misplacement (Resolver × List CommittedKey)
  | [] => .ok (r, [])
  | call :: calls => do
    let (r, key) ← r.answer call
    let (r, keys) ← r.answerAll calls
    return (r, key.toList ++ keys)

/-- The keys that are still to be handed back: the current one with the records that are to come,
and those of the segments that are to come. It is what `answerAll` is compared with, for a resolver
in any state. -/
def owed (r : Resolver) (calls : List Call) : Except Misplacement (List CommittedKey) :=
  match r.current with
  | none => (segments calls).mapM (Segment.commit r.settings)
  | some key => do
    let key ← (ownRecords calls).foldlM (Key.take r.settings) key
    let rest ← (segments calls).mapM (Segment.commit r.settings)
    return key.commit r.settings :: rest

/-- Without a current key only the segments are owed. `owed` are the keys that a run is still to
hand back. -/
theorem owed_none {r : Resolver} (h : r.current = none) (calls : List Call) :
    r.owed calls = (segments calls).mapM (Segment.commit r.settings) := by
  simp only [owed, h]

/-- A current key is owed first, with the records that it is still to take. `ownRecords` are these
records. -/
theorem owed_some {r : Resolver} {key : Key} (h : r.current = some key) (calls : List Call) :
    r.owed calls = (do
      let key ← (ownRecords calls).foldlM (Key.take r.settings) key
      let rest ← (segments calls).mapM (Segment.commit r.settings)
      return key.commit r.settings :: rest) := by
  simp only [owed, h]

/-- What an answer does besides the key that it hands back. The policies are told elsewhere, as the
lines of keys do not depend on them. -/
structure Answered (r r' : Resolver) (call : Call) (key : Option CommittedKey) : Prop where
  /-- The settings stay those of the start. -/
  settings : r'.settings = r.settings
  /-- A key is counted when it is pushed, not when it is completed. -/
  keys : r'.keys = r.keys + call.pub?.toList.length
  /-- A key joins the interesting ones when it is handed back. -/
  interesting : ∀ id, id ∈ r'.interesting ↔
    id ∈ r.interesting ∨ ∃ k ∈ key, k.isInteresting = true ∧ k.keyId = id

/-- To complete the current key does not touch the settings. It is one of the frame lemmas of
`commitCurrent`, one per field. -/
@[simp] theorem settings_commitCurrent (r : Resolver) :
    r.commitCurrent.1.settings = r.settings := by
  simp only [commitCurrent]
  split <;> rfl

/-- To complete the current key does not count it, as it was counted when it came. `Resolver.keys`
is increased by `push` for a `pub` record. -/
@[simp] theorem keys_commitCurrent (r : Resolver) : r.commitCurrent.1.keys = r.keys := by
  simp only [commitCurrent]
  split <;> rfl

/-- Behind a completion no key is current. So a second completion hands back nothing. -/
@[simp] theorem current_commitCurrent (r : Resolver) : r.commitCurrent.1.current = none := by
  simp only [commitCurrent]
  split
  · assumption
  · rfl

/-- The key that is completed is the current one, if there is one. It is completed under the
settings of the resolver, by `Key.commit`. -/
theorem key_commitCurrent (r : Resolver) :
    r.commitCurrent.2 = r.current.map (Key.commit r.settings) := by
  simp only [commitCurrent]
  split
  · next h => rw [h]; rfl
  · next key h => rw [h]; rfl

/-- The interesting keys are those that were before and the current one, if it turns out to be. -/
theorem mem_interesting_commitCurrent (r : Resolver) (id : KeyId) :
    id ∈ r.commitCurrent.1.interesting ↔
      id ∈ r.interesting ∨
        ∃ k ∈ r.commitCurrent.2, k.isInteresting = true ∧ k.keyId = id := by
  simp only [commitCurrent]
  split
  · simp
  · next key _ =>
    -- The id is added only if the key is interesting.
    cases hi : (key.commit r.settings).isInteresting with
    | false => simp [hi]
    | true =>
      simp only [if_true, KeySet.mem_add, Option.mem_def, Option.some.injEq]
      constructor
      · rintro (rfl | h)
        · exact .inr ⟨_, rfl, hi, rfl⟩
        · exact .inl h
      · rintro (h | ⟨k, rfl, -, rfl⟩)
        · exact .inr h
        · exact .inl rfl

/-- A further key completes the current one and becomes current itself, without user ids. It is
never refused. -/
theorem push_pub {r r' : Resolver} {record : PubRecord} {key : Option CommittedKey}
    (h : r.push (.pub record) = .ok (r', key)) :
    key = r.commitCurrent.2 ∧ r'.settings = r.settings ∧ r'.keys = r.keys + 1 ∧
      r'.interesting = r.commitCurrent.1.interesting ∧ r'.current = some { record } := by
  have hr : r' = { r.commitCurrent.1 with
      current := some { record }, lastIssuer := none, keys := r.commitCurrent.1.keys + 1 } :=
    (congrArg Prod.fst (Except.ok.inj h)).symm
  have hkey : key = r.commitCurrent.2 := (congrArg Prod.snd (Except.ok.inj h)).symm
  subst hr hkey
  exact ⟨rfl, settings_commitCurrent r, by simp, rfl, rfl⟩

/-- So does the end, but no key is current behind it. `push_pub` is the lemma that it continues. -/
theorem finish_eq {r r' : Resolver} {key : Option CommittedKey} (h : r.finish = (r', key)) :
    key = r.commitCurrent.2 ∧ r'.settings = r.settings ∧ r'.keys = r.keys ∧
      r'.interesting = r.commitCurrent.1.interesting ∧ r'.current = none := by
  have hr : r' = { r with lastIssuer := none }.commitCurrent.1 := (congrArg Prod.fst h).symm
  have hkey : key = { r with lastIssuer := none }.commitCurrent.2 := (congrArg Prod.snd h).symm
  subst hr hkey
  refine ⟨?_, settings_commitCurrent _, keys_commitCurrent _, ?_, current_commitCurrent _⟩
  · rw [key_commitCurrent, key_commitCurrent]
  · simp only [commitCurrent]
    cases r.current <;> rfl

/-- A record has an owner if a key is current, whatever the kind of the record. The kind only goes
into the error. -/
theorem owner_eq_ok {r : Resolver} {kind : LineKind} {key : Key} :
    r.owner kind = .ok key ↔ r.current = some key := by
  rw [owner]
  split
  · next k h => simp [h]
  · next h => simp [h]

/-- A user id is accepted if a key is current, and is added to it by `Key.addIdentity`. Nothing is
handed back, as only `commitCurrent` completes a key. -/
theorem push_uid_eq_ok {r r' : Resolver} {record : UidRecord} {key : Option CommittedKey} :
    r.push (.uid record) = .ok (r', key) ↔ key = none ∧ ∃ k, r.current = some k ∧
      r' = { r with current := some (k.addIdentity { userId := record.userId }) } := by
  simp only [push, except_bind_eq_ok, except_pure_eq_ok, owner_eq_ok, Prod.mk.injEq]
  constructor
  · rintro ⟨k, hk, rfl, rfl⟩
    exact ⟨rfl, k, hk, rfl⟩
  · rintro ⟨rfl, k, hk, rfl⟩
    exact ⟨k, hk, rfl, rfl⟩

/-- A certification is accepted if `Key.certify` accepts it. The issuer is remembered as
`lastIssuer`, for the policies that follow, even if the settings leave the certification out. -/
theorem push_sig_eq_ok {r r' : Resolver} {signature : Signature} {key : Option CommittedKey} :
    r.push (.sig signature) = .ok (r', key) ↔ key = none ∧ ∃ k k', r.current = some k ∧
      k.certify r.settings (.ofSignature signature) = .ok k' ∧
      r' = { r with current := some k', lastIssuer := some signature.issuer } := by
  simp only [push, except_bind_eq_ok, except_pure_eq_ok, owner_eq_ok, Prod.mk.injEq]
  constructor
  · rintro ⟨k, hk, k', hk', rfl, rfl⟩
    exact ⟨rfl, k, k', hk, hk', rfl⟩
  · rintro ⟨rfl, k, k', hk, hk', rfl⟩
    exact ⟨k, hk, k', hk', rfl, rfl⟩

/-- A revocation is accepted if `Key.revoke` accepts it. Unlike a certification, it leaves
`lastIssuer` as it is. -/
theorem push_rev_eq_ok {r r' : Resolver} {revocation : Revocation} {key : Option CommittedKey} :
    r.push (.rev revocation) = .ok (r', key) ↔ key = none ∧ ∃ k k', r.current = some k ∧
      k.revoke revocation = .ok k' ∧ r' = { r with current := some k' } := by
  simp only [push, except_bind_eq_ok, except_pure_eq_ok, owner_eq_ok, Prod.mk.injEq]
  constructor
  · rintro ⟨k, hk, k', hk', rfl, rfl⟩
    exact ⟨rfl, k, k', hk, hk', rfl⟩
  · rintro ⟨rfl, k, k', hk, hk', rfl⟩
    exact ⟨k, hk, k', hk', rfl, rfl⟩

/-- A subpacket is accepted if it is no policy, and then changes nothing, or if there is a
`lastIssuer` to whom its policy belongs. -/
theorem push_spk_eq_ok {r r' : Resolver} {record : SpkRecord} {key : Option CommittedKey} :
    r.push (.spk record) = .ok (r', key) ↔ key = none ∧
      (record.isPolicyUri = false ∧ r' = r ∨ record.isPolicyUri = true ∧
        ∃ issuer, r.lastIssuer = some issuer ∧
          r' = { r with policyUris := r.policyUris.add ⟨issuer, record.data⟩ }) := by
  rw [push]
  cases hkind : record.isPolicyUri with
  | false => simp [and_comm, eq_comm]
  | true => cases r.lastIssuer <;> simp [and_comm, eq_comm]

/-- A user id, certification or revocation is taken into the current key, and hands back nothing.
`hown` picks out these three kinds, by what `ownRecords` does with them. -/
theorem push_own {r r' : Resolver} {record : Record} {key : Option CommittedKey}
    (hown : ∀ calls, ownRecords (.push record :: calls) = record :: ownRecords calls)
    (h : r.answer (.push record) = .ok (r', key)) :
    key = none ∧ r'.settings = r.settings ∧ r'.keys = r.keys ∧ r'.interesting = r.interesting ∧
      ∃ k k', r.current = some k ∧ k.take r.settings record = .ok k' ∧ r'.current = some k' := by
  cases record with
  -- The hypothesis `hown` excludes the kinds that do not belong to a key.
  | pub record => exact absurd (congrArg List.length (hown [])) (by simp [ownRecords])
  | spk record => exact absurd (congrArg List.length (hown [])) (by simp [ownRecords])
  | uid record =>
    obtain ⟨rfl, k, hk, rfl⟩ := push_uid_eq_ok.1 h
    exact ⟨rfl, rfl, rfl, rfl, k, _, hk, rfl, rfl⟩
  | sig signature =>
    obtain ⟨rfl, k, k', hk, hk', rfl⟩ := push_sig_eq_ok.1 h
    exact ⟨rfl, rfl, rfl, rfl, k, k', hk, hk', rfl⟩
  | rev revocation =>
    obtain ⟨rfl, k, k', hk, hk', rfl⟩ := push_rev_eq_ok.1 h
    exact ⟨rfl, rfl, rfl, rfl, k, k', hk, hk', rfl⟩

/-- A subpacket changes at most the policies. Those of another kind than `policyUriKind` change
nothing at all. -/
theorem push_spk {r r' : Resolver} {record : SpkRecord} {key : Option CommittedKey}
    (h : r.push (.spk record) = .ok (r', key)) :
    key = none ∧ r'.settings = r.settings ∧ r'.keys = r.keys ∧ r'.interesting = r.interesting ∧
      r'.current = r.current := by
  obtain ⟨rfl, ⟨-, rfl⟩ | ⟨-, issuer, -, rfl⟩⟩ := push_spk_eq_ok.1 h <;>
    exact ⟨rfl, rfl, rfl, rfl, rfl⟩

/-- Each answer does what `Answered` says, for any call. -/
theorem answered {r r' : Resolver} {call : Call} {key : Option CommittedKey}
    (h : r.answer call = .ok (r', key)) : Answered r r' call key := by
  have quiet : ∀ {record : Record}, (Call.push record).pub? = none →
      key = none ∧ r'.settings = r.settings ∧ r'.keys = r.keys ∧
        r'.interesting = r.interesting → Answered r r' (.push record) key := by
    rintro record hnone ⟨rfl, hs, hk, hi⟩
    exact ⟨hs, by simp [hnone, hk], fun id => by simp [hi]⟩
  rcases call with (record | record | record | record | record) | _
  -- A key is completed by `finish` and by the next key; other calls only change the current one.
  case finish =>
    obtain ⟨rfl, hs, hk, hi, -⟩ := finish_eq (Except.ok.inj h)
    exact ⟨hs, by simp [hk, Call.pub?], fun id => hi ▸ mem_interesting_commitCurrent r id⟩
  case push.pub =>
    obtain ⟨rfl, hs, hk, hi, -⟩ := push_pub h
    exact ⟨hs, by simp [hk, Call.pub?], fun id => hi ▸ mem_interesting_commitCurrent r id⟩
  case push.spk =>
    obtain ⟨hkey, hs, hk, hi, -⟩ := push_spk h
    exact quiet rfl ⟨hkey, hs, hk, hi⟩
  all_goals
    obtain ⟨hkey, hs, hk, hi, -⟩ := push_own (fun _ => rfl) h
    exact quiet rfl ⟨hkey, hs, hk, hi⟩

/-- A key that is completed is the next one owed, and the others are owed from then on. The
hypothesis is met by a key and by `finish`, which end the records of the current one. -/
theorem owed_completed {r : Resolver} {calls : List Call} (h : ownRecords calls = []) :
    r.owed calls = (r.commitCurrent.2.toList ++ ·) <$>
      (segments calls).mapM (Segment.commit r.settings) := by
  rw [key_commitCurrent]
  cases hc : r.current with
  | none => simp [owed_none hc]
  | some k =>
    simp only [owed_some hc, h, List.foldlM_nil, pure_bind, Option.map_some,
      Option.toList_some, List.singleton_append]
    rfl

/-- What is owed before an answer is what the answer hands back and what is owed after it. This is
the step of the induction in `answerAll_eq_owed`, one case for each kind of call. -/
theorem owed_answer {r r' : Resolver} {call : Call} {key : Option CommittedKey}
    (h : r.answer call = .ok (r', key)) (calls : List Call) :
    r.owed (call :: calls) = (key.toList ++ ·) <$> r'.owed calls := by
  rcases call with (record | record | record | record | record) | _
  case finish =>
    -- No key is current behind `finish`, so what is owed then are the segments to come.
    obtain ⟨rfl, hs, -, -, hc⟩ := finish_eq (Except.ok.inj h)
    rw [owed_completed rfl, owed_none hc, hs]
    rfl
  case push.pub =>
    -- The new key is current now: what was the first segment to come is the current one.
    obtain ⟨rfl, hs, -, -, hc⟩ := push_pub h
    rw [owed_completed rfl, owed_some hc, hs]
    simp [segments, Segment.commit, Segment.key]
  case push.spk =>
    obtain ⟨rfl, hs, -, -, hc⟩ := push_spk h
    simp only [owed, ownRecords, segments, hs, hc]
    simp
  all_goals
    -- The record that the current key has taken is the first one that it was to take.
    obtain ⟨rfl, hs, -, -, k, k', hk, htake, hk'⟩ := push_own (fun _ => rfl) h
    rw [owed_some hk, owed_some hk', ownRecords, segments, List.foldlM_cons, htake,
      except_bind_ok, hs]
    · simp
    · simp

/-! ### Runs -/

/-- A run takes its first call and then the others. Inductions on calls step by it, with
`except_bind_eq_ok`. -/
theorem answerAll_cons {r r' : Resolver} {call : Call} {calls : List Call}
    {keys : List CommittedKey} (h : r.answerAll (call :: calls) = .ok (r', keys)) :
    ∃ r₁ key keys₁, r.answer call = .ok (r₁, key) ∧ r₁.answerAll calls = .ok (r', keys₁) ∧
      keys = key.toList ++ keys₁ := by
  simp only [answerAll, except_bind_eq_ok, except_pure_eq_ok] at h
  obtain ⟨⟨r₁, key⟩, hanswer, ⟨r₂, keys₁⟩, hrest, heq⟩ := h
  cases heq
  exact ⟨r₁, key, keys₁, hanswer, hrest, rfl⟩

/-- What a run does besides the keys that it hands back: it counts the keys that were pushed, and
gathers the interesting ones among those handed back. -/
theorem answerAll_answered {r r' : Resolver} {calls : List Call} {keys : List CommittedKey}
    (h : r.answerAll calls = .ok (r', keys)) :
    r'.keys = r.keys + (calls.filterMap Call.pub?).length ∧
      ∀ id, id ∈ r'.interesting ↔
        id ∈ r.interesting ∨ ∃ k ∈ keys, k.isInteresting = true ∧ k.keyId = id := by
  induction calls generalizing r keys with
  | nil =>
    cases h
    simp
  | cons call calls ih =>
    obtain ⟨r₁, key, keys₁, hanswer, hrest, rfl⟩ := answerAll_cons h
    -- What one call adds; the rest is the hypothesis.
    have hstep := answered hanswer
    obtain ⟨hkeys, hinteresting⟩ := ih hrest
    refine ⟨?_, fun id => ?_⟩
    · show r'.keys = r.keys + ((call :: calls).filterMap Call.pub?).length
      rw [hkeys, hstep.keys, List.filterMap_cons]
      cases call.pub? <;> simp [Nat.add_assoc, Nat.add_comm 1]
    · show id ∈ r'.interesting ↔ id ∈ r.interesting ∨
        ∃ k ∈ key.toList ++ keys₁, k.isInteresting = true ∧ k.keyId = id
      rw [hinteresting, hstep.interesting, or_assoc]
      simp only [List.mem_append, Option.mem_toList, Option.mem_def, or_and_right, exists_or]

/-- A run that ends with `finish` hands back all that is owed. The induction is on the calls, with
`owed_answer` for one of them. -/
theorem answerAll_eq_owed {r r' : Resolver} {calls : List Call} {keys : List CommittedKey}
    (hlast : calls.getLast? = some .finish) (h : r.answerAll calls = .ok (r', keys)) :
    r.owed calls = .ok keys := by
  obtain ⟨calls, rfl⟩ := List.getLast?_eq_some_iff.1 hlast
  clear hlast
  induction calls generalizing r keys with
  | nil =>
    -- The `finish` at the end leaves no key behind, so nothing is owed any more.
    obtain ⟨r₁, key, keys₁, hanswer, hrest, rfl⟩ := answerAll_cons h
    cases hrest
    obtain ⟨-, -, -, -, hc⟩ := finish_eq (Except.ok.inj hanswer)
    rw [List.nil_append, owed_answer hanswer, owed_none hc]
    rfl
  | cons call calls ih =>
    obtain ⟨r₁, key, keys₁, hanswer, hrest, rfl⟩ := answerAll_cons h
    rw [List.cons_append, owed_answer hanswer, ih hrest]
    rfl

/-- A run that ends with `finish` hands back the keys of its segments: one per key pushed, in their
order, each of them made of its own records. The keys pushed are counted, and the interesting ids
are those of the interesting keys handed back. -/
theorem answerAll_segments {settings : ResolutionSettings} {calls : List Call} {r : Resolver}
    {keys : List CommittedKey} (hlast : calls.getLast? = some .finish)
    (h : ({ settings } : Resolver).answerAll calls = .ok (r, keys)) :
    (segments calls).mapM (Segment.commit settings) = .ok keys ∧
      keys.map CommittedKey.record = calls.filterMap Call.pub? ∧
      r.keys = (calls.filterMap Call.pub?).length ∧
      ∀ id, id ∈ r.interesting ↔ ∃ k ∈ keys, k.isInteresting = true ∧ k.keyId = id := by
  -- A new resolver has no current key, so all that it owes are the segments.
  have howed := answerAll_eq_owed hlast h
  rw [owed_none rfl] at howed
  obtain ⟨hkeys, hinteresting⟩ := answerAll_answered h
  refine ⟨howed, ?_, by simpa using hkeys, fun id => ?_⟩
  · show keys.map CommittedKey.record = calls.filterMap Call.pub?
    rw [← head_segments]
    exact map_of_mapM_eq_ok (fun _ _ => Segment.record_commit) howed
  · rw [hinteresting]
    exact or_iff_right (Table.not_mem_empty id)

/-- A run over two keys, of which the first has a user id that the second one certified. The second
one is completed by `finish`, and is revoked by its flags. -/
def twoKeys : List Call :=
  [.push (.pub ⟨"", 1024, .dsa, .ofText "AA", "2001-01-01", "", 4⟩),
    .push (.uid ⟨"Alice"⟩),
    .push (.sig ⟨.ofText "BB", "2002-01-01", "", "", .generic, .dsa, .sha1, 4⟩),
    .push (.pub ⟨"r", 1024, .dsa, .ofText "BB", "2001-01-01", "", 4⟩),
    .finish]

/-- The run is answered, and both keys are handed back, the first one before the second one is
complete. -/
theorem answerAll_segments_twoKeys :
    ∃ r keys, ({ settings := {} } : Resolver).answerAll twoKeys = .ok (r, keys) ∧
      (segments twoKeys).mapM (Segment.commit {}) = .ok keys ∧
      keys.map CommittedKey.record = twoKeys.filterMap Call.pub? ∧ r.keys = 2 := by
  refine ⟨_, _, rfl, ?_⟩
  have hlast : twoKeys.getLast? = some .finish := rfl
  obtain ⟨hsegments, hrecords, hkeys, -⟩ := answerAll_segments hlast rfl
  exact ⟨hsegments, hrecords, hkeys⟩

end Resolver

end WebOfTrust
