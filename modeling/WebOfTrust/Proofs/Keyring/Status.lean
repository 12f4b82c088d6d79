import WebOfTrust.Proofs.Keyring.Consolidation

/-!
# `WebOfTrust.Proofs.Keyring.Status`: what settles the status of a key

A key is settled by its own revocations first, then by the flags of the dump, and only then by its
user ids: it is valid if one of them is live. The pass decides that by the certification of the
owner that is left when the user ids are consolidated, under the settings once more, and it counts
live user ids apart from that. Both come to the same because a user id retains no certification that
the settings leave out, so nothing is lost when the key is completed.

Everything that is said here of user ids can be read off the records: a user id is what its own
records make of it (`Identity.segments`).

- `Key.newestFirst_foldlM_take`: the user ids of a key, by its records;
- `Key.revoker_foldlM_take`: who revoked it;
- `Key.isSome_own_consolidated_iff`: why the two ways to look at user ids agree;
- `Key.status_of_records`: the status, the revoker and the number of live user ids.
-/

set_option autoImplicit false

namespace WebOfTrust

open Dump

variable {settings : ResolutionSettings}

/-! ### User ids by their records -/

namespace Identity

/-- A user id and the records that belong to it, up to the next user id. It is the counterpart of
`Resolver.Segment` one level below, for user ids in place of keys. -/
structure Segment where
  head : UidRecord
  body : List Record
  deriving DecidableEq, Repr

/-- The user ids behind a further record, the newest first. A record before the first user id
belongs to none. -/
def Segment.extend (segments : List Segment) : Record → List Segment
  | .uid record => ⟨record, []⟩ :: segments
  | record =>
    match segments with
    | [] => []
    | s :: rest => { s with body := s.body ++ [record] } :: rest

/-- The user ids among records, the newest first, each with the records up to the next one. This is
the order of `Key.newestFirst`. -/
def segments (rs : List Record) : List Segment := rs.foldl Segment.extend []

/-- There are user ids if a record begins one. `Key.certify` and `Key.revoke` are refused exactly
then. -/
theorem segments_eq_nil_iff {rs : List Record} :
    segments rs = [] ↔ ∀ record, .uid record ∉ rs := by
  induction rs using List.reverseRecOn with
  | nil => simp [segments]
  | append_singleton rs r ih =>
    rw [segments, List.foldl_append, List.foldl_cons, List.foldl_nil, ← segments]
    cases r with
    | uid record => exact iff_of_false (List.cons_ne_nil _ _) fun h => h record (by simp)
    | pub _ | sig _ | rev _ | spk _ => cases hs : segments rs <;> simp [Segment.extend, ← ih, hs]

/-- What a record does to the user id that it belongs to. Revocations of other kinds than
certifications do nothing to it. -/
def Step.ofRecord? : Record → Option Step
  | .sig signature => some (.certify (.ofSignature signature) rfl)
  | .rev revocation => if revocation.kind = .certification then some (.revoke revocation) else none
  | .pub _ | .uid _ | .spk _ => none

/-- What is done to the user id of a segment, as the steps of `Identity.run`. -/
def Segment.steps (s : Segment) : List Step := s.body.filterMap Step.ofRecord?

/-- The user id of a segment, for the key `owner`, before it is completed. -/
def Segment.identity (settings : ResolutionSettings) (owner : KeyId) (s : Segment) : Identity :=
  run settings owner s.head.userId s.steps

/-- The owner has certified the user id, with a certification that counts, and has not revoked it.
It is told of the records, so a status is too. -/
def Segment.Live (settings : ResolutionSettings) (owner : KeyId) (s : Segment) : Prop :=
  (∀ r, .rev r ∈ s.body → r.kind = .certification → r.issuer ≠ owner) ∧
    ∃ c, .sig c ∈ s.body ∧ c.issuer = owner ∧
      (Certification.ofSignature c).isExcluded settings = false

/-- The certifications of a user id are those that its `sig` records stand for. -/
theorem mem_certifications_steps {s : Segment} {c : Certification} :
    c ∈ Step.certifications s.steps ↔ ∃ signature, .sig signature ∈ s.body ∧
      Certification.ofSignature signature = c := by
  simp only [Step.certifications, Segment.steps, List.mem_filterMap]
  constructor
  · rintro ⟨step, ⟨record, hmem, hstep⟩, hc⟩
    cases record <;> grind [Step.ofRecord?]
  · rintro ⟨signature, hmem, rfl⟩
    exact ⟨.certify (.ofSignature signature) rfl, ⟨_, hmem, rfl⟩, rfl⟩

/-- The revocations of a user id are its `rev` records that revoke certifications. -/
theorem mem_revocations_steps {s : Segment} {r : Revocation} :
    r ∈ Step.revocations s.steps ↔ .rev r ∈ s.body ∧ r.kind = .certification := by
  simp only [Step.revocations, Segment.steps, List.mem_filterMap]
  constructor
  · rintro ⟨step, ⟨record, hmem, hstep⟩, hr⟩
    cases record <;> grind [Step.ofRecord?]
  · rintro ⟨hmem, hkind⟩
    exact ⟨.revoke r, ⟨_, hmem, if_pos hkind⟩, rfl⟩

/-- Whether a user id is live can be told from its records. The records decide by their dates, and
`Identity.isLive` by what was retained of them. -/
theorem Segment.isLive_identity_iff (settings : ResolutionSettings) (owner : KeyId) (s : Segment) :
    (s.identity settings owner).isLive = true ↔ s.Live settings owner := by
  have hfollows := follows_run settings owner s.head.userId s.steps
  -- One revocation of the owner is enough, whatever its date.
  have hrevoked : (s.identity settings owner).revoked = false ↔
      ∀ r, .rev r ∈ s.body → r.kind = .certification → r.issuer ≠ owner := by
    rw [← Bool.not_eq_true, Segment.identity, hfollows.revoked]
    simp only [mem_revocations_steps, not_exists, not_and, and_imp, ne_eq]
  -- Something is retained of the owner as soon as one certification counts.
  have hown : (s.identity settings owner).selfCertification.isSome = true ↔
      ∃ c, .sig c ∈ s.body ∧ c.issuer = owner ∧
        (Certification.ofSignature c).isExcluded settings = false := by
    rw [Segment.identity, hfollows.selfCertification_eq, Option.isSome_iff_ne_none, ne_eq,
      List.argmax_eq_none, List.eq_nil_iff_forall_not_mem]
    simp only [counting, List.mem_filter, mem_certifications_steps, decide_eq_true_eq, not_forall,
      not_not, exists_exists_and_eq_and]
    rfl
  rw [isLive, Bool.and_eq_true, Bool.not_eq_true', hrevoked, hown, Segment.Live]

/-- The user id behind one more record is what the step of that record makes of it. -/
theorem Segment.identity_concat (settings : ResolutionSettings) (owner : KeyId) (s : Segment)
    (r : Record) : Segment.identity settings owner { s with body := s.body ++ [r] }
      = (Step.ofRecord? r).elim (s.identity settings owner)
          ((s.identity settings owner).step settings owner) := by
  have hsteps : Segment.steps { s with body := s.body ++ [r] }
      = s.steps ++ (Step.ofRecord? r).toList := by
    rw [Segment.steps, List.filterMap_append, Segment.steps]
    cases hstep : Step.ofRecord? r <;> simp [hstep]
  rw [Segment.identity, hsteps, run, List.foldl_append]
  cases Step.ofRecord? r <;> rfl

end Identity

namespace Key

open Identity (Segment Step)

/-- A record belongs to the newest user id, or begins a further one. It is the step of
`newestFirst_foldlM_take`, one case for each kind of record. -/
theorem newestFirst_take {k k' : Key} {r : Record} {ss : List Segment}
    (h : k.take settings r = .ok k')
    (hk : k.newestFirst = ss.map (Segment.identity settings k.keyId)) :
    k'.newestFirst = (Segment.extend ss r).map (Segment.identity settings k'.keyId) := by
  rw [keyId_take h]
  cases r with
  | uid record =>
    rw [← Except.ok.inj h]
    exact congrArg (List.cons _) hk
  | pub record | spk record =>
    -- It says nothing of the user id, so there is nothing to do for it.
    rw [← Except.ok.inj h, hk]
    cases ss with
    | nil => rfl
    | cons s ss =>
      rw [Segment.extend, List.map_cons, List.map_cons, Segment.identity_concat]
      · rfl
      · simp
  | sig signature =>
    obtain ⟨i, rest, hi, rfl⟩ := certify_eq_ok h
    rw [hi] at hk
    cases ss with
    | nil => cases hk
    | cons s ss =>
      obtain ⟨rfl, rfl⟩ := List.cons.inj hk
      rw [Segment.extend, List.map_cons, Segment.identity_concat]
      · rfl
      · simp
  | rev revocation =>
    obtain ⟨i, rest, hi, hrevoke⟩ := revoke_eq_ok h
    rw [hi] at hk
    cases ss with
    | nil => cases hk
    | cons s ss =>
      obtain ⟨rfl, rfl⟩ := List.cons.inj hk
      rw [Segment.extend, List.map_cons, Segment.identity_concat]
      · rcases hrevoke with ⟨hkind, rfl⟩ | ⟨hkind, rfl⟩ | ⟨hkind, -, rfl⟩
        · simp [Step.ofRecord?, hkind, Identity.step]
        · simp [Step.ofRecord?, hkind, hi]
        · simp [Step.ofRecord?, hkind, hi]
      · simp

/-- The user ids of a key are what their own records make of them. They come newest first, hence
`List.reverse` on the right. -/
theorem newestFirst_foldlM_take {record : PubRecord} {rs : List Record} {k : Key}
    (h : rs.foldlM (take settings) { record } = .ok k) :
    k.newestFirst = (Identity.segments rs).map (Segment.identity settings record.keyId) := by
  -- The segment that is being read grows, so this is said of any segments to begin with.
  have run : ∀ {rs : List Record} (ss : List Segment) {k k' : Key},
      rs.foldlM (take settings) k = .ok k' →
      k.newestFirst = ss.map (Segment.identity settings k.keyId) →
      k'.newestFirst = (rs.foldl Segment.extend ss).map (Segment.identity settings k'.keyId) := by
    intro rs
    induction rs with
    | nil =>
      intro ss k k' h hk
      rw [List.foldlM_nil, except_pure_eq_ok] at h
      exact h ▸ hk
    | cons r rs ih =>
      intro ss k k' h hk
      rw [List.foldlM_cons, except_bind_eq_ok] at h
      obtain ⟨k₁, h₁, h⟩ := h
      exact ih _ h (newestFirst_take h₁ hk)
  rw [run [] h rfl, keyId, record_foldlM_take h, Identity.segments]

/-! ### Revocations of the key -/

/-- The revocations of the key itself among records, in their order. Revocations of subkeys and of
certifications are not among them. -/
def keyRevocations (rs : List Record) : List Revocation :=
  rs.filterMap fun
    | .rev r => if r.kind = .key then some r else none
    | _ => none

/-- Whether a record is a revocation of a subkey, or one of an unknown kind. Such a record is
checked for its place and then passed over. -/
def revokesNothing : Record → Bool
  | .rev r => r.kind ≠ .key && r.kind ≠ .certification
  | _ => false

/-- A record that revokes the key names its issuer as the revoker, and any other leaves the revoker
as it is. -/
theorem revoker_take {k k' : Key} {r : Record} (h : k.take settings r = .ok k') :
    k'.revoker = ((keyRevocations [r]).getLast?.map Revocation.issuer).or k.revoker := by
  cases r with
  | pub record | spk record => rw [← Except.ok.inj h]; rfl
  | uid record => rw [← Except.ok.inj h]; rfl
  | sig signature =>
    obtain ⟨i, rest, -, rfl⟩ := certify_eq_ok h
    rfl
  | rev revocation =>
    obtain ⟨i, rest, -, ⟨hkind, rfl⟩ | ⟨hkind, rfl⟩ | ⟨-, hkind, rfl⟩⟩ := revoke_eq_ok h <;>
      simp [keyRevocations, hkind]

/-- A key was revoked by the issuer of the last revocation that it has taken. Dates do not matter
for this, only the order of the records. -/
theorem revoker_foldlM_take {k k' : Key} {rs : List Record}
    (h : rs.foldlM (take settings) k = .ok k') :
    k'.revoker = ((keyRevocations rs).getLast?.map Revocation.issuer).or k.revoker := by
  induction rs generalizing k with
  | nil =>
    rw [List.foldlM_nil, except_pure_eq_ok] at h
    exact h ▸ rfl
  | cons r rs ih =>
    rw [List.foldlM_cons, except_bind_eq_ok] at h
    obtain ⟨k₁, h₁, h⟩ := h
    -- A later revocation takes the place of an earlier one.
    have happend : keyRevocations (r :: rs) = keyRevocations [r] ++ keyRevocations rs :=
      List.filterMap_append (l := [r])
    rw [ih h, revoker_take h₁, happend, List.getLast?_append, Option.map_or, Option.or_assoc]

/-- Revocations of subkeys and of unknown kinds may as well be left out, once it is known that none
of them is out of place. -/
theorem foldlM_take_filter {k k' : Key} {rs : List Record}
    (h : rs.foldlM (take settings) k = .ok k') :
    (rs.filter fun r => !revokesNothing r).foldlM (take settings) k = .ok k' := by
  induction rs generalizing k with
  | nil => exact h
  | cons r rs ih =>
    rw [List.foldlM_cons, except_bind_eq_ok] at h
    obtain ⟨k₁, h₁, h⟩ := h
    cases hr : revokesNothing r with
    | false =>
      rw [List.filter_cons_of_pos (by rw [hr]; rfl), List.foldlM_cons, h₁, except_bind_ok]
      exact ih h
    | true =>
      rw [List.filter_cons_of_neg (by rw [hr]; decide)]
      -- The key was the same before the record.
      have hsame : k₁ = k := by
        cases r with
        | rev revocation =>
          obtain ⟨i, rest, -, ⟨hkind, -⟩ | ⟨hkind, -⟩ | ⟨-, -, rfl⟩⟩ := revoke_eq_ok h₁
          · simp [revokesNothing, hkind] at hr
          · simp [revokesNothing, hkind] at hr
          · rfl
        | pub _ | uid _ | sig _ | spk _ => cases hr
      exact ih (hsame ▸ h)

/-! ### Live user ids -/

/-- What the user ids of a key hold counted when it was offered. That is, under the settings, by
`Certification.isExcluded`. -/
theorem retained_foldlM_take {record : PubRecord} {rs : List Record} {k : Key}
    (h : rs.foldlM (take settings) { record } = .ok k) : k.Sound (Retained settings) :=
  foldlM_take (fun _ _ _ _ htake hk => sound_take htake hk fun _ _ hcounts => ⟨rfl, hcounts⟩) h
    fun _ hi => by cases hi

variable {k : Key}

/-- A live user id has a certification of the owner that the settings still let in. Completion can
add the mark `revoked`, so the settings are asked a second time. -/
theorem isLive_iff (hk : k.Sound (Retained settings)) {i : Identity} (hi : i ∈ k.identities) :
    i.isLive = true ↔ i.revoked = false ∧
      ∃ c, i.selfCertification = some c ∧ c.isExcluded settings = false := by
  rw [Identity.isLive, Bool.and_eq_true, Bool.not_eq_true', Option.isSome_iff_exists]
  refine and_congr_right fun _ => exists_congr fun c => (and_iff_left_of_imp fun hc => ?_).symm
  have hheld : i.holdings.from? k.keyId k.keyId = some c := by
    rw [Holdings.from?_owner]
    exact hc
  exact ((hk i (List.mem_reverse.1 hi)).held k.keyId c hheld).2.2

/-- A completed key counts a valid user id if and only if one of its user ids is live. -/
theorem one_le_validIdentities_iff (hk : k.Sound (Retained settings)) :
    1 ≤ (k.commit settings).validIdentities ↔ ∃ i ∈ k.identities, i.isLive = true := by
  rw [(consolidates_commit hk).validIdentities, Nat.one_le_iff_ne_zero, ← Nat.pos_iff_ne_zero,
    List.length_filter_pos_iff]

/-- When a key is completed a certification of its owner is left if and only if a user id is live:
nothing that is retained is left out on the way. -/
theorem isSome_own_consolidated_iff (hk : k.Sound (Retained settings)) :
    (k.consolidated settings).own.isSome = true ↔
      1 ≤ (k.commit settings).validIdentities := by
  have hown : (k.consolidated settings).own = _ := (consolidates_commit hk).selfCertification
  rw [one_le_validIdentities_iff hk, hown, Option.isSome_iff_ne_none, ne_eq, List.argmax_eq_none,
    List.filterMap_eq_nil_iff]
  simp only [List.mem_filter, not_forall, and_imp]
  constructor
  · rintro ⟨i, hi, hlive, -⟩
    exact ⟨i, hi, hlive⟩
  · rintro ⟨i, hi, hlive⟩
    -- A live user id holds a certification of its owner, by what live means.
    refine ⟨i, hi, hlive, fun hnone => ?_⟩
    rw [Identity.isLive, hnone] at hlive
    simp at hlive

/-! ### The status -/

/-- The key behind a record. A record that is out of place is refused and changes nothing. -/
def answer (settings : ResolutionSettings) (k : Key) (r : Record) : Key :=
  (k.take settings r).toOption.getD k

/-- The key behind a `pub` record and others, of which those that are out of place are refused. -/
def ofRecords (settings : ResolutionSettings) (record : PubRecord) (rs : List Record) : Key :=
  rs.foldl (answer settings) { record }

/-- What the records `rs` behind `record` settle of a key. `k` is the key behind them, and
`completed` is what it is completed to. -/
structure Settles (settings : ResolutionSettings) (record : PubRecord) (rs : List Record) (k : Key)
    (completed : CommittedKey) : Prop where
  /-- The last revocation of the key comes before everything else. -/
  revoked : ∀ r, (keyRevocations rs).getLast? = some r →
    completed.revoker = some r.issuer ∧
      completed.status =
        if r.issuer = record.keyId then .revokedByOwner else .revokedByDesignatedRevoker
  /-- Without a revocation the flags decide, `r` before `e`, and without these the user ids. -/
  unrevoked : keyRevocations rs = [] →
    completed.revoker = none ∧
      completed.status =
        if 'r' ∈ record.flags.toList then .revokedByOwner
        else if 'e' ∈ record.flags.toList then .expired
        else if 1 ≤ completed.validIdentities then .valid
        else .invalid
  /-- The user ids that count, by what they hold. -/
  live : 1 ≤ completed.validIdentities ↔ ∃ i ∈ k.identities, i.revoked = false ∧
    ∃ c, i.selfCertification = some c ∧ c.isExcluded settings = false
  /-- The user ids that count, by their records. -/
  liveRecords : 1 ≤ completed.validIdentities ↔
    ∃ s ∈ Identity.segments rs, s.Live settings record.keyId
  /-- The machine of statuses allows the event that settles the key. -/
  possible : KeyStatus.unvalidated.transition (k.settlingEvent completed.selfCertification)
    = .ok completed.status
  /-- Records that revoke nothing could be left out. -/
  silent : (rs.filter fun r => !revokesNothing r).foldlM (take settings) { record } = .ok k

/-- The event that settles a key is possible from the status that a key has before, and leads to the
status that it has when it is completed. -/
theorem transition_settlingEvent (settings : ResolutionSettings) (k : Key) :
    KeyStatus.unvalidated.transition (k.settlingEvent (k.commit settings).selfCertification)
      = .ok (k.commit settings).status := by
  refine KeyStatus.transition_eq_ok_iff.2 ⟨status_commit settings k, .inl ⟨rfl, fun h => ?_⟩⟩
  -- A promotion leads to a status that no key has when it is completed.
  refine (settled_commit settings k).2 ?_
  rw [status_commit]
  exact congrArg KeyStatusEvent.target h

/-- The status of a key is settled by its records: by the last revocation of the key, else by the
flags, else by whether a user id is live. -/
theorem status_of_records {record : PubRecord} {rs : List Record} {k : Key}
    (h : rs.foldlM (take settings) { record } = .ok k) :
    Settles settings record rs k (k.commit settings) := by
  have hk := retained_foldlM_take h
  have hrecord : k.record = record := record_foldlM_take h
  have hrevoker : k.revoker = (keyRevocations rs).getLast?.map Revocation.issuer := by
    rw [revoker_foldlM_take h, Option.or_none]
  -- The number of valid user ids is the number of live ones.
  have hlive : 1 ≤ (k.commit settings).validIdentities ↔ ∃ i ∈ k.identities, i.isLive = true :=
    one_le_validIdentities_iff hk
  refine
    { revoked := fun r hr => ?revoked
      unrevoked := fun hnone => ?unrevoked
      live := ?live
      liveRecords := ?liveRecords
      possible := transition_settlingEvent settings k
      silent := foldlM_take_filter h }
  case revoked =>
    have hissuer : k.revoker = some r.issuer := by rw [hrevoker, hr, Option.map_some]
    refine ⟨hissuer, ?_⟩
    rw [status_commit, settlingEvent, hissuer, keyId, hrecord]
    exact apply_ite KeyStatusEvent.target _ _ _
  case unrevoked =>
    have hnobody : k.revoker = none := by rw [hrevoker, hnone]; rfl
    refine ⟨hnobody, ?_⟩
    rw [status_commit, settlingEvent, hnobody, hrecord]
    rw [apply_ite KeyStatusEvent.target, apply_ite KeyStatusEvent.target,
      apply_ite KeyStatusEvent.target]
    simp only [KeyStatusEvent.target, PubRecord.isFlaggedRevoked, PubRecord.isFlaggedExpired,
      List.contains_iff_mem, isSome_own_consolidated_iff hk]
  case live =>
    exact hlive.trans (exists_congr fun i => and_congr_right fun hi => isLive_iff hk hi)
  case liveRecords =>
    rw [hlive, identities]
    simp only [List.mem_reverse, newestFirst_foldlM_take h, List.mem_map, exists_exists_and_eq_and,
      Segment.isLive_identity_iff]

/-- The owner has revoked its certification of the first user id, the one of the second is too weak
for these settings, and a revocation of a subkey says nothing. So the key is invalid. -/
theorem status_of_records_uncertified :
    let settings : ResolutionSettings := { excludeDeprecated := true, deprecatedHashes := [1] }
    let record : PubRecord := ⟨"", 1024, .dsa, .ofText "AA", "2000-01-01", "", 4⟩
    let sig (hash : HashAlgorithm) : Record :=
      .sig ⟨.ofText "AA", "2001-01-01", "", "", .generic, .dsa, hash, 4⟩
    let rev (kind : RevocationKind) : Record :=
      .rev ⟨.ofText "AA", "2002-01-01", kind, 4, .dsa, .sha1⟩
    let rs : List Record :=
      [.uid ⟨"A"⟩, sig .sha256, rev .certification, .uid ⟨"B"⟩, sig .md5, rev .subkey]
    let k := ofRecords settings record rs
    Settles settings record rs k (k.commit settings) ∧ (k.commit settings).status = .invalid :=
  ⟨status_of_records rfl, by decide +kernel⟩

end Key

end WebOfTrust
