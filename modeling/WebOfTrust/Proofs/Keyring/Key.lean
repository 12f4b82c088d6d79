import WebOfTrust.Keyring.Key
import WebOfTrust.Proofs.Keyring.Holdings
import WebOfTrust.Proofs.Outcome

/-!
# `WebOfTrust.Proofs.Keyring.Key`: what a key is made of

A key takes records one by one, and what it becomes depends on what its user ids hold at the end.
Soundness is kept by every record, and so are the properties of single certifications that a
revocation does not touch. The certifications of a completed key are then known by their issuers.

- `Key.foldlM_take`: what each record keeps, all of them keep;
- `Key.sound_foldlM_take`, `Key.sound_consolidated`: what is held stays sound, to the end;
- `Key.isSome_consolidated`: from whom a completed key holds a certification.
-/

set_option autoImplicit false

namespace WebOfTrust

open Dump

variable {settings : ResolutionSettings}

/-! ### User ids that are complete -/

namespace Identity

variable {owner : KeyId} {i : Identity}

/-- To settle a certification may mark it as revoked, and nothing else. The record that it stands
for is the same, and so is its issuer. -/
@[simp] theorem toSignature_settle (i : Identity) (c : Certification) :
    (i.settle c).toSignature = c.toSignature := by
  rw [settle]
  split <;> rfl

/-- A revocation is kept beside what is held. It has its effect when the user id is completed. -/
theorem holdings_revoke (owner : KeyId) (i : Identity) (r : Revocation) :
    (i.revoke owner r).holdings = i.holdings := by
  rw [revoke]
  split
  · rfl
  · split <;> rfl

/-- What a complete user id holds from an issuer. The owner is not asked for revocations of its own
certification, since one of these revokes the user id as a whole. -/
theorem from?_commit (i : Identity) (owner issuer : KeyId) :
    i.commit.holdings.from? owner issuer
      = if issuer = owner then i.holdings.own
        else (i.holdings.byIssuer.find? issuer).map i.settle := by
  rw [Holdings.from?]
  split
  · rfl
  · exact Table.find?_map (fun _ c => i.settle c) i.holdings.byIssuer issuer

/-- What a complete user id holds, it held before, but for marks of revocation. So a property of
signatures carries over from before `Identity.commit`. -/
theorem exists_of_from?_commit {issuer : KeyId} {c : Certification}
    (h : i.commit.holdings.from? owner issuer = some c) :
    ∃ d, i.holdings.from? owner issuer = some d ∧ c.toSignature = d.toSignature := by
  rw [from?_commit] at h
  split at h
  · next hi =>
    rw [hi, Holdings.from?_owner]
    exact ⟨c, h, rfl⟩
  · next hi =>
    obtain ⟨d, hd, rfl⟩ := Option.map_eq_some_iff.1 h
    exact ⟨d, by rw [Holdings.from?_of_ne hi, hd], toSignature_settle i d⟩

/-- The owner stays out of the table of others when a user id is completed. `Table.find?_map` keeps
keys, so none is added. -/
theorem find?_owner_commit {P : Certification → Prop} (hs : i.holdings.Sound owner P) :
    i.commit.holdings.byIssuer.find? owner = none := by
  rw [commit, Table.find?_map, hs.others]
  rfl

/-- A user id contributes what it holds: its own certification and those of the table. -/
theorem mem_candidates_iff (hs : i.holdings.byIssuer.find? owner = none) {c : Certification} :
    c ∈ i.candidates ↔ ∃ issuer, i.holdings.from? owner issuer = some c := by
  simp only [candidates, List.mem_append, Option.mem_toList, selfCertification, certifications,
    Table.mem_values_iff]
  constructor
  · rintro (hown | ⟨issuer, hc⟩)
    · exact ⟨owner, by rw [Holdings.from?_owner]; exact hown⟩
    · -- The owner is none of the issuers of the table.
      have hne : issuer ≠ owner := by
        rintro rfl
        rw [hs] at hc
        cases hc
      exact ⟨issuer, by rw [Holdings.from?_of_ne hne]; exact hc⟩
  · rintro ⟨issuer, hc⟩
    by_cases hi : issuer = owner
    · subst hi
      rw [Holdings.from?_owner] at hc
      exact .inl hc
    · rw [Holdings.from?_of_ne hi] at hc
      exact .inr ⟨issuer, hc⟩

end Identity

namespace Key

/-! ### Records one by one -/

/-- Takes a record of the key. Records of other kinds say nothing of it. `Resolver.push` does with
the current key what `take` does. -/
def take (settings : ResolutionSettings) (k : Key) : Record → Except Misplacement Key
  | .uid record => .ok (k.addIdentity { userId := record.userId })
  | .sig signature => k.certify settings (.ofSignature signature)
  | .rev revocation => k.revoke revocation
  | .pub _ | .spk _ => .ok k

/-- Something that holds of a key and is kept by each record that it takes holds of it when it has
taken several. Every invariant of keys below is proved by one step and this lemma. -/
theorem foldlM_take {P : Key → Prop} {rs : List Record}
    (step : ∀ r ∈ rs, ∀ k k' : Key, k.take settings r = .ok k' → P k → P k') {k k' : Key}
    (h : rs.foldlM (take settings) k = .ok k') (hk : P k) : P k' := by
  induction rs generalizing k with
  | nil =>
    rw [List.foldlM_nil, except_pure_eq_ok] at h
    exact h ▸ hk
  | cons r rs ih =>
    rw [List.foldlM_cons, except_bind_eq_ok] at h
    obtain ⟨k₁, h₁, h⟩ := h
    exact ih (fun r' hr' => step r' (List.mem_cons_of_mem _ hr')) h
      (step r List.mem_cons_self k k₁ h₁ hk)

/-- A certification changes the newest user id, and is refused where there is none. The list has the
newest user id at its head, where it is changed. -/
theorem certify_eq_ok {k k' : Key} {c : Certification} (h : k.certify settings c = .ok k') :
    ∃ i rest, k.newestFirst = i :: rest ∧
      k' = { k with newestFirst := i.certify settings k.keyId c :: rest } := by
  rw [certify] at h
  split at h
  · cases h
  · next i rest hi => exact ⟨i, rest, hi, (Except.ok.inj h).symm⟩

/-- A revocation changes the newest user id, or the revoker, or nothing, depending on its kind.
Without a user id it is refused whatever its kind is. -/
theorem revoke_eq_ok {k k' : Key} {r : Revocation} (h : k.revoke r = .ok k') :
    ∃ i rest, k.newestFirst = i :: rest ∧
      (r.kind = .certification ∧ k' = { k with newestFirst := i.revoke k.keyId r :: rest } ∨
        r.kind = .key ∧ k' = { k with revoker := some r.issuer } ∨
        r.kind ≠ .certification ∧ r.kind ≠ .key ∧ k' = k) := by
  rw [revoke] at h
  -- One case for each kind; the last two, of subkeys and of unknown codes, change nothing.
  split at h
  · cases h
  next i rest hi =>
  refine ⟨i, rest, hi, ?_⟩
  split at h
  · next hr => exact .inr (.inl ⟨hr, (Except.ok.inj h).symm⟩)
  · next hr => exact .inl ⟨hr, (Except.ok.inj h).symm⟩
  · next hr => exact .inr (.inr ⟨by simp [hr], by simp [hr], (Except.ok.inj h).symm⟩)
  · next hr => exact .inr (.inr ⟨by simp [hr], by simp [hr], (Except.ok.inj h).symm⟩)

/-- The record that opened a key is never changed. Every case of `Key.take` has the old record in
its result. -/
theorem record_take {k k' : Key} {r : Record} (h : k.take settings r = .ok k') :
    k'.record = k.record := by
  cases r with
  | pub record => rw [← Except.ok.inj h]
  | spk record => rw [← Except.ok.inj h]
  | uid record => rw [← Except.ok.inj h]; rfl
  | sig signature =>
    obtain ⟨i, rest, -, rfl⟩ := certify_eq_ok h
    rfl
  | rev revocation =>
    obtain ⟨i, rest, -, ⟨-, rfl⟩ | ⟨-, rfl⟩ | ⟨-, -, rfl⟩⟩ := revoke_eq_ok h <;> rfl

/-- Neither is its id, which is part of that record. Holdings are told apart by the owner, which is
this id. -/
theorem keyId_take {k k' : Key} {r : Record} (h : k.take settings r = .ok k') :
    k'.keyId = k.keyId := by
  rw [keyId, keyId, record_take h]

/-- The same behind many records. The induction is on the records. -/
theorem record_foldlM_take {rs : List Record} {k k' : Key}
    (h : rs.foldlM (take settings) k = .ok k') : k'.record = k.record :=
  foldlM_take (P := fun k' => k'.record = k.record)
    (fun _ _ _ _ htake hr => (record_take htake).trans hr) h rfl

/-! ### Soundness -/

variable {P : Certification → Prop}

/-- What the user ids hold is sound, with the key as their owner. It speaks of user ids as they are
before `Identity.commit`. -/
def Sound (P : Certification → Prop) (k : Key) : Prop :=
  ∀ i ∈ k.newestFirst, i.holdings.Sound k.keyId P

/-- What is known of everything held may be weakened. It is `Holdings.Sound.imp` for each of
them. -/
theorem Sound.imp {Q : Certification → Prop} {k : Key} (hk : k.Sound P) (hPQ : ∀ c, P c → Q c) :
    k.Sound Q :=
  fun i hi => (hk i hi).imp hPQ

/-- A further user id holds nothing, so there is nothing in it that could be unsound.
`Holdings.sound_empty` is all that is needed. -/
theorem Sound.addIdentity {k : Key} (hk : k.Sound P) (userId : String) :
    (k.addIdentity { userId }).Sound P := by
  intro i hi
  rcases List.mem_cons.1 hi with rfl | hi
  · exact Holdings.sound_empty k.keyId P
  · exact hk i hi

/-- A certification of the newest user id, of which `P` has to hold unless it is left out. -/
theorem Sound.certify {k k' : Key} {c : Certification} (hk : k.Sound P)
    (h : k.certify settings c = .ok k') (hc : c.isExcluded settings = false → P c) :
    k'.Sound P := by
  obtain ⟨i, rest, hi, rfl⟩ := certify_eq_ok h
  rw [Sound, hi] at hk
  intro j hj
  rcases List.mem_cons.1 hj with rfl | hj
  · exact (hk i List.mem_cons_self).offer hc
  · exact hk j (List.mem_cons_of_mem _ hj)

/-- No revocation touches what is held; one of a certification is kept beside it. So `Sound` is kept
without a condition on the revocation. -/
theorem Sound.revoke {k k' : Key} {r : Revocation} (hk : k.Sound P) (h : k.revoke r = .ok k') :
    k'.Sound P := by
  obtain ⟨i, rest, hi, ⟨-, rfl⟩ | ⟨-, rfl⟩ | ⟨-, -, rfl⟩⟩ := revoke_eq_ok h
  · rw [Sound, hi] at hk
    intro j hj
    rcases List.mem_cons.1 hj with rfl | hj
    · rw [Identity.holdings_revoke]
      exact hk i List.mem_cons_self
    · exact hk j (List.mem_cons_of_mem _ hj)
  · exact hk
  · exact hk

/-- A record keeps a key sound; for a certification that is not left out, `P` has to hold of it. -/
theorem sound_take {k k' : Key} {r : Record} (h : k.take settings r = .ok k') (hk : k.Sound P)
    (hr : ∀ s, r = .sig s → (Certification.ofSignature s).isExcluded settings = false →
      P (.ofSignature s)) : k'.Sound P := by
  cases r with
  | pub record => exact Except.ok.inj h ▸ hk
  | spk record => exact Except.ok.inj h ▸ hk
  | uid record => exact Except.ok.inj h ▸ hk.addIdentity record.userId
  | sig signature => exact hk.certify h (hr signature rfl)
  | rev revocation => exact hk.revoke h

/-- A key behind records is sound for whatever holds of all certifications among them. The property
`P` is asked of `Certification.ofSignature s` for each record `s`. -/
theorem sound_foldlM_take {record : PubRecord} {rs : List Record} {k : Key}
    (hr : ∀ s, .sig s ∈ rs → P (.ofSignature s))
    (h : rs.foldlM (take settings) { record } = .ok k) : k.Sound P :=
  foldlM_take (fun r hmem _ _ htake hk => sound_take htake hk fun s hs _ => hr s (hs ▸ hmem)) h
    fun _ hi => by cases hi

/-! ### Completed keys -/

/-- Whether a user id is live is known before it is completed: `Identity.commit` changes neither
`Identity.revoked` nor the certification of the owner. -/
theorem liveIdentities_eq (k : Key) :
    k.liveIdentities = (k.identities.filter Identity.isLive).map Identity.commit := by
  rw [liveIdentities, List.filter_map]
  rfl

/-- The number of live user ids does not depend on the order in which the key has them, so it can be
counted over `newestFirst`. -/
theorem length_liveIdentities (k : Key) :
    k.liveIdentities.length = k.newestFirst.countP Identity.isLive := by
  rw [liveIdentities_eq, List.length_map, identities, ← List.countP_eq_length_filter,
    List.countP_reverse]

/-- A live user id is the completed form of one that is not revoked and that the owner has
certified. -/
theorem mem_liveIdentities_iff {k : Key} {j : Identity} :
    j ∈ k.liveIdentities ↔ ∃ i ∈ k.newestFirst, j = i.commit ∧ i.revoked = false ∧
      i.holdings.own.isSome = true := by
  simp only [liveIdentities, identities, List.mem_filter, List.mem_map, List.mem_reverse]
  constructor
  · rintro ⟨⟨i, hi, rfl⟩, hlive⟩
    -- Completing a user id changes neither its revocation nor whether there is an own
    -- certification.
    have hlive : (!i.revoked && i.holdings.own.isSome) = true := hlive
    rw [Bool.and_eq_true, Bool.not_eq_true'] at hlive
    exact ⟨i, hi, rfl, hlive⟩
  · rintro ⟨i, hi, rfl, hrevoked, hown⟩
    refine ⟨⟨i, hi, rfl⟩, ?_⟩
    show (!i.revoked && i.holdings.own.isSome) = true
    rw [hrevoked, hown]
    rfl

/-- The certifications from which a completed key is made are those that its live user ids hold.
`from?` says it of both at once, for a sound user id. -/
theorem mem_candidates_iff {k : Key} (hk : k.Sound P) {c : Certification} :
    c ∈ k.liveIdentities.flatMap Identity.candidates ↔
      ∃ i ∈ k.newestFirst, i.revoked = false ∧ i.holdings.own.isSome = true ∧
        ∃ issuer, i.commit.holdings.from? k.keyId issuer = some c := by
  simp only [List.mem_flatMap, mem_liveIdentities_iff]
  constructor
  · rintro ⟨_, ⟨i, hi, rfl, hrevoked, hown⟩, hc⟩
    exact ⟨i, hi, hrevoked, hown,
      (Identity.mem_candidates_iff (Identity.find?_owner_commit (hk i hi))).1 hc⟩
  · rintro ⟨i, hi, hrevoked, hown, hc⟩
    exact ⟨_, ⟨i, hi, rfl, hrevoked, hown⟩,
      (Identity.mem_candidates_iff (Identity.find?_owner_commit (hk i hi))).2 hc⟩

/-- What a completed key holds is sound, with whatever holds of a certification whether or not it is
marked as revoked. `hP` says that `P` does not look at the mark. -/
theorem sound_consolidated {k : Key} (hk : k.Sound P)
    (hP : ∀ c d : Certification, c.toSignature = d.toSignature → P c → P d) :
    (k.consolidated settings).Sound k.keyId P := by
  refine (Holdings.sound_empty k.keyId P).foldl_offer fun c hc _ => ?_
  -- `c` is a certification `d` of a user id, perhaps marked as revoked in the meantime.
  obtain ⟨i, hi, -, -, issuer, hheld⟩ := (mem_candidates_iff hk).1 hc
  obtain ⟨d, hd, hsignature⟩ := Identity.exists_of_from?_commit hheld
  exact hP d c hsignature.symm ((hk i hi).held issuer d hd).2

/-- From whom a completed key holds a certification: from each issuer of whom a live user id holds
one that still counts when it is complete. -/
theorem isSome_consolidated {k : Key} (hk : k.Sound P) {issuer : KeyId} :
    ((k.consolidated settings).from? k.keyId issuer).isSome = true ↔
      ∃ i ∈ k.newestFirst, i.revoked = false ∧ i.holdings.own.isSome = true ∧
        ∃ c, i.commit.holdings.from? k.keyId issuer = some c ∧ c.isExcluded settings = false := by
  rw [consolidated, Holdings.isSome_foldl_offer]
  simp only [Holdings.from?_empty, Option.isSome_none, Bool.false_eq_true, false_or,
    mem_candidates_iff hk]
  constructor
  · rintro ⟨c, ⟨i, hi, hrevoked, hown, issuer', hc⟩, rfl, hexcluded⟩
    obtain ⟨d, hd, hsignature⟩ := Identity.exists_of_from?_commit hc
    -- It is held from the issuer who gave it, as the user id is sound.
    have hissuer : c.issuer = issuer' := by
      rw [show c.issuer = d.issuer from congrArg Signature.issuer hsignature]
      exact ((hk i hi).held issuer' d hd).1
    exact ⟨i, hi, hrevoked, hown, c, hissuer ▸ hc, hexcluded⟩
  · rintro ⟨i, hi, hrevoked, hown, c, hc, hexcluded⟩
    obtain ⟨d, hd, hsignature⟩ := Identity.exists_of_from?_commit hc
    have hissuer : c.issuer = issuer := by
      rw [show c.issuer = d.issuer from congrArg Signature.issuer hsignature]
      exact ((hk i hi).held issuer d hd).1
    exact ⟨c, ⟨i, hi, hrevoked, hown, issuer, hc⟩, hissuer, hexcluded⟩

/-- The table of a completed key has what is consolidated, without the owner. The owner is left out
because its certification goes to `selfCertification`. -/
theorem find?_certifications_commit {k : Key} (hk : k.Sound P)
    (hP : ∀ c d : Certification, c.toSignature = d.toSignature → P c → P d) {issuer : KeyId}
    {c : Certification} :
    (k.commit settings).certifications.find? issuer = some c ↔
      issuer ≠ k.keyId ∧ (k.consolidated settings).from? k.keyId issuer = some c :=
  (sound_consolidated hk hP).find?_byIssuer_iff

/-- No key is promoted while it is completed, so every settling event is possible, and the status is
its target. -/
theorem status_commit (settings : ResolutionSettings) (k : Key) :
    (k.commit settings).status = (k.settlingEvent (k.consolidated settings).own).target := by
  have hne : k.settlingEvent (k.consolidated settings).own ≠ .certifiedByInterestingKey := by
    rw [settlingEvent]
    split
    · split <;> decide
    · repeat' split
      all_goals decide
  have htransition := KeyStatus.transition_eq_ok_iff.2
    ⟨rfl, .inl ⟨rfl, hne⟩⟩
  simp only [commit, htransition]

/-- A completed key has a status that is settled and not yet promoted. A table line can be made of
it, therefore, and it can still be promoted. -/
theorem settled_commit (settings : ResolutionSettings) (k : Key) :
    (k.commit settings).status ≠ .unvalidated ∧ (k.commit settings).status ≠ .certified := by
  rw [status_commit, settlingEvent]
  split
  · split <;> decide
  · repeat' split
    all_goals decide

end Key

end WebOfTrust
