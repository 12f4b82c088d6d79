import Mathlib.Data.List.Forall2
import WebOfTrust.Proofs.Keyring.Key

/-!
# `WebOfTrust.Proofs.Keyring.Gain`: further certifications take nothing from a key

A key gains certifications if the settings leave out fewer of them, or if it has more to begin with.
Neither is harmless at first sight: a certification that is let in may take the place of another
one, and may then be left out in its turn, because its issuer revoked it or because the settings
look at it again when the key is complete. What saves the key is the order of dates. A certification
only gives way to a later one, and a revocation only reaches what is earlier than itself, so the
later one survives whatever the earlier one did (`Identity.isExcluded_settle_of_le`).

- `Key.Below`: the relation between a key and one that has gained certifications;
- `Key.Below.foldlM_take`: records keep it;
- `Key.Below.commit`: what it means for the completed keys.
-/

set_option autoImplicit false

namespace WebOfTrust

open Dump

/-! ### Lists side by side -/

/-- Each member of the first list has a partner in the second. `List.Forall₂` relates two lists
member by member. -/
theorem exists_of_forall₂_left {α β : Type} {R : α → β → Prop} {as : List α} {bs : List β}
    (h : List.Forall₂ R as bs) : ∀ a ∈ as, ∃ b ∈ bs, R a b := by
  induction h with
  | nil => simp
  | cons hab _ ih =>
    intro a ha
    rcases List.mem_cons.1 ha with rfl | ha
    · exact ⟨_, List.mem_cons_self, hab⟩
    · obtain ⟨b, hb, hr⟩ := ih a ha
      exact ⟨b, List.mem_cons_of_mem _ hb, hr⟩

/-- Each member of the second list has a partner in the first. It is the other lemma for the flipped
relation. -/
theorem exists_of_forall₂_right {α β : Type} {R : α → β → Prop} {as : List α} {bs : List β}
    (h : List.Forall₂ R as bs) : ∀ b ∈ bs, ∃ a ∈ as, R a b :=
  exists_of_forall₂_left h.flip

/-- If the test `q` of an element does not fail where the test `p` of its partner succeeds, then `q`
succeeds at least as often as `p` does. The live user ids of two keys are compared by this. -/
theorem countP_le_of_forall₂ {α β : Type} {R : α → β → Prop} {p : α → Bool} {q : β → Bool}
    {as : List α} {bs : List β} (h : List.Forall₂ R as bs)
    (hpq : ∀ a b, R a b → p a = true → q b = true) : as.countP p ≤ bs.countP q := by
  induction h with
  | nil => exact Nat.le_refl _
  | @cons a b as bs hab _ ih =>
    rw [List.countP_cons, List.countP_cons]
    by_cases ha : p a = true
    · rw [if_pos ha, if_pos (hpq a b hab ha)]
      exact Nat.succ_le_succ ih
    · rw [if_neg ha]
      exact Nat.le_add_right_of_le ih

/-! ### Settings -/

/-- `lax` leaves out no certification that `strict` lets in. It is asked flag by flag and hash by
hash, so it can be read off the settings. -/
structure ResolutionSettings.Relaxes (lax strict : ResolutionSettings) : Prop where
  expired : lax.excludeExpired = true → strict.excludeExpired = true
  revoked : lax.excludeRevoked = true → strict.excludeRevoked = true
  deprecated : ∀ hash, lax.isDeprecated hash = true → strict.isDeprecated hash = true

/-- Settings leave out no more than they do themselves. By this a comparison of settings is used
where only the dump differs. -/
theorem ResolutionSettings.Relaxes.refl (settings : ResolutionSettings) :
    settings.Relaxes settings :=
  ⟨id, id, fun _ => id⟩

variable {lax strict : ResolutionSettings}

/-- A certification counts if it passes the three tests of the settings, each of which may be
switched off. -/
theorem Certification.isExcluded_eq_false_iff {settings : ResolutionSettings} {c : Certification} :
    c.isExcluded settings = false ↔
      (settings.excludeRevoked = true → c.revoked = false) ∧
        (settings.excludeExpired = true → c.expired = false) ∧
        settings.isDeprecated c.hash = false := by
  rw [isExcluded]
  cases settings.excludeRevoked <;> cases settings.excludeExpired <;> simp [and_assoc]

/-- What counts under the stricter settings counts under the laxer ones. The settings are compared
field by field, as `Certification.isExcluded` asks for each of them in turn. -/
theorem ResolutionSettings.Relaxes.isExcluded (hrelax : lax.Relaxes strict) {c : Certification}
    (h : c.isExcluded strict = false) : c.isExcluded lax = false := by
  rw [Certification.isExcluded_eq_false_iff] at h ⊢
  obtain ⟨hrevoked, hexpired, hdeprecated⟩ := h
  refine ⟨fun hl => hrevoked (hrelax.revoked hl), fun hl => hexpired (hrelax.expired hl), ?_⟩
  rw [Bool.eq_false_iff] at hdeprecated ⊢
  exact fun hl => hdeprecated (hrelax.deprecated _ hl)

/-! ### User ids -/

namespace Identity

variable {owner : KeyId} {i i' : Identity}

/-- A certification that is retained under `lax` is still retained when its user id is complete, if
under `strict` one of the same issuer is that is no later. This is why a displaced certification is
never missed: a revocation that reaches the later one reaches the earlier one too. -/
theorem isExcluded_settle_of_le (hrelax : lax.Relaxes strict)
    (hrevocations : i'.revocations = i.revocations) {c c' : Certification}
    (hissuer : c'.issuer = c.issuer) (hdate : c.date ≤ c'.date)
    (hc : (i.settle c).isExcluded strict = false) (hc' : c'.isExcluded lax = false) :
    (i'.settle c').isExcluded lax = false := by
  rw [settle, hrevocations, hissuer]
  cases hr : i.revocations.find? c.issuer with
  | none => exact hc'
  | some r =>
    rw [settle, hr, Certification.isExcluded_eq_false_iff] at hc
    rw [Certification.isExcluded_eq_false_iff] at hc' ⊢
    refine ⟨fun hl => ?_, hc'.2⟩
    -- The revocation `r` is no later than `c`, hence no later than `c'`.
    have hstrict := hc.1 (hrelax.revoked hl)
    simp only [Bool.or_eq_false_iff, decide_eq_false_iff_not] at hstrict ⊢
    exact ⟨hc'.1 hl, fun hlt =>
      String.not_lt.2 (String.le_trans (String.not_lt.1 hstrict.2) hdate) hlt⟩

/-- `i'` has been told all that `i` has, under laxer settings, and perhaps further
certifications. -/
structure Below (lax : ResolutionSettings) (owner : KeyId) (i i' : Identity) : Prop where
  /-- Only the owner revokes a user id, and certifications do not. -/
  revoked : i'.revoked = i.revoked
  /-- Revocations are the same on both sides. -/
  revocations : i'.revocations = i.revocations
  /-- No issuer is lost, and none has an earlier certification. -/
  holdings : i.holdings.Below owner i'.holdings
  /-- What `i` holds was given by those from whom it is held. -/
  sound : i.holdings.Sound owner fun _ => True
  /-- So was what `i'` holds, and it counts under the laxer settings. -/
  retained : i'.holdings.Sound owner fun c => c.isExcluded lax = false

/-- Two user ids that hold nothing are in order. Inductions over the records of a key start from
it. -/
theorem below_new (lax : ResolutionSettings) (owner : KeyId) (userId : String) :
    Below lax owner { userId } { userId } where
  revoked := rfl
  revocations := rfl
  holdings := fun issuer c hc => by simp at hc
  sound := Holdings.sound_empty owner _
  retained := Holdings.sound_empty owner _

/-- A certification of both keeps them in order, whether or not it is accepted on either side. -/
theorem Below.certify (hrelax : lax.Relaxes strict) (hb : Below lax owner i i')
    (c : Certification) : Below lax owner (i.certify strict owner c) (i'.certify lax owner c) where
  revoked := hb.revoked
  revocations := hb.revocations
  holdings := hb.holdings.offer hrelax.isExcluded
  sound := hb.sound.offer fun _ => trivial
  retained := hb.retained.offer id

/-- A certification of the second one only keeps them in order, because an offer leaves nothing
earlier. -/
theorem Below.certify_right (hb : Below lax owner i i') (c : Certification) :
    Below lax owner i (i'.certify lax owner c) where
  revoked := hb.revoked
  revocations := hb.revocations
  holdings := hb.holdings.trans (Holdings.below_offer lax owner i'.holdings c)
  sound := hb.sound
  retained := hb.retained.offer id

/-- A revocation of both keeps them in order: it goes to the same place on both sides, since the
revocations are the same. -/
theorem Below.revoke (hb : Below lax owner i i') (r : Revocation) :
    Below lax owner (i.revoke owner r) (i'.revoke owner r) := by
  refine
    { revoked := ?_
      revocations := ?_
      holdings := by
        rw [holdings_revoke, holdings_revoke]
        exact hb.holdings
      sound := by
        rw [holdings_revoke]
        exact hb.sound
      retained := by
        rw [holdings_revoke]
        exact hb.retained }
  · -- Both sides decide on `revocations` alone, hence alike.
    rw [Identity.revoke, Identity.revoke, hb.revocations]
    split
    · rfl
    · split <;> exact hb.revoked
  · rw [Identity.revoke, Identity.revoke, hb.revocations]
    split
    · rfl
    · split
      · rfl
      · exact hb.revocations

/-- Whoever certifies `i` when it is complete certifies `i'` as well, with a certification that
counts. -/
theorem Below.exists_commit (hrelax : lax.Relaxes strict) (hb : Below lax owner i i')
    {issuer : KeyId} {c : Certification} (hc : i.commit.holdings.from? owner issuer = some c)
    (hexcluded : c.isExcluded strict = false) :
    ∃ c', i'.commit.holdings.from? owner issuer = some c' ∧ c'.isExcluded lax = false := by
  rw [from?_commit] at hc ⊢
  by_cases hi : issuer = owner
  · -- No revocation reaches the certification of the owner.
    rw [if_pos hi] at hc ⊢
    rw [← Holdings.from?_owner owner] at hc ⊢
    obtain ⟨c', hc', -⟩ := hb.holdings owner c hc
    exact ⟨c', hc', (hb.retained.held owner c' hc').2⟩
  · -- What `i'` holds from this issuer was retained, and is no earlier than what `i` holds.
    rw [if_neg hi] at hc ⊢
    rw [← Holdings.from?_of_ne hi] at hc ⊢
    obtain ⟨d, hd, rfl⟩ := Option.map_eq_some_iff.1 hc
    obtain ⟨d', hd', hdate⟩ := hb.holdings issuer d hd
    obtain ⟨hissuer', hretained⟩ := hb.retained.held issuer d' hd'
    have hissuer : d.issuer = issuer := (hb.sound.held issuer d hd).1
    exact ⟨i'.settle d', by rw [hd']; rfl, isExcluded_settle_of_le hrelax hb.revocations
      (hissuer'.trans hissuer.symm) hdate hexcluded hretained⟩

/-- If the owner has certified `i`, it has certified `i'`. -/
theorem Below.isSome_own (hb : Below lax owner i i') (h : i.holdings.own.isSome = true) :
    i'.holdings.own.isSome = true := by
  obtain ⟨c, hc⟩ := Option.isSome_iff_exists.1 h
  rw [← Holdings.from?_owner owner] at hc
  obtain ⟨c', hc', -⟩ := hb.holdings owner c hc
  rw [Holdings.from?_owner] at hc'
  exact Option.isSome_iff_exists.2 ⟨c', hc'⟩

/-- A live user id stays live: the owner revokes both or none, and has still certified the one with
more certifications. -/
theorem Below.isLive (hb : Below lax owner i i') (h : i.isLive = true) : i'.isLive = true := by
  rw [Identity.isLive, Bool.and_eq_true, Bool.not_eq_true'] at h ⊢
  exact ⟨hb.revoked.trans h.1, hb.isSome_own h.2⟩

end Identity

/-! ### Keys -/

/-- `rs'` are the records `rs` with certifications inserted, at any places and any number of
them. -/
inductive MoreCertified : List Record → List Record → Prop
  | nil : MoreCertified [] []
  | cons (r : Record) {rs rs' : List Record} (h : MoreCertified rs rs') :
      MoreCertified (r :: rs) (r :: rs')
  | certified (s : Signature) {rs rs' : List Record} (h : MoreCertified rs rs') :
      MoreCertified rs (.sig s :: rs')

/-- Nothing need be inserted. The theorem on settings is that on insertions for this case. -/
theorem MoreCertified.refl (rs : List Record) : MoreCertified rs rs := by
  induction rs with
  | nil => exact .nil
  | cons r rs ih => exact .cons r ih

namespace Key

/-- `k'` has been told all that `k` has, under laxer settings, and perhaps further
certifications. -/
structure Below (lax : ResolutionSettings) (k k' : Key) : Prop where
  /-- Both were opened by the same record. -/
  record : k'.record = k.record
  /-- Both were revoked by the same key, or not at all. -/
  revoker : k'.revoker = k.revoker
  /-- They have the same user ids, each in order with its partner. -/
  identities : List.Forall₂ (Identity.Below lax k.keyId) k.newestFirst k'.newestFirst

variable {k k' k₁ k₁' : Key}

/-- Keys in order have one id. The comparison is between two histories of one key. -/
theorem Below.keyId (hb : Below lax k k') : k'.keyId = k.keyId :=
  congrArg PubRecord.keyId hb.record

/-- Two keys without user ids are in order if one record opened them. Together with `Below.take` it
gives `Segment.below_commit`. -/
theorem below_new (lax : ResolutionSettings) (record : PubRecord) :
    Below lax { record } { record } :=
  ⟨rfl, rfl, .nil⟩

/-- A record of both keeps them in order. The cases are the kinds of records, and both sides take
the same one. -/
theorem Below.take (hrelax : lax.Relaxes strict) (hb : Below lax k k') {r : Record}
    (h : k.take strict r = .ok k₁) (h' : k'.take lax r = .ok k₁') : Below lax k₁ k₁' := by
  have hid := hb.keyId
  cases r with
  | pub record =>
    rw [← Except.ok.inj h, ← Except.ok.inj h']
    exact hb
  | spk record =>
    rw [← Except.ok.inj h, ← Except.ok.inj h']
    exact hb
  | uid record =>
    rw [← Except.ok.inj h, ← Except.ok.inj h']
    exact ⟨hb.record, hb.revoker, .cons (Identity.below_new lax _ _) hb.identities⟩
  | sig signature =>
    obtain ⟨i, rest, hi, rfl⟩ := certify_eq_ok h
    obtain ⟨i', rest', hi', rfl⟩ := certify_eq_ok h'
    have hids := hb.identities
    rw [hi, hi', List.forall₂_cons] at hids
    rw [hid]
    exact ⟨hb.record, hb.revoker, .cons (hids.1.certify hrelax _) hids.2⟩
  | rev revocation =>
    obtain ⟨i, rest, hi, hk⟩ := revoke_eq_ok h
    obtain ⟨i', rest', hi', hk'⟩ := revoke_eq_ok h'
    have hids := hb.identities
    rw [hi, hi', List.forall₂_cons] at hids
    -- The kind of the revocation settles the case on both sides.
    rcases hk with ⟨hkind, rfl⟩ | ⟨hkind, rfl⟩ | ⟨hkind, hkind', rfl⟩
    · obtain ⟨-, rfl⟩ | ⟨hkind', -⟩ | ⟨hkind', -⟩ := hk'
      · rw [hid]
        exact ⟨hb.record, hb.revoker, .cons (hids.1.revoke _) hids.2⟩
      · rw [hkind] at hkind'
        cases hkind'
      · exact absurd hkind hkind'
    · obtain ⟨hkind', -⟩ | ⟨-, rfl⟩ | ⟨-, hkind', -⟩ := hk'
      · rw [hkind] at hkind'
        cases hkind'
      · exact ⟨hb.record, rfl, hb.identities⟩
      · exact absurd hkind hkind'
    · obtain ⟨hkind₁, -⟩ | ⟨hkind₁, -⟩ | ⟨-, -, rfl⟩ := hk'
      · exact absurd hkind₁ hkind
      · exact absurd hkind₁ hkind'
      · exact hb

/-- A further certification of the second key keeps them in order, by `Identity.Below.certify_right`
for its newest user id. -/
theorem Below.take_sig (hb : Below lax k k') {s : Signature}
    (h' : k'.take lax (.sig s) = .ok k₁') : Below lax k k₁' := by
  obtain ⟨i', rest', hi', rfl⟩ := certify_eq_ok h'
  have hids := hb.identities
  rw [hi', List.forall₂_cons_right_iff] at hids
  obtain ⟨i, rest, hi, hrest, hk⟩ := hids
  refine ⟨hb.record, hb.revoker, ?_⟩
  rw [hk, hb.keyId]
  exact .cons (hi.certify_right _) hrest

/-- Records on one side, and the same with certifications inserted on the other, keep two keys in
order. The induction is on `MoreCertified`. -/
theorem Below.foldlM_take (hrelax : lax.Relaxes strict) {rs rs' : List Record}
    (hrs : MoreCertified rs rs') (hb : Below lax k k')
    (h : rs.foldlM (Key.take strict) k = .ok k₁)
    (h' : rs'.foldlM (Key.take lax) k' = .ok k₁') : Below lax k₁ k₁' := by
  induction hrs generalizing k k' with
  | nil =>
    rw [List.foldlM_nil, except_pure_eq_ok] at h h'
    exact h ▸ h' ▸ hb
  | cons r _ ih =>
    rw [List.foldlM_cons, except_bind_eq_ok] at h h'
    obtain ⟨k₂, h₂, h⟩ := h
    obtain ⟨k₂', h₂', h'⟩ := h'
    exact ih (hb.take hrelax h₂ h₂') h h'
  | certified s _ ih =>
    -- Only the second key moves.
    rw [List.foldlM_cons, except_bind_eq_ok] at h'
    obtain ⟨k₂', h₂', h'⟩ := h'
    exact ih (hb.take_sig h₂') h h'

/-! ### Completed keys -/

/-- The user ids of the first key hold what their issuers gave. The `Sound` of the first key is with
the stricter settings. -/
theorem Below.sound (hb : Below lax k k') : k.Sound fun _ => True := by
  intro i hi
  obtain ⟨i', -, hi'⟩ := exists_of_forall₂_left hb.identities i hi
  exact hi'.sound

/-- So do those of the second one, and all of it counts under the laxer settings. It is what makes a
live user id of the first key live in the second one. -/
theorem Below.retained (hb : Below lax k k') :
    k'.Sound fun c => c.isExcluded lax = false := by
  intro i' hi'
  obtain ⟨i, -, hi⟩ := exists_of_forall₂_right hb.identities i' hi'
  rw [hb.keyId]
  exact hi.retained

/-- The completed keys hold a certification from the same issuers at least. Consolidation takes the
newest of all user ids, and a newer one is still from that issuer. -/
theorem Below.isSome_consolidated (hrelax : lax.Relaxes strict) (hb : Below lax k k')
    {issuer : KeyId} (h : ((k.consolidated strict).from? k.keyId issuer).isSome = true) :
    ((k'.consolidated lax).from? k.keyId issuer).isSome = true := by
  rw [Key.isSome_consolidated hb.sound] at h
  rw [← hb.keyId, Key.isSome_consolidated hb.retained]
  obtain ⟨i, hi, hrevoked, hown, c, hc, hexcluded⟩ := h
  obtain ⟨i', hi', hbelow⟩ := exists_of_forall₂_left hb.identities i hi
  obtain ⟨c', hc', hexcluded'⟩ := hbelow.exists_commit hrelax hc hexcluded
  exact ⟨i', hi', hbelow.revoked.trans hrevoked, hbelow.isSome_own hown, c', hb.keyId ▸ hc',
    hexcluded'⟩

end Key

/-- A completed key, and one that has gained certifications. It says of single keys what
`TrustGained` says of both passes. -/
structure CommittedKey.Below (k k' : CommittedKey) : Prop where
  /-- Both were opened by the same record. -/
  record : k'.record = k.record
  /-- The status is the same, unless an invalid key has become valid. -/
  status : k'.status = k.status ∨ k.status = .invalid ∧ k'.status = .valid
  /-- No user id has ceased to be valid. -/
  validIdentities : k.validIdentities ≤ k'.validIdentities
  /-- No issuer is lost. -/
  issuers : ∀ issuer, issuer ∈ k.certifications → issuer ∈ k'.certifications

namespace Key

variable {k k' : Key}

/-- A further self-certification decides only where nothing else does: revocation and expiry come
before it. So `KeyStatus.Validates` is the only way in which a raw status changes. -/
theorem target_settlingEvent (hrecord : k'.record = k.record) (hrevoker : k'.revoker = k.revoker)
    {own own' : Option Certification} (hown : own.isSome = true → own'.isSome = true) :
    (k'.settlingEvent own').target = (k.settlingEvent own).target ∨
      (k.settlingEvent own).target = .invalid ∧ (k'.settlingEvent own').target = .valid := by
  rw [settlingEvent, settlingEvent, hrevoker, keyId, keyId, hrecord]
  -- Revocation and expiry are settled by the revoker and the record alone.
  split
  · exact .inl rfl
  split
  · exact .inl rfl
  split
  · exact .inl rfl
  cases hs : own.isSome with
  | true =>
    rw [hown hs]
    exact .inl rfl
  | false =>
    cases hs' : own'.isSome with
    | false => exact .inl rfl
    | true => exact .inr ⟨rfl, rfl⟩

/-- Keys in order are in order when they are completed. The result is `CommittedKey.Below`, which
says what the passes look at. -/
theorem Below.commit (hrelax : lax.Relaxes strict) (hb : Below lax k k') :
    (k.commit strict).Below (k'.commit lax) where
  record := hb.record
  status := by
    rw [status_commit, status_commit]
    refine target_settlingEvent hb.record hb.revoker fun hown => ?_
    -- The self-certification is what is held from the owner.
    rw [← Holdings.from?_owner k.keyId] at hown ⊢
    exact hb.isSome_consolidated hrelax hown
  validIdentities := by
    show k.liveIdentities.length ≤ k'.liveIdentities.length
    rw [length_liveIdentities, length_liveIdentities]
    exact countP_le_of_forall₂ hb.identities fun _ _ hi => hi.isLive
  issuers := by
    intro issuer hissuer
    obtain ⟨c, hc⟩ := Option.isSome_iff_exists.1 (Table.mem_iff.1 hissuer)
    obtain ⟨hne, hc⟩ := (find?_certifications_commit hb.sound fun _ _ _ => id).1 hc
    have hsome := hb.isSome_consolidated hrelax (Option.isSome_iff_exists.2 ⟨c, hc⟩)
    obtain ⟨c', hc'⟩ := Option.isSome_iff_exists.1 hsome
    rw [← hb.keyId] at hne hc'
    refine Table.mem_iff.2 (Option.isSome_iff_exists.2 ⟨c', ?_⟩)
    have hsound : k'.Sound fun _ => True := hb.retained.imp fun _ _ => trivial
    exact (find?_certifications_commit hsound fun _ _ _ => id).2 ⟨hne, hc'⟩

end Key

end WebOfTrust
