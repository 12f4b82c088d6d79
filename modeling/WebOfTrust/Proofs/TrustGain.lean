import WebOfTrust.Proofs.Keyring.Gain
import WebOfTrust.Proofs.Promotion

/-!
# `WebOfTrust.Proofs.TrustGain`: whoever gains certifications loses no trust

Two runs of both passes are compared, of which the second one reads the same keys with further
certifications, under settings that leave out no more. Key by key the second run then finds at least
what the first one found (`Keyring.Gain`). From there it is a matter of sets: more keys are
interesting, so more certifications come from interesting keys, so more keys have a block.

The number of valid user ids is not the same in both runs. A user id can become valid on any key,
whatever its status is, so even the line of an expired key may differ in that field. But none ceases
to be valid, so the number never falls.

- `TrustGained`: what the second run leaves, compared with the first one;
- `trustGained_of_segments`: runs over related segments;
- `relaxed_settings_gain_trust`: the same dump under laxer settings.
-/

set_option autoImplicit false

namespace WebOfTrust

open Dump Resolver

/-! ### Statuses and lines -/

namespace KeyStatus

/-- A key without self-certification may come to have one. No other change of a raw status is
possible when certifications are added. -/
def Validates (s s' : KeyStatus) : Prop :=
  s' = s ∨ s = .invalid ∧ s' = .valid

/-- It may then be promoted too, as may one that was valid before. This is the relation for the
final table. -/
def Rises (s s' : KeyStatus) : Prop :=
  s' = s ∨ s = .invalid ∧ (s' = .valid ∨ s' = .certified) ∨ s = .valid ∧ s' = .certified

end KeyStatus

/-- Two lines that agree but for the status, which is related by `R`, and for the number of valid
user ids, which has not fallen. -/
structure StatusLine.Gained (R : KeyStatus → KeyStatus → Prop) (l l' : StatusLine) : Prop where
  /-- No other field differs. -/
  fields : l' = { l with status := l'.status, validIdentities := l'.validIdentities }
  /-- The status has changed by `R`, or not at all. -/
  status : R l.status l'.status
  /-- No user id has become invalid. -/
  validIdentities : l.validIdentities ≤ l'.validIdentities

/-- Whether a block lists a certification of `signee` by `issuer`. Corpora are compared by it when
blocks may have got new entries. -/
def Corpus.HasEdge (blocks : List EdgeBlock) (issuer signee : KeyId) : Prop :=
  ∃ b ∈ blocks, b.signee = signee ∧ ∃ s ∈ b.entries, s.issuer = issuer

/-- The id of a key, if that is what an item is. Records of other kinds, and errors, are no keys. -/
def Dump.Item.keyId? : Item → Option KeyId
  | .ok (_, .pub record) => some record.keyId
  | _ => none

/-- The ids of the keys of a dump, in its order and with repetitions. Whether it is `Nodup` is the
condition of several theorems about both passes. -/
def Dump.keyIds (dump : Source) : List KeyId := (records dump).filterMap Item.keyId?

/-- What a second run has gained over a first one: line by line no status is worse and no number of
valid user ids smaller, no key is interesting no more, and where the ids of the dump are distinct no
edge is lost. -/
structure TrustGained (ids : List KeyId) (p p' : Resolution) : Prop where
  /-- In the raw table a key may have become valid. -/
  raw : ∃ ls ls', StatusTable.Holds p.raw.status.text ls ∧
    StatusTable.Holds p'.raw.status.text ls' ∧
    List.Forall₂ (StatusLine.Gained KeyStatus.Validates) ls ls'
  /-- In the final one it may have been promoted as well. -/
  final : ∃ ls ls', StatusTable.Holds p.final.status.text ls ∧
    StatusTable.Holds p'.final.status.text ls' ∧
    List.Forall₂ (StatusLine.Gained KeyStatus.Rises) ls ls'
  /-- No key has left the interesting ones. -/
  interesting : ∀ id ∈ p.first.interesting, id ∈ p'.first.interesting
  /-- A repeated id is left out, because a new certification may revive an earlier block of the key,
  which then displaces the one that was kept. -/
  edges : ids.Nodup → ∃ blocks blocks', Corpus.Holds p.final.corpus.text blocks ∧
    Corpus.Holds p'.final.corpus.text blocks' ∧
    ∀ issuer signee, Corpus.HasEdge blocks issuer signee → Corpus.HasEdge blocks' issuer signee

/-! ### Single keys -/

/-- Counts stay in their order when they are cut down to words, even where both of them exceed the
greatest word. -/
theorem ofNatClamp_le_ofNatClamp {m n : Nat} (h : m ≤ n) :
    UInt64.ofNatClamp m ≤ UInt64.ofNatClamp n := by
  rw [UInt64.le_iff_toNat_le]
  rcases Nat.lt_or_ge n UInt64.size with hn | hn
  · rw [UInt64.toNat_ofNatClamp_of_lt (Nat.lt_of_le_of_lt h hn), UInt64.toNat_ofNatClamp_of_lt hn]
    exact h
  · -- The greater one is the greatest word.
    rw [UInt64.toNat_ofNatClamp_of_le hn]
    exact Nat.le_sub_one_of_lt (UInt64.toNat_lt _)

namespace CommittedKey

variable {k k' : CommittedKey}

/-- Keys that are compared have one id, as they have one record. `CommittedKey.Below` has it as an
equation of records. -/
theorem Below.keyId (hb : k.Below k') : k'.keyId = k.keyId :=
  congrArg PubRecord.keyId hb.record

/-- A key is interesting if it is valid and holds a certification by another key; which one does not
matter. -/
theorem isInteresting_iff : k.isInteresting = true ↔
    k.status = .valid ∧ ∃ issuer, issuer ∈ k.certifications := by
  rw [isInteresting, Bool.and_eq_true, decide_eq_true_eq, Bool.not_eq_true',
    Table.isEmpty_eq_false_iff]
  refine and_congr_right fun _ => ?_
  simp only [Table.mem_values_iff, Table.mem_iff, Option.isSome_iff_exists]
  exact exists_comm

/-- A key that is interesting is so above itself as well: a valid status stays, and so do the
issuers. -/
theorem Below.isInteresting (hb : k.Below k') (h : k.isInteresting = true) :
    k'.isInteresting = true := by
  rw [isInteresting_iff] at h ⊢
  obtain ⟨hvalid, issuer, hissuer⟩ := h
  refine ⟨?_, issuer, hb.issuers issuer hissuer⟩
  show k'.status = .valid
  rcases hb.status with hs | ⟨-, hs⟩
  · rw [hs, hvalid]
  · exact hs

/-- The lines of the two keys. Their counts are compared as words, which is what
`ofNatClamp_le_ofNatClamp` is for. -/
theorem Below.statusLine (hb : k.Below k') :
    StatusLine.Gained KeyStatus.Validates k.statusLine k'.statusLine where
  fields := by simp [CommittedKey.statusLine, CommittedKey.keyId, hb.record]
  status := hb.status
  validIdentities := ofNatClamp_le_ofNatClamp hb.validIdentities

/-- What is held from an issuer was given by it. A table could hold anything under an id; this says
that `Holdings` did not mix them up. -/
def Sound (k : CommittedKey) : Prop :=
  ∀ issuer c, k.certifications.find? issuer = some c → c.issuer = issuer

/-- The issuers that a block names are those of whom the key holds a certification. For a sound key,
what is under an id names that id. -/
theorem Sound.exists_issuer_iff (hk : k.Sound) {issuer : KeyId} :
    (∃ s ∈ k.certifications.values.map Certification.toSignature, s.issuer = issuer) ↔
      issuer ∈ k.certifications := by
  simp only [List.mem_map, exists_exists_and_eq_and, Table.mem_values_iff, Table.mem_iff,
    Option.isSome_iff_exists]
  constructor
  · rintro ⟨c, ⟨issuer', hc⟩, rfl⟩
    exact ⟨c, by rw [show c.issuer = issuer' from hk issuer' c hc]; exact hc⟩
  · rintro ⟨c, hc⟩
    exact ⟨c, ⟨issuer, hc⟩, hk issuer c hc⟩

end CommittedKey

/-- Keys that come from records are sound, by the same property of their user ids.
`Key.sound_consolidated` carries it over to the completed key. -/
theorem Segment.sound_commit {settings : ResolutionSettings} {s : Segment} {k : CommittedKey}
    (h : s.commit settings = .ok k) : k.Sound := by
  obtain ⟨key, hkey, rfl⟩ := except_map_eq_ok.1 h
  have hsound : key.Sound fun _ => True := Key.sound_foldlM_take (fun _ _ => trivial) hkey
  intro issuer c hc
  obtain ⟨-, hheld⟩ := (Key.find?_certifications_commit hsound fun _ _ _ => id).1 hc
  exact ((Key.sound_consolidated hsound fun _ _ _ => id).held issuer c hheld).1

/-! ### Blocks in terms of keys -/

/-- The block of a key, as the second pass reads it: with the levels that have gone through the
text. -/
def CommittedKey.readBlock (k : CommittedKey) : EdgeBlock :=
  EdgeBlock.reread ⟨k.keyId, k.certifications.values.map Certification.toSignature⟩

/-- The blocks that the second pass reads are those of the interesting keys.
`CommittedKey.readBlock` is such a block, in terms of its key. -/
theorem mem_readBlocks_iff {keys : List CommittedKey} {b : EdgeBlock} :
    b ∈ (edgeBlocks keys).map EdgeBlock.reread ↔
      ∃ k ∈ keys, k.isInteresting = true ∧ k.readBlock = b := by
  simp only [List.mem_map, mem_edgeBlocks_iff]
  constructor
  · rintro ⟨_, ⟨k, hk, hinteresting, rfl⟩, rfl⟩
    exact ⟨k, hk, hinteresting, rfl⟩
  · rintro ⟨k, hk, hinteresting, rfl⟩
    exact ⟨_, ⟨k, hk, hinteresting, rfl⟩, rfl⟩

/-- They come in the order of the keys, one for each interesting one. So whether a signee comes
twice depends on the keys. -/
theorem signees_edgeBlocks (keys : List CommittedKey) :
    (edgeBlocks keys).map EdgeBlock.signee
      = (keys.filter CommittedKey.isInteresting).map CommittedKey.keyId := by
  induction keys with
  | nil => rfl
  | cons k keys ih =>
    rw [edgeBlocks, List.filterMap_cons, CommittedKey.edgeBlock, List.filter_cons]
    cases k.isInteresting with
    | false => exact ih
    | true => exact congrArg (k.keyId :: ·) ih

/-- If no id occurs twice, the second pass reads no two blocks of one key. `keptBlocks_eq_filterMap`
needs it as a hypothesis. -/
theorem nodup_signees_readBlocks {keys : List CommittedKey}
    (h : (keys.map CommittedKey.keyId).Nodup) :
    (((edgeBlocks keys).map EdgeBlock.reread).map EdgeBlock.signee).Nodup := by
  rw [signees_reread, signees_edgeBlocks]
  exact h.sublist (List.filter_sublist.map _)

/-- Reading the block again does not change its issuers. It is `Sound.exists_issuer_iff` for
`readBlock`. -/
theorem CommittedKey.Sound.exists_mem_readBlock_iff {k : CommittedKey} (hk : k.Sound)
    {issuer : KeyId} :
    (∃ s ∈ k.readBlock.entries, s.issuer = issuer) ↔ issuer ∈ k.certifications := by
  rw [← hk.exists_issuer_iff]
  simp only [readBlock, EdgeBlock.reread, List.mem_map, exists_exists_and_eq_and,
    Signature.issuer_reread]

variable {settings settings' : ResolutionSettings} {items items' : List (Nat × Record)}
  {keys keys' : List CommittedKey} {blocks blocks' : List EdgeBlock} {p p' : Resolution}

namespace Passed

/-- The keys behind both passes are sound, as each comes from its segment. `Segment.sound_commit` is
the lemma for one of them. -/
theorem sound (h : Passed settings items keys blocks p) : ∀ k ∈ keys, k.Sound := by
  intro k hk
  obtain ⟨s, -, hs⟩ := h.resolved.exists_segment hk
  exact Segment.sound_commit hs

/-- The keys of which a block is kept are the interesting ones with an interesting issuer. A key
that occurs twice needs one such occurrence. -/
theorem heads_iff (h : Passed settings items keys blocks p) {id : KeyId} :
    (∃ b ∈ blocks, b.signee = id) ↔ ∃ k ∈ keys, k.keyId = id ∧ k.isInteresting = true ∧
      ∃ issuer ∈ k.certifications, issuer ∈ p.first.interesting := by
  rw [h.refined.kept, mem_signees_keptBlocks_iff, and_iff_right (Table.not_mem_empty id)]
  -- A block that is kept was read from that of a key, and the converse.
  constructor
  · rintro ⟨b, hb, rfl, -, s, hs, hissuer⟩
    obtain ⟨k, hk, hinteresting, rfl⟩ := mem_readBlocks_iff.1 hb
    exact ⟨k, hk, rfl, hinteresting, s.issuer,
      ((h.sound k hk).exists_mem_readBlock_iff).1 ⟨s, hs, rfl⟩, hissuer⟩
  · rintro ⟨k, hk, rfl, hinteresting, issuer, hcertified, hissuer⟩
    obtain ⟨s, hs, rfl⟩ := ((h.sound k hk).exists_mem_readBlock_iff).2 hcertified
    exact ⟨k.readBlock, mem_readBlocks_iff.2 ⟨k, hk, hinteresting, rfl⟩, rfl,
      (h.resolved.interesting _).2 ⟨k, hk, hinteresting, rfl⟩, s, hs, hissuer⟩

/-- An edge of the final corpus is a certification of an interesting key by an interesting key. This
direction needs no condition on the ids. -/
theorem exists_key_of_hasEdge (h : Passed settings items keys blocks p) {issuer signee : KeyId}
    (hedge : Corpus.HasEdge blocks issuer signee) : ∃ k ∈ keys, k.keyId = signee ∧
      k.isInteresting = true ∧ issuer ∈ k.certifications ∧ issuer ∈ p.first.interesting := by
  obtain ⟨b, hb, rfl, s, hs, rfl⟩ := hedge
  rw [h.refined.kept] at hb
  obtain ⟨c, hc, -, -, rfl⟩ := exists_of_mem_keptBlocks hb
  obtain ⟨k, hk, hinteresting, rfl⟩ := mem_readBlocks_iff.1 hc
  obtain ⟨hs, hissuer⟩ := EdgeBlock.mem_entries_restrict.1 hs
  exact ⟨k, hk, rfl, hinteresting, ((h.sound k hk).exists_mem_readBlock_iff).1 ⟨s, hs, rfl⟩,
    hissuer⟩

/-- If no id occurs twice, all of these are edges; otherwise a second block of the key is left
out. -/
theorem hasEdge_of_key (h : Passed settings items keys blocks p)
    (hnodup : (keys.map CommittedKey.keyId).Nodup) {k : CommittedKey} (hk : k ∈ keys)
    (hinteresting : k.isInteresting = true) {issuer : KeyId}
    (hcertified : issuer ∈ k.certifications) (hissuer : issuer ∈ p.first.interesting) :
    Corpus.HasEdge blocks issuer k.keyId := by
  obtain ⟨s, hs, rfl⟩ := ((h.sound k hk).exists_mem_readBlock_iff).2 hcertified
  -- Blocks of different keys, so that none of them is left out as a duplicate.
  have hsub := nodup_signees_readBlocks hnodup
  have hkept : k.readBlock.restrict p.first.interesting ∈ blocks := by
    rw [h.refined.kept]
    exact restrict_mem_keptBlocks hsub (mem_readBlocks_iff.2 ⟨k, hk, hinteresting, rfl⟩)
      (Table.not_mem_empty _)
      ⟨(h.resolved.interesting _).2 ⟨k, hk, hinteresting, rfl⟩, s, hs, hissuer⟩
  exact ⟨_, hkept, rfl, s, EdgeBlock.mem_entries_restrict.2 ⟨hs, hissuer⟩, rfl⟩

end Passed

/-- Edges do not depend on levels, so they may be read off before or after a text. -/
theorem Corpus.hasEdge_reread {blocks : List EdgeBlock} {issuer signee : KeyId} :
    HasEdge (blocks.map EdgeBlock.reread) issuer signee ↔ HasEdge blocks issuer signee := by
  simp only [HasEdge, List.mem_map, exists_exists_and_eq_and, EdgeBlock.reread,
    Signature.issuer_reread]

/-! ### Two runs -/

/-- A promotion changes the status and no other field. In particular the number of valid user ids is
that of the raw line. -/
theorem StatusLine.validIdentities_promotedBy (l : StatusLine) (blocks : List EdgeBlock) :
    (l.promotedBy blocks).validIdentities = l.validIdentities := by
  rw [promotedBy]
  split <;> rfl

/-- A line that has gained before the promotion has gained behind it, if no key has lost its block.
The cases are those of `KeyStatus.Validates`. -/
theorem StatusLine.Gained.promotedBy {l l' : StatusLine} (h : Gained KeyStatus.Validates l l')
    (hheads : ∀ id, (∃ b ∈ blocks, b.signee = id) → ∃ b ∈ blocks', b.signee = id) :
    Gained KeyStatus.Rises (l.promotedBy blocks) (l'.promotedBy blocks') := by
  have hid : l'.keyId = l.keyId := by rw [h.fields]
  refine ⟨?fields, ?status, ?validIdentities⟩
  case fields =>
    rw [StatusLine.promotedBy, StatusLine.promotedBy, h.fields]
    split <;> split <;> rfl
  case validIdentities =>
    rw [validIdentities_promotedBy, validIdentities_promotedBy]
    exact h.validIdentities
  case status =>
    by_cases hp : l.Promotes blocks
    · -- A valid line has stayed valid, and its key still has a block.
      have hp' : l'.Promotes blocks' := by
        refine ⟨?_, hid ▸ hheads _ hp.2⟩
        rcases h.status with hs | ⟨hs, -⟩
        · rw [hs, hp.1]
        · rw [hp.1] at hs
          cases hs
      rw [promotedBy_of_promotes hp, promotedBy_of_promotes hp']
      exact .inl rfl
    · rw [promotedBy_of_not_promotes hp]
      by_cases hp' : l'.Promotes blocks'
      · -- The line is promoted only now. It was valid before, or has become so.
        rw [promotedBy_of_promotes hp']
        rcases h.status with hs | ⟨hs, -⟩
        · exact .inr (.inr ⟨hs ▸ hp'.1, rfl⟩)
        · exact .inr (.inl ⟨hs, .inr rfl⟩)
      · rw [promotedBy_of_not_promotes hp']
        rcases h.status with hs | ⟨hs, hs'⟩
        · exact .inl hs
        · exact .inr (.inl ⟨hs, .inl hs'⟩)

/-- Keys that are compared one by one have the same ids. So a condition on the ids holds of both
dumps or of neither. -/
theorem keyIds_of_below (h : List.Forall₂ CommittedKey.Below keys keys') :
    keys'.map CommittedKey.keyId = keys.map CommittedKey.keyId := by
  induction h with
  | nil => rfl
  | cons hb _ ih => rw [List.map_cons, List.map_cons, hb.keyId, ih]

/-- Segments that are related one by one are settled to keys that are, if settling one takes `R` to
`S`. Both lists of segments are settled without error. -/
theorem forall₂_segments {R : Segment → Segment → Prop} {S : CommittedKey → CommittedKey → Prop}
    {ss ss' : List Segment} (hss : List.Forall₂ R ss ss')
    (step : ∀ s s' k k', R s s' → s.commit settings = .ok k → s'.commit settings' = .ok k' → S k k')
    (h : ss.mapM (Segment.commit settings) = .ok keys)
    (h' : ss'.mapM (Segment.commit settings') = .ok keys') : List.Forall₂ S keys keys' := by
  induction hss generalizing keys keys' with
  | nil =>
    rw [List.mapM_nil, except_pure_eq_ok] at h h'
    exact h ▸ h' ▸ .nil
  | cons hs _ ih =>
    simp only [List.mapM_cons, except_bind_eq_ok, except_pure_eq_ok] at h h'
    obtain ⟨k, hk, ks, hks, rfl⟩ := h
    obtain ⟨k', hk', ks', hks', rfl⟩ := h'
    exact .cons (step _ _ _ _ hs hk hk') (ih hks hks')

/-- A segment with further certifications. Records of other kinds are the same and in the same
order. -/
structure Resolver.Segment.MoreCertified (s s' : Segment) : Prop where
  /-- It is of the same key. -/
  head : s'.head = s.head
  /-- Its records are the old ones and some `sig` records. -/
  body : WebOfTrust.MoreCertified s.body s'.body

variable {lax strict : ResolutionSettings}

/-- More certifications under laxer settings give a key that is not below. It joins what is known of
holdings under both changes. -/
theorem Segment.below_commit (hrelax : lax.Relaxes strict) {s s' : Segment} {k k' : CommittedKey}
    (hs : s.MoreCertified s') (h : s.commit strict = .ok k) (h' : s'.commit lax = .ok k') :
    k.Below k' := by
  obtain ⟨key, hkey, rfl⟩ := except_map_eq_ok.1 h
  obtain ⟨key', hkey', rfl⟩ := except_map_eq_ok.1 h'
  rw [Segment.key, hs.head] at hkey'
  exact ((Key.below_new lax s.head).foldlM_take hrelax hs.body hkey hkey').commit hrelax

/-- What both passes have gained, if each key has. The edges are compared by `exists_key_of_hasEdge`
on one side and `hasEdge_of_key` on the other. -/
theorem Passed.trustGained (h : Passed settings items keys blocks p)
    (h' : Passed settings' items' keys' blocks' p')
    (hkeys : List.Forall₂ CommittedKey.Below keys keys') :
    TrustGained (keys.map CommittedKey.keyId) p p' := by
  -- An interesting key has kept its status and its issuers.
  have hinteresting : ∀ id ∈ p.first.interesting, id ∈ p'.first.interesting := by
    intro id hid
    obtain ⟨k, hk, hi, rfl⟩ := (h.resolved.interesting id).1 hid
    obtain ⟨k', hk', hb⟩ := exists_of_forall₂_left hkeys k hk
    exact (h'.resolved.interesting _).2 ⟨k', hk', hb.isInteresting hi, hb.keyId⟩
  -- A block needs an interesting key and an interesting issuer, and both are still there.
  have hheads : ∀ id, (∃ b ∈ blocks, b.signee = id) → ∃ b ∈ blocks', b.signee = id := by
    intro id hid
    obtain ⟨k, hk, rfl, hi, issuer, hcertified, hissuer⟩ := h.heads_iff.1 hid
    obtain ⟨k', hk', hb⟩ := exists_of_forall₂_left hkeys k hk
    exact h'.heads_iff.2 ⟨k', hk', hb.keyId, hb.isInteresting hi, issuer,
      hb.issuers issuer hcertified, hinteresting issuer hissuer⟩
  have hraw : List.Forall₂ (StatusLine.Gained KeyStatus.Validates) (statusLines keys)
      (statusLines keys') :=
    List.forall₂_map_left_iff.2 (List.forall₂_map_right_iff.2
      (hkeys.imp fun _ _ hb => hb.statusLine))
  refine ⟨⟨_, _, h.holds_raw, h'.holds_raw, hraw⟩, ⟨_, _, h.holds_table, h'.holds_table, ?_⟩,
    hinteresting, fun hnodup => ⟨_, _, h.holds_corpus, h'.holds_corpus, ?_⟩⟩
  · show List.Forall₂ (StatusLine.Gained KeyStatus.Rises) _ _
    refine List.forall₂_map_left_iff.2 (List.forall₂_map_right_iff.2 (hraw.imp ?_))
    intro l l' hl
    exact hl.promotedBy hheads
  · -- An edge is told by its key, which has only one block where the ids are distinct.
    intro issuer signee hedge
    rw [Corpus.hasEdge_reread] at hedge ⊢
    obtain ⟨k, hk, rfl, hi, hcertified, hissuer⟩ := h.exists_key_of_hasEdge hedge
    obtain ⟨k', hk', hb⟩ := exists_of_forall₂_left hkeys k hk
    rw [← keyIds_of_below hkeys] at hnodup
    rw [← hb.keyId]
    exact h'.hasEdge_of_key hnodup hk' (hb.isInteresting hi) (hb.issuers issuer hcertified)
      (hinteresting issuer hissuer)

/-- The ids of the keys are those of the dump, so conditions on ids can be read off the dump before
any pass. -/
theorem Resolved.keyIds_eq {first : FirstPass} {raw : Artifacts} {dump : Source}
    (h : Resolved settings items first raw keys) (hdump : records dump = items.map .ok) :
    keys.map CommittedKey.keyId = Dump.keyIds dump := by
  -- The keys are those of the segments, whose heads are the keys that the dump pushes.
  have hrecords := map_of_mapM_eq_ok (fun _ _ => Segment.record_commit) h.committed
  have hids := congrArg (List.map PubRecord.keyId) hrecords
  rw [head_segments, List.map_map, List.map_filterMap, passCalls, List.filterMap_append,
    List.filterMap_map] at hids
  have hitem : ∀ item : Nat × Record, (Call.push item.2).pub?.map PubRecord.keyId
      = Item.keyId? (.ok item) := by
    rintro ⟨n, record | record | record | record | record⟩ <;> rfl
  rw [Dump.keyIds, hdump, List.filterMap_map]
  refine hids.trans ?_
  simp only [Function.comp_def, hitem]
  exact List.append_nil _

/-- Runs over dumps of which the second one has the same segments with further certifications. The
theorems on settings and on insertions are both cases of it. -/
theorem trustGained_of_segments (hrelax : lax.Relaxes strict) {dump dump' : Source}
    (hpasses : bothPasses strict dump = .ok p) (hpasses' : bothPasses lax dump' = .ok p')
    (hsegments : ∀ items items', records dump = items.map .ok → records dump' = items'.map .ok →
      List.Forall₂ Segment.MoreCertified (segments (passCalls items))
        (segments (passCalls items'))) :
    TrustGained (Dump.keyIds dump) p p' := by
  obtain ⟨items, keys, blocks, hitems, h⟩ := bothPasses_eq_ok hpasses
  obtain ⟨items', keys', blocks', hitems', h'⟩ := bothPasses_eq_ok hpasses'
  rw [← h.resolved.keyIds_eq hitems]
  exact h.trustGained h' (forall₂_segments (hsegments items items' hitems hitems')
    (fun _ _ _ _ => Segment.below_commit hrelax) h.resolved.committed h'.resolved.committed)

/-! ### Laxer settings -/

/-- Laxer settings take no trust from a key. The dump is the same, so each segment is related to
itself. -/
theorem relaxed_settings_gain_trust (hrelax : lax.Relaxes strict) {dump : Source}
    (hpasses : bothPasses strict dump = .ok p) (hpasses' : bothPasses lax dump = .ok p') :
    TrustGained (Dump.keyIds dump) p p' := by
  refine trustGained_of_segments hrelax hpasses hpasses' fun items items' hitems hitems' => ?_
  rw [hitems, map_ok_inj] at hitems'
  rw [hitems', List.forall₂_same]
  exact fun s _ => ⟨rfl, .refl s.body⟩

/-- Two keys that certify each other, both with certifications that have expired. Their flags have
the letter `e`, so `excludeExpired` decides about them. -/
def expiredMutualDump : Source := .ofString (Text.unlines
  ["pub::1024:17:AA:2001-01-01::4:", "uid:-::::::::Alice:", "sig:AA:2001-01-01::13::4:17:2",
    "sig:BB:2001-01-02:2002-01-02:13:e:4:17:2",
    "pub::1024:17:BB:2001-01-01::4:", "uid:-::::::::Bob:", "sig:BB:2001-01-01::13::4:17:2",
    "sig:AA:2001-01-02:2002-01-02:13:e:4:17:2"])

/-- Both keys are promoted if expired certifications count, and none of them otherwise. The gain is
that of `TrustGained`, with no loss anywhere. -/
theorem relaxed_settings_gain_trust_expiredMutualDump :
    ∃ p p', bothPasses {} expiredMutualDump = .ok p ∧ p.counts.certified = 0 ∧
      bothPasses { excludeExpired := false } expiredMutualDump = .ok p' ∧
      p'.counts.certified = 2 ∧ TrustGained (Dump.keyIds expiredMutualDump) p p' := by
  have hrelax : ({ excludeExpired := false } : ResolutionSettings).Relaxes {} :=
    ⟨by simp, by simp, by simp [ResolutionSettings.isDeprecated]⟩
  -- With the default settings nobody is certified, and without the exclusion both are.
  have hcount : ((bothPasses {} expiredMutualDump).toOption.map fun p => p.counts.certified)
      = some 0 := by decide +kernel
  have hcount' : ((bothPasses { excludeExpired := false } expiredMutualDump).toOption.map
      fun p => p.counts.certified) = some 2 := by decide +kernel
  obtain ⟨p, hp, hcount⟩ := exists_resolution _ hcount
  obtain ⟨p', hp', hcount'⟩ := exists_resolution _ hcount'
  exact ⟨p, p', hp, hcount, hp', hcount', relaxed_settings_gain_trust hrelax hp hp'⟩

/-- An expired key whose only certification, its own, has expired as well. No setting makes it
valid, because `Key.settlingEvent` looks at its own flag first. -/
def expiredKeyDump : Source := .ofString (Text.unlines
  ["pub:e:1024:17:AA:2001-01-01::4:", "uid:-::::::::Alice:", "sig:AA:2001-01-01::13:e:4:17:2"])

/-- The line of this key is not the same under laxer settings: its user id becomes valid. The status
stays `E`. -/
theorem expired_line_of_relaxed_settings :
    ({ excludeExpired := false } : ResolutionSettings).Relaxes {} ∧
      ((bothPasses {} expiredKeyDump).toOption.map fun p =>
          (p.raw.status.text, p.final.status.text))
        = some ("E;AA;17;1024;2001-01-01;;4;0\n", "E;AA;17;1024;2001-01-01;;4;0\n") ∧
      ((bothPasses { excludeExpired := false } expiredKeyDump).toOption.map fun p =>
          (p.raw.status.text, p.final.status.text))
        = some ("E;AA;17;1024;2001-01-01;;4;1\n", "E;AA;17;1024;2001-01-01;;4;1\n") := by
  refine ⟨⟨by simp, by simp, by simp [ResolutionSettings.isDeprecated]⟩, ?_, ?_⟩
  · decide +kernel
  · decide +kernel

end WebOfTrust
