import WebOfTrust.Proofs.Keyring.Retention

/-!
# `WebOfTrust.Proofs.Keyring.Consolidation`: a completed key has one certification per issuer

A key that is completed looks at its live user ids one after the other, and at what each of them
retains from an issuer. By then a certification may be marked as revoked, and the settings may leave
it out for that (`Identity.standing?`). What it has displaced on its user id does not come back, but
another user id may have one that stands. Of all those the key takes the first of the latest, so
that of two with one date the one on the earlier user id counts.

A key is built by what is added to it (`Key.Addition`): user ids, any certifications that are not
marked as revoked yet, and revocations. It is completed under the settings under which it was built.

- `Holdings.from?_foldl_offer`: what is held behind many offers;
- `Identity.filter_candidates`: what a user id offers from an issuer;
- `Key.sound_build`: what is retained while a key is built;
- `Key.commit_consolidates`: the certifications of a completed key;
- `Key.commit_consolidates_tie`: two certifications with one date.
-/

set_option autoImplicit false

namespace WebOfTrust

open Dump
open Identity (plainCertification)

variable {settings : ResolutionSettings} {owner : KeyId}

/-! ### Offers -/

/-- Out of many certifications, the first of the latest that count is held from each issuer. Each
`Holdings.offer` is one more candidate, by `Holdings.map_from?_offer`. -/
theorem Holdings.from?_foldl_offer (settings : ResolutionSettings) (owner : KeyId)
    (cs : List Certification) (issuer : KeyId) :
    (cs.foldl (Holdings.offer settings owner) {}).from? owner issuer
      = ((cs.filter fun c => c.issuer = issuer).filter fun c => !c.isExcluded settings).argmax
          (·.date) := by
  -- From behind: the last offer is decided against what the ones before it left.
  induction cs using List.reverseRecOn with
  | nil => simp
  | append_singleton cs c ih =>
    rw [← Option.map_id_apply (x := from? owner _ issuer)] at ih
    have hoffer := map_from?_offer settings c id (fun _ => rfl) ih
    rw [Option.map_id_apply] at hoffer
    rw [List.foldl_append, List.foldl_cons, List.foldl_nil, hoffer, List.filter_append,
      List.filter_append]
    congr 2
    by_cases hi : c.issuer = issuer <;> cases hx : c.isExcluded settings <;>
      simp [hi, hx]

namespace Identity

variable {i : Identity} {P : Certification → Prop}

/-- What a user id offers from an issuer is what it holds: at most one certification, since the
owner and the others have one place each. -/
theorem filter_candidates (hs : i.holdings.Sound owner P) (issuer : KeyId) :
    i.candidates.filter (fun c => c.issuer = issuer) = (i.holdings.from? owner issuer).toList := by
  -- Of the two places that a user id offers from, one can hold something of this issuer.
  have hvalues : i.certifications.filter (fun c => c.issuer = issuer)
      = (i.holdings.byIssuer.find? issuer).toList :=
    Table.filter_values (fun k c hc => (hs.held k c (hs.find?_byIssuer_iff.1 hc).2).1) issuer
  have hown : ∀ c ∈ i.holdings.own.toList, c.issuer = owner := fun c hc =>
    (hs.held owner c (by rw [Holdings.from?_owner]; exact Option.mem_toList.1 hc)).1
  rw [candidates, List.filter_append, hvalues, selfCertification]
  -- The owner's place is `own`, everyone else's is in `byIssuer`.
  by_cases hi : issuer = owner
  · subst hi
    rw [List.filter_eq_self.2 fun c hc => decide_eq_true (hown c hc), hs.others,
      Holdings.from?_owner, Option.toList_none, List.append_nil]
  · have hnone : i.holdings.own.toList.filter (fun c => c.issuer = issuer) = [] :=
      List.filter_eq_nil_iff.2 fun c hc hissuer =>
        hi ((of_decide_eq_true hissuer).symm.trans (hown c hc))
    rw [hnone, Holdings.from?_of_ne hi, List.nil_append]

/-- A user id that is completed still holds from each issuer what that issuer gave.
`Identity.commit` marks certifications, and changes no issuer. -/
theorem sound_commit (hs : i.holdings.Sound owner P) :
    i.commit.holdings.Sound owner fun _ => True := by
  refine ⟨find?_owner_commit hs, fun issuer c hc => ⟨?_, trivial⟩⟩
  obtain ⟨d, hd, hsignature⟩ := exists_of_from?_commit hc
  exact (congrArg Signature.issuer hsignature).trans (hs.held issuer d hd).1

/-- What a completed user id offers from an issuer, as far as the settings let it in. They are asked
once more here, because `Identity.commit` may have set a mark of revocation. -/
theorem filter_candidates_commit (hs : i.holdings.Sound owner P) (settings : ResolutionSettings)
    (issuer : KeyId) :
    (i.commit.candidates.filter fun c => c.issuer = issuer).filter (fun c => !c.isExcluded settings)
      = ((i.commit.holdings.from? owner issuer).filter fun c => !c.isExcluded settings).toList := by
  rw [filter_candidates (sound_commit hs)]
  cases i.commit.holdings.from? owner issuer with
  | none => rfl
  | some c => cases hx : c.isExcluded settings <;> simp [Option.filter, hx]

/-- The certification of an issuer that a user id contributes to its key: the retained one, which
counts as revoked if it is older than the retained revocation, unless the settings leave it out. -/
def standing? (settings : ResolutionSettings) (issuer : KeyId) (i : Identity) :
    Option Certification :=
  ((i.certificationFrom issuer).map fun c =>
    { c with revoked := (i.revocationFrom issuer).any fun r => c.date < r.date }).filter fun c =>
      !c.isExcluded settings

/-- A certification without a mark gets the one that is due, and `Identity.standing?` computes the
same mark from what the user id retains. -/
theorem settle_eq {issuer : KeyId} {c : Certification} (hissuer : c.issuer = issuer)
    (hnew : c.revoked = false) : i.settle c
      = { c with revoked := (i.revocationFrom issuer).any fun r => c.date < r.date } := by
  rw [settle, hissuer, revocationFrom]
  cases i.revocations.find? issuer with
  | none => exact (Certification.unrevoked_of_new hnew).symm
  | some r => simp [hnew]

end Identity

namespace Key

/-- What is added to a key: a user id that has nothing yet, a certification that is not marked as
revoked, or a revocation. -/
inductive Addition where
  | identity (userId : String)
  | certification (c : Certification) (hnew : c.revoked = false)
  | revocation (r : Revocation)

/-- The key behind an addition. `Key.certify` and `Key.revoke` refuse what comes before the first
user id, and then the key is as it was. -/
def add (settings : ResolutionSettings) (k : Key) : Addition → Key
  | .identity userId => k.addIdentity { userId }
  | .certification c _ => (k.certify settings c).toOption.getD k
  | .revocation r => (k.revoke r).toOption.getD k

/-- The key that is built from a `pub` record by additions. -/
def build (settings : ResolutionSettings) (record : PubRecord) (additions : List Addition) : Key :=
  additions.foldl (add settings) { record }

/-- What is retained while a key is built: no certification is marked yet, and none is left out. The
second part is what makes a mark that `Identity.commit` sets the only reason to leave one out. -/
def Retained (settings : ResolutionSettings) (c : Certification) : Prop :=
  c.revoked = false ∧ c.isExcluded settings = false

/-- Each addition keeps a key sound. Only a certification could do otherwise, and what
`Holdings.offer` lets in is not left out. -/
theorem sound_add {k : Key} (hk : k.Sound (Retained settings)) (a : Addition) :
    (k.add settings a).Sound (Retained settings) := by
  cases a with
  | identity userId => exact hk.addIdentity userId
  | certification c hnew =>
    rw [add]
    cases hcertify : k.certify settings c with
    -- A refused addition leaves the key as it was.
    | error e => exact hk
    | ok k' => exact hk.certify hcertify fun hcounts => ⟨hnew, hcounts⟩
  | revocation r =>
    rw [add]
    cases hrevoke : k.revoke r with
    | error e => exact hk
    | ok k' => exact hk.revoke hrevoke

/-- What is retained while a key is built, whatever is added to it. The induction goes over
`Key.Addition`, with one lemma for each of its cases. -/
theorem sound_build (settings : ResolutionSettings) (record : PubRecord)
    (additions : List Addition) :
    (build settings record additions).Sound (Retained settings) :=
  List.foldlRecOn additions _ (fun _ hi => by cases hi) fun _ hk a _ => sound_add hk a

variable {k : Key} {P : Certification → Prop}

/-- A key that is sound is so in what its live user ids hold. `liveIdentities` are user ids behind
`Identity.commit`, so `sound_commit` comes in between. -/
theorem Sound.holdings_of_live (hk : k.Sound P) {i : Identity}
    (hi : i ∈ k.identities.filter Identity.isLive) : i.holdings.Sound k.keyId P :=
  hk i (List.mem_reverse.1 (List.mem_of_mem_filter hi))

/-- A completed key holds the first of the latest certifications that its live user ids hold when
they are complete, as far as the settings do not leave them out. -/
theorem from?_consolidated (hk : k.Sound P) (issuer : KeyId) :
    (k.consolidated settings).from? k.keyId issuer
      = ((k.identities.filter Identity.isLive).filterMap fun i =>
          (i.commit.holdings.from? k.keyId issuer).filter fun c =>
            !c.isExcluded settings).argmax (·.date) := by
  rw [consolidated, liveIdentities_eq]
  show (List.foldl (Holdings.offer settings k.keyId) {} _).from? _ _ = _
  rw [Holdings.from?_foldl_offer, List.filter_flatMap, List.filter_flatMap, List.flatMap_map,
    List.filterMap_eq_flatMap_toList, List.flatMap_congr fun i hi =>
      Identity.filter_candidates_commit (hk.holdings_of_live hi) settings issuer]

/-- The certification of an issuer other than the owner, by what stands on the live user ids. -/
theorem find?_certifications_eq (hk : k.Sound (Retained settings)) {issuer : KeyId}
    (hi : issuer ≠ k.keyId) : (k.commit settings).certifications.find? issuer
      = ((k.identities.filter Identity.isLive).filterMap
          (Identity.standing? settings issuer)).argmax (·.date) := by
  show (k.consolidated settings).byIssuer.find? issuer = _
  rw [← Holdings.from?_of_ne hi, from?_consolidated hk]
  congr 1
  -- User id by user id: what one offers of this issuer is what stands on it.
  refine List.filterMap_congr fun i hlive => ?_
  rw [Identity.standing?, Identity.from?_commit, if_neg hi]
  congr 1
  refine Option.map_congr fun c hc => ?_
  obtain ⟨hissuer, hnew, -⟩ :=
    (hk.holdings_of_live hlive).held issuer c (by rwa [Holdings.from?_of_ne hi])
  exact Identity.settle_eq hissuer hnew

/-- The certification of the owner, by those of the live user ids. None of them is left out when the
key is completed, because no revocation marks it. -/
theorem selfCertification_commit_eq (hk : k.Sound (Retained settings)) :
    (k.commit settings).selfCertification
      = ((k.identities.filter Identity.isLive).filterMap
          Identity.selfCertification).argmax (·.date) := by
  show (k.consolidated settings).own = _
  rw [← Holdings.from?_owner k.keyId, from?_consolidated hk]
  congr 1
  refine List.filterMap_congr fun i hlive => ?_
  rw [Identity.from?_commit, if_pos rfl, Identity.selfCertification]
  cases hown : i.holdings.own with
  | none => rfl
  | some c =>
    -- It is not marked, so the settings let it in as they did before.
    obtain ⟨-, -, hcounts⟩ :=
      (hk.holdings_of_live hlive).held k.keyId c (by rw [Holdings.from?_owner, hown])
    simp [Option.filter, hcounts]

/-- What a completed key has, by the live user ids of the key. Of several certifications with one
date `List.argmax` takes the first, which is the one of the earliest user id. -/
structure Consolidates (settings : ResolutionSettings) (k : Key) (completed : CommittedKey) :
    Prop where
  validIdentities : completed.validIdentities = (k.identities.filter Identity.isLive).length
  selfCertification : completed.selfCertification
    = ((k.identities.filter Identity.isLive).filterMap Identity.selfCertification).argmax (·.date)
  certifications : ∀ issuer, issuer ≠ k.keyId → completed.certifications.find? issuer
    = ((k.identities.filter Identity.isLive).filterMap
        (Identity.standing? settings issuer)).argmax (·.date)
  entries : ∀ issuer, issuer ∈ completed.certifications ↔ issuer ≠ k.keyId ∧
    ∃ i ∈ k.identities, i.isLive = true ∧ (i.standing? settings issuer).isSome = true

/-- `Consolidates`, for any key that retains only what counts and is not marked. -/
theorem consolidates_commit (hk : k.Sound (Retained settings)) :
    Consolidates settings k (k.commit settings) where
  validIdentities := by
    show k.liveIdentities.length = _
    rw [liveIdentities_eq, List.length_map]
  selfCertification := selfCertification_commit_eq hk
  certifications _ hi := find?_certifications_eq hk hi
  entries issuer := by
    rw [Table.mem_iff]
    -- The owner has its own place, so there is no entry for it in the table.
    by_cases hi : issuer = k.keyId
    · subst hi
      have hsound : k.Sound fun _ => True := hk.imp fun _ _ => trivial
      have hnone : (k.consolidated settings).byIssuer.find? k.keyId = none :=
        (sound_consolidated hsound fun _ _ _ => id).others
      simp [commit, hnone]
    · rw [find?_certifications_eq hk hi, Option.isSome_iff_ne_none, ne_eq, List.argmax_eq_none,
        List.filterMap_eq_nil_iff]
      simp [hi, Option.isSome_iff_ne_none]

/-- A key that is completed behind any additions has the certifications that stand on its live user
ids, one of each issuer, and of its user ids those that are live count. -/
theorem commit_consolidates (settings : ResolutionSettings) (record : PubRecord)
    (additions : List Addition) :
    Consolidates settings (build settings record additions)
      ((build settings record additions).commit settings) :=
  consolidates_commit (sound_build settings record additions)

/-- Three user ids of the key `AA`, all live. `BB` certifies each of them: the first two on one day,
with different algorithms, and the third one later, but that certification is revoked. Between the
first two, `BB` certifies with a mark of expiry that its flags do not have. -/
def tiedAdditions : List Addition :=
  let certify (issuer date : String) (hash : HashAlgorithm) (expired : Bool) : Addition :=
    .certification { plainCertification issuer date expired with hash } rfl
  [.identity "A", certify "AA" "2001-01-01" .sha1 false, certify "BB" "2002-01-01" .sha256 false,
    certify "BB" "2005-01-01" .sha1 true,
    .identity "B", certify "AA" "2001-01-01" .sha1 false, certify "BB" "2002-01-01" .sha512 false,
    .identity "C", certify "AA" "2001-01-01" .sha1 false, certify "BB" "2003-01-01" .sha1 false,
    .revocation ⟨.ofText "BB", "2004-01-01", .certification, 4, .dsa, .sha1⟩]

/-- Of the two certifications with one date, that of the earlier user id counts. The later one is
revoked, and the latest one is expired. -/
theorem commit_consolidates_tie :
    let record : PubRecord := ⟨"", 1024, .dsa, .ofText "AA", "2000-01-01", "", 4⟩
    let k := build {} record tiedAdditions
    (k.commit {}).certifications.find? (.ofText "BB")
        = some { plainCertification "BB" "2002-01-01" false with hash := .sha256 } ∧
      (k.identities.filterMap (Identity.standing? {} (.ofText "BB"))).map (·.date)
        = ["2002-01-01", "2002-01-01"] ∧
      (k.commit {}).validIdentities = 3 ∧ Consolidates {} k (k.commit {}) := by
  intro record k
  exact ⟨by decide +kernel, by decide +kernel, by decide +kernel,
    commit_consolidates {} record tiedAdditions⟩

end Key

end WebOfTrust
