import WebOfTrust.Keyring.Certification
import WebOfTrust.Proofs.Table

/-!
# `WebOfTrust.Proofs.Keyring.Holdings`: what is held from whom

Holdings keep the certification of the owner in one place and those of others in a table.
`Holdings.from?` asks for the one of an issuer without regard to that, and everything about an offer
follows from what it changes there: one certification, if it accepts it
(`Holdings.from?_offer_of_accepts`), and nothing otherwise.

- `Holdings.Sound`: what is held from an issuer was given by that issuer;
- `Holdings.isSome_foldl_offer`: out of many certifications, whose are held;
- `Holdings.Below`: holdings with later certifications from more issuers. An offer keeps them so, as
  does one that only the greater holdings are made.
-/

set_option autoImplicit false

namespace WebOfTrust

namespace Holdings

variable {settings settings' : ResolutionSettings} {owner : KeyId} {h h' : Holdings}
  {c : Certification}

/-- The certification held from an issuer, whether it is the owner or somebody else. With it, one
lemma says of all issuers what `Holdings` says of two kinds of them. -/
def from? (owner : KeyId) (h : Holdings) (issuer : KeyId) : Option Certification :=
  if issuer = owner then h.own else h.byIssuer.find? issuer

/-- What is held from the owner has a place of its own. It is one of the two cases of `from?`. -/
theorem from?_owner (owner : KeyId) (h : Holdings) : h.from? owner owner = h.own :=
  if_pos rfl

/-- What is held from anybody else is in the table. It is the other case of `from?`. -/
theorem from?_of_ne {issuer : KeyId} (hne : issuer ≠ owner) :
    h.from? owner issuer = h.byIssuer.find? issuer :=
  if_neg hne

/-- At first nothing is held from anybody. Folds over offers start from there. -/
@[simp] theorem from?_empty (owner issuer : KeyId) : ({} : Holdings).from? owner issuer = none := by
  simp [from?]

/-- A candidate is newer than what is held if its date is strictly later, so the first of two
certifications with one date is kept. -/
theorem isNewer_iff {current : Option String} {candidate : String} :
    isNewer current candidate = true ↔ ∀ date, current = some date → date < candidate := by
  cases current <;> simp [isNewer]

/-- Whether an offer takes the place of what is held from its issuer: it counts under the settings,
and it is strictly later. -/
def Accepts (settings : ResolutionSettings) (owner : KeyId) (h : Holdings) (c : Certification) :
    Prop :=
  c.isExcluded settings = false ∧ ∀ d, h.from? owner c.issuer = some d → d.date < c.date

/-- An offer that is accepted is what its issuer is held to have given; nothing else changes. -/
theorem from?_offer_of_accepts (ha : h.Accepts settings owner c) (issuer : KeyId) :
    (h.offer settings owner c).from? owner issuer
      = if issuer = c.issuer then some c else h.from? owner issuer := by
  obtain ⟨hexcluded, hdate⟩ := ha
  have hnewer : isNewer ((h.from? owner c.issuer).map (·.date)) c.date = true := by
    rw [isNewer_iff]
    rintro date hd
    obtain ⟨d, hheld, rfl⟩ := Option.map_eq_some_iff.1 hd
    exact hdate d hheld
  -- The certification of the owner has a place of its own, for the offer and for the query.
  by_cases hc : c.issuer = owner
  · rw [hc, from?_owner] at hnewer
    simp only [offer, hexcluded, hc, hnewer, if_true, Bool.false_eq_true, if_false]
    by_cases hi : issuer = owner <;> simp [from?, hi]
  · rw [from?_of_ne hc] at hnewer
    simp only [offer, hexcluded, hc, hnewer, if_true, Bool.false_eq_true, if_false]
    by_cases hi : issuer = owner
    · subst hi
      simp [from?, Ne.symm hc]
    · simp [from?, hi, Table.find?_insert]

/-- An offer that is not accepted changes nothing, whether it is left out or not later than what is
held. -/
theorem offer_of_not_accepts (ha : ¬ h.Accepts settings owner c) :
    h.offer settings owner c = h := by
  -- What is not left out is refused for its date.
  have hnewer : c.isExcluded settings = false →
      isNewer ((h.from? owner c.issuer).map (·.date)) c.date = false := by
    intro hexcluded
    rw [Bool.eq_false_iff, ne_eq, isNewer_iff]
    intro hdate
    exact ha ⟨hexcluded, fun d hd => hdate d.date (by rw [hd]; rfl)⟩
  rw [offer]
  cases hexcluded : c.isExcluded settings with
  | true => rfl
  | false =>
    have hnewer := hnewer hexcluded
    by_cases hc : c.issuer = owner
    · rw [hc, from?_owner] at hnewer
      simp [hc, hnewer]
    · rw [from?_of_ne hc] at hnewer
      simp [hc, hnewer]

/-! ### Soundness -/

/-- What is held from an issuer was given by it and satisfies `P`, and the owner is none of the
others. It is kept by every offer, so it holds of all user ids and keys. -/
structure Sound (owner : KeyId) (P : Certification → Prop) (h : Holdings) : Prop where
  /-- The owner has no entry in the table, so it is not found in two places. -/
  others : h.byIssuer.find? owner = none
  /-- A certification is held under its own issuer. -/
  held : ∀ issuer c, h.from? owner issuer = some c → c.issuer = issuer ∧ P c

variable {P : Certification → Prop}

/-- What is known of everything held may be weakened. The property `P` of certifications is a
parameter, and different lemmas need different ones. -/
theorem Sound.imp {Q : Certification → Prop} (hs : h.Sound owner P) (hPQ : ∀ c, P c → Q c) :
    h.Sound owner Q :=
  ⟨hs.others, fun issuer c hc => (hs.held issuer c hc).imp_right (hPQ c)⟩

/-- Where nothing is held, nothing is unsound. It holds for any owner and for any property. -/
theorem sound_empty (owner : KeyId) (P : Certification → Prop) : ({} : Holdings).Sound owner P :=
  ⟨rfl, by simp⟩

/-- An offer by the owner goes into its own place, so the table stays without it. That is part of
the invariant, as `certifications` must not list the owner. -/
theorem find?_owner_offer (hs : h.byIssuer.find? owner = none) (c : Certification) :
    (h.offer settings owner c).byIssuer.find? owner = none := by
  rw [offer]
  split
  · exact hs
  split
  · split <;> exact hs
  -- Only here does the table change, and the issuer is not the owner.
  next hc =>
  split
  · rw [Table.find?_insert, if_neg (Ne.symm hc)]
    exact hs
  · exact hs

/-- Holdings stay sound if what they are offered satisfies `P` as far as it is not left out. `P` is
not asked of what is excluded, as that is never held. -/
theorem Sound.offer (hs : h.Sound owner P) (hc : c.isExcluded settings = false → P c) :
    (h.offer settings owner c).Sound owner P := by
  refine ⟨find?_owner_offer hs.others c, fun issuer d hd => ?_⟩
  -- Only an accepted offer has to satisfy anything; it is held in place of another.
  by_cases ha : h.Accepts settings owner c
  · rw [from?_offer_of_accepts ha] at hd
    split at hd
    · next hi =>
      obtain rfl := Option.some.inj hd
      exact ⟨hi.symm, hc ha.1⟩
    · exact hs.held issuer d hd
  · rw [offer_of_not_accepts ha] at hd
    exact hs.held issuer d hd

/-- The same of many offers, one after the other. The condition on the offers is that each satisfies
`P`. -/
theorem Sound.foldl_offer {cs : List Certification} (hs : h.Sound owner P)
    (hc : ∀ c ∈ cs, c.isExcluded settings = false → P c) :
    (cs.foldl (·.offer settings owner ·) h).Sound owner P := by
  induction cs generalizing h with
  | nil => exact hs
  | cons c cs ih =>
    exact ih (hs.offer (hc c List.mem_cons_self)) fun d hd => hc d (List.mem_cons_of_mem _ hd)

/-- The certifications of the table are those held from others than the owner. It translates between
the table and `from?`, in which most lemmas are stated. -/
theorem Sound.find?_byIssuer_iff (hs : h.Sound owner P) {issuer : KeyId} :
    h.byIssuer.find? issuer = some c ↔ issuer ≠ owner ∧ h.from? owner issuer = some c := by
  by_cases hi : issuer = owner
  · subst hi
    simp [hs.others]
  · simp [hi, from?_of_ne hi]

/-! ### Whose certifications are held -/

/-- After an offer a certification is held from its issuer if it counts, or if one was held before.
Which of the two it is depends on the dates. -/
theorem isSome_offer {issuer : KeyId} :
    ((h.offer settings owner c).from? owner issuer).isSome = true ↔
      (h.from? owner issuer).isSome = true ∨
        c.issuer = issuer ∧ c.isExcluded settings = false := by
  by_cases ha : h.Accepts settings owner c
  · rw [from?_offer_of_accepts ha]
    by_cases hi : issuer = c.issuer
    · simp [hi, ha.1]
    · simp [hi, Ne.symm hi]
  · rw [offer_of_not_accepts ha]
    refine (or_iff_left_of_imp ?_).symm
    rintro ⟨rfl, hexcluded⟩
    -- Only what is held already keeps a certification out that the settings let in.
    cases hheld : h.from? owner c.issuer with
    | none => exact absurd ⟨hexcluded, by simp [hheld]⟩ ha
    | some d => rfl

/-- Out of many certifications, one is held from each issuer who gave one that counts. Which of them
it is, `from?_foldl_offer` says. -/
theorem isSome_foldl_offer {cs : List Certification} {issuer : KeyId} :
    ((cs.foldl (·.offer settings owner ·) h).from? owner issuer).isSome = true ↔
      (h.from? owner issuer).isSome = true ∨
        ∃ c ∈ cs, c.issuer = issuer ∧ c.isExcluded settings = false := by
  induction cs generalizing h with
  | nil => simp
  | cons c cs ih =>
    rw [List.foldl_cons, ih, isSome_offer, or_assoc]
    simp

/-! ### Later certifications from more issuers -/

/-- From every issuer of whom `h` holds a certification, `h'` holds one that is no earlier. It is
how the effect of further certifications is told, of which it is not known whom they displace. -/
def Below (owner : KeyId) (h h' : Holdings) : Prop :=
  ∀ issuer c, h.from? owner issuer = some c →
    ∃ c', h'.from? owner issuer = some c' ∧ c.date ≤ c'.date

/-- An offer leaves nothing earlier than it was. An offer is accepted only if it is later, by
`Holdings.Accepts`. -/
theorem below_offer (settings : ResolutionSettings) (owner : KeyId) (h : Holdings)
    (c : Certification) : h.Below owner (h.offer settings owner c) := by
  intro issuer d hd
  by_cases ha : h.Accepts settings owner c
  · rw [from?_offer_of_accepts ha]
    by_cases hi : issuer = c.issuer
    · subst hi
      exact ⟨c, by simp, String.not_lt.1 (String.lt_asymm (ha.2 d hd))⟩
    · exact ⟨d, by simp [hi, hd], String.le_refl _⟩
  · rw [offer_of_not_accepts ha]
    exact ⟨d, hd, String.le_refl _⟩

/-- What has not become earlier twice has not become earlier at all. `Below` compares by dates,
whose order is transitive. -/
theorem Below.trans {h'' : Holdings} (h₁ : h.Below owner h') (h₂ : h'.Below owner h'') :
    h.Below owner h'' := by
  intro issuer c hc
  obtain ⟨c', hc', hle⟩ := h₁ issuer c hc
  obtain ⟨c'', hc'', hle'⟩ := h₂ issuer c' hc'
  exact ⟨c'', hc'', String.le_trans hle hle'⟩

/-- What is held from the issuer of an offer that counts is no earlier than the offer. -/
theorem le_of_offer (hexcluded : c.isExcluded settings = false) :
    ∃ d, (h.offer settings owner c).from? owner c.issuer = some d ∧ c.date ≤ d.date := by
  by_cases ha : h.Accepts settings owner c
  · exact ⟨c, by simp [from?_offer_of_accepts ha], String.le_refl _⟩
  · rw [offer_of_not_accepts ha]
    cases hheld : h.from? owner c.issuer with
    | none => exact absurd ⟨hexcluded, by simp [hheld]⟩ ha
    | some d =>
      refine ⟨d, rfl, ?_⟩
      -- Were what is held earlier than the offer, it would have given way.
      rw [← String.not_lt]
      exact fun hlt => ha ⟨hexcluded, fun d' hd' => by simp_all⟩

/-- An offer made to both under settings of which the second leave out no more keeps them in
order. -/
theorem Below.offer (hb : h.Below owner h')
    (hrelax : c.isExcluded settings = false → c.isExcluded settings' = false) :
    (h.offer settings owner c).Below owner (h'.offer settings' owner c) := by
  by_cases ha : h.Accepts settings owner c
  · intro issuer d hd
    rw [from?_offer_of_accepts ha] at hd
    split at hd
    · next hi =>
      obtain rfl := Option.some.inj hd
      subst hi
      -- The greater holdings may refuse the offer, but only if what they hold is no earlier.
      exact le_of_offer (hrelax ha.1)
    · exact hb.trans (below_offer settings' owner h' c) issuer d hd
  · rw [offer_of_not_accepts ha]
    exact hb.trans (below_offer settings' owner h' c)

end Holdings

end WebOfTrust
