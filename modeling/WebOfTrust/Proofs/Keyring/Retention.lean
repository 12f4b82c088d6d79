import Mathlib.Data.List.MinMax
import Mathlib.Data.String.Basic
import WebOfTrust.Proofs.Keyring.Key

/-!
# `WebOfTrust.Proofs.Keyring.Retention`: a user id retains the first of the latest

Certifications and revocations of a user id come in any order, and it may be completed in between.
What it retains from an issuer is known from what the issuer gave: the first of the latest
certifications that count, and the first of the latest revocations. A certification that does not
count takes the place of none, however late it is. A mark of revocation says that the retained
certification is older than the retained revocation. One that is set early is right to the end: a
revocation only gives way to a later one, and a certification that gives way takes its mark with it
(`Identity.Follows`).

The certifications are any that are not marked as `revoked` yet. In particular the mark `expired`
and the flags need not agree. A certification is compared with a retained one up to the mark of
revocation, which is what `Certification.unrevoked` takes away.

`List.argmax` takes the first of several that are greatest, so it is what "the first of the latest"
stands for.

- `Holdings.map_from?_offer`: an offer is one more candidate;
- `Identity.Follows.step`: what each step keeps;
- `Identity.retains_first_of_latest`: what a completed user id retains, and that the order of steps
  of different kinds does not matter.
-/

set_option autoImplicit false

namespace WebOfTrust

variable {settings : ResolutionSettings} {owner : KeyId}

/-! ### The first of the latest -/

/-- A further candidate takes the place of the first of the latest if `isNewer` says so, that is, if
its date is strictly later. This is the step of the induction over candidates in the order in which
they come. -/
theorem argmax_concat_eq_ite {α : Type} (date : α → String) (l : List α) (a : α) :
    (l ++ [a]).argmax date
      = if isNewer ((l.argmax date).map date) (date a) then some a else l.argmax date := by
  rw [List.argmax_concat]
  cases l.argmax date with
  | none => rfl
  | some b => simp [isNewer]

namespace Certification

/-- The certification without its mark of revocation. Only that mark changes while a certification
is retained, so two certifications that agree in `unrevoked` are one and the same at different
times. -/
def unrevoked (c : Certification) : Certification := { c with revoked := false }

/-- Nothing is taken away from a certification that has no mark, as a new one has none. -/
theorem unrevoked_of_new {c : Certification} (hnew : c.revoked = false) : c.unrevoked = c :=
  congrArg (fun revoked => { c with revoked }) hnew.symm

/-- A certification is determined by its unmarked form and its mark, which is put back here. Two
equalities make up one between certifications, in the proofs about `Identity.commit`. -/
theorem unrevoked_with (c : Certification) : { c.unrevoked with revoked := c.revoked } = c := rfl

end Certification

namespace Holdings

variable {h : Holdings} {c : Certification}

/-- `Holdings.Accepts` in terms of `isNewer`, the test that `Holdings.offer` makes: what is offered
counts, and it is newer than what is held from its issuer, if anything is. -/
theorem accepts_iff : h.Accepts settings owner c ↔
    c.isExcluded settings = false ∧
      isNewer ((h.from? owner c.issuer).map (·.date)) c.date = true := by
  rw [Accepts, isNewer_iff]
  cases h.from? owner c.issuer <;> simp

/-- An offer that is left out, or by another issuer, changes nothing of what is held from an
issuer. It may change what is held from somebody else, which is why the issuer is fixed. -/
theorem from?_offer_of_not_counts {issuer : KeyId}
    (hc : ¬ (c.issuer = issuer ∧ c.isExcluded settings = false)) :
    (h.offer settings owner c).from? owner issuer = h.from? owner issuer := by
  by_cases ha : h.Accepts settings owner c
  · rw [from?_offer_of_accepts ha, if_neg fun hi => hc ⟨hi.symm, ha.1⟩]
  · rw [offer_of_not_accepts ha]

/-- If what is held from an issuer is the first of the latest candidates, it stays so: an offer is
one more candidate if it counts. `f` is what is said of a certification, and its date is part of
that. -/
theorem map_from?_offer (settings : ResolutionSettings) (c : Certification) {α : Type}
    (f : Certification → α) {date : α → String} (hdate : ∀ c, date (f c) = c.date)
    {issuer : KeyId} {l : List α}
    (hl : (h.from? owner issuer).map f = l.argmax date) :
    ((h.offer settings owner c).from? owner issuer).map f
      = (l ++ if c.issuer = issuer ∧ c.isExcluded settings = false then [f c] else []).argmax
          date := by
  split
  · next hcounts =>
    obtain ⟨rfl, hexcluded⟩ := hcounts
    -- What is held is compared by its date, which `f` keeps.
    have hheld : (l.argmax date).map date = (h.from? owner c.issuer).map (·.date) := by
      rw [← hl, Option.map_map]
      exact congrArg (Option.map · _) (funext hdate)
    rw [argmax_concat_eq_ite, hheld, hdate]
    by_cases ha : h.Accepts settings owner c
    · rw [from?_offer_of_accepts ha, if_pos rfl, if_pos (accepts_iff.1 ha).2, Option.map_some]
    · rw [offer_of_not_accepts ha, if_neg fun hnewer => ha (accepts_iff.2 ⟨hexcluded, hnewer⟩), hl]
  · next hcounts => rw [from?_offer_of_not_counts hcounts, List.append_nil, hl]

end Holdings

/-! ### Steps -/

namespace Identity

/-- What is done to a user id: it is certified, a certification of it is revoked, or it is
completed. A certification that is added is not marked as revoked yet, and has any other fields
whatever. -/
inductive Step where
  | certify (c : Certification) (hnew : c.revoked = false)
  | revoke (r : Revocation)
  | commit

/-- The user id behind a `Step`. Each of them is one call, of `Identity.certify`, `Identity.revoke`
or `Identity.commit`. -/
def step (settings : ResolutionSettings) (owner : KeyId) (i : Identity) : Step → Identity
  | .certify c _ => i.certify settings owner c
  | .revoke r => i.revoke owner r
  | .commit => i.commit

/-- The user id behind steps, the first of which is done to one that has nothing but its text. -/
def run (settings : ResolutionSettings) (owner : KeyId) (userId : String) (steps : List Step) :
    Identity :=
  steps.foldl (step settings owner) { userId }

/-- The certifications among steps, in their order. The other steps, `commit` among them, leave no
trace here, which is how the theorems say that they do not matter. -/
def Step.certifications (steps : List Step) : List Certification :=
  steps.filterMap fun
    | .certify c _ => some c
    | _ => none

/-- The revocations among steps, in their order; compare `Step.certifications`. -/
def Step.revocations (steps : List Step) : List Revocation :=
  steps.filterMap fun
    | .revoke r => some r
    | _ => none

/-- The certifications of an issuer that the settings do not leave out. `Certification.isExcluded`
is asked when they are given, so no mark of revocation enters here. -/
def counting (settings : ResolutionSettings) (issuer : KeyId) (cs : List Certification) :
    List Certification :=
  cs.filter fun c => c.issuer = issuer ∧ c.isExcluded settings = false

/-- The revocations of an issuer. The settings leave out none of them. In contrast to `counting`,
all of them have a say. -/
def revocationsBy (issuer : KeyId) (rs : List Revocation) : List Revocation :=
  rs.filter fun r => r.issuer = issuer

/-- What a user id holds behind certifications and revocations, however often it has been completed
in between. This is the invariant of `Identity.run`; it is about user ids at work, so that a mark
may still be missing, but none that is there is wrong. -/
structure Follows (settings : ResolutionSettings) (owner : KeyId) (cs : List Certification)
    (rs : List Revocation) (i : Identity) : Prop where
  revoked : i.revoked = true ↔ ∃ r ∈ rs, r.issuer = owner
  certifications : ∀ issuer, (i.holdings.from? owner issuer).map Certification.unrevoked
    = (counting settings issuer cs).argmax (·.date)
  revocations : ∀ issuer, issuer ≠ owner →
    i.revocations.find? issuer = (revocationsBy issuer rs).argmax Revocation.date
  /-- The owner has no place in the tables. -/
  others : i.holdings.byIssuer.find? owner = none ∧ i.revocations.find? owner = none
  /-- A mark of revocation is not there without reason. -/
  marks : ∀ issuer c, i.holdings.from? owner issuer = some c → c.revoked = true →
    issuer ≠ owner ∧ ∃ r, i.revocations.find? issuer = some r ∧ c.date < r.date

variable {i i' : Identity} {cs : List Certification} {rs : List Revocation}

/-- One more certification counts for its own issuer, unless the settings leave it out. It is the
equation by which `Follows.certify` extends the history. -/
theorem counting_concat (settings : ResolutionSettings) (issuer : KeyId) (cs : List Certification)
    (c : Certification) : counting settings issuer (cs ++ [c]) = counting settings issuer cs ++
      if c.issuer = issuer ∧ c.isExcluded settings = false then [c] else [] := by
  rw [counting, List.filter_append, counting]
  congr 1
  simp only [List.filter_cons, List.filter_nil, decide_eq_true_eq]

/-- One more revocation is one of its own issuer. `Follows.revoke_other` uses it in the same way. -/
theorem revocationsBy_concat (issuer : KeyId) (rs : List Revocation) (r : Revocation) :
    revocationsBy issuer (rs ++ [r])
      = revocationsBy issuer rs ++ if r.issuer = issuer then [r] else [] := by
  rw [revocationsBy, List.filter_append, revocationsBy]
  congr 1
  simp only [List.filter_cons, List.filter_nil, decide_eq_true_eq]

/-- The induction starts at a user id that has nothing but its text, and `Follows` no steps. -/
theorem follows_new (settings : ResolutionSettings) (owner : KeyId) (userId : String) :
    Follows settings owner [] [] { userId } where
  revoked := by simp
  certifications issuer := by simp [counting]
  revocations issuer _ := by simp [revocationsBy]
  others := ⟨rfl, rfl⟩
  marks issuer c hc := by simp at hc

/-- What is held from an issuer was given by it: it is one of the certifications that `counting`
selects. -/
theorem Follows.issuer_eq (h : Follows settings owner cs rs i) {issuer : KeyId} {c : Certification}
    (hc : i.holdings.from? owner issuer = some c) : c.issuer = issuer := by
  have hmem : c.unrevoked ∈ (counting settings issuer cs).argmax (·.date) := by
    rw [← h.certifications, hc]
    rfl
  have hcounting := List.argmax_mem hmem
  rw [counting, List.mem_filter, decide_eq_true_eq] at hcounting
  exact hcounting.2.1

/-- A new certification. It takes a place only if it is accepted, and then it has no mark, so that
nothing is to be shown for `Follows.marks`. -/
theorem Follows.certify (h : Follows settings owner cs rs i) {c : Certification}
    (hnew : c.revoked = false) :
    Follows settings owner (cs ++ [c]) rs (i.certify settings owner c) where
  revoked := h.revoked
  certifications issuer := by
    rw [counting_concat]
    -- What counts is offered as it is, because it has no mark that could be taken away.
    have hunmarked : [c] = [c.unrevoked] := by rw [Certification.unrevoked_of_new hnew]
    rw [hunmarked]
    exact Holdings.map_from?_offer settings c Certification.unrevoked (fun _ => rfl)
      (h.certifications issuer)
  revocations := h.revocations
  others := ⟨Holdings.find?_owner_offer h.others.1 _, h.others.2⟩
  marks issuer d hd hrevoked := by
    have hd : (i.holdings.offer settings owner c).from? owner issuer = some d := hd
    by_cases ha : i.holdings.Accepts settings owner c
    · rw [Holdings.from?_offer_of_accepts ha] at hd
      split at hd
      · -- The new certification has no mark.
        rw [← Option.some.inj hd, hnew] at hrevoked
        cases hrevoked
      · exact h.marks issuer d hd hrevoked
    · rw [Holdings.offer_of_not_accepts ha] at hd
      exact h.marks issuer d hd hrevoked

/-- The owner revokes the user id and nothing else. The revocation is none of those that are
retained by issuer, as `Follows.revocations` is about the others. -/
theorem Follows.revoke_owner (h : Follows settings owner cs rs i) {r : Revocation}
    (hr : r.issuer = owner) : Follows settings owner cs (rs ++ [r]) (i.revoke owner r) := by
  rw [Identity.revoke, if_pos hr]
  refine ⟨by simp [hr], h.certifications, fun issuer hi => ?_, h.others, h.marks⟩
  have hne : r.issuer ≠ issuer := fun heq => hi (heq.symm.trans hr)
  rw [revocationsBy_concat, if_neg hne, List.append_nil]
  exact h.revocations issuer hi

/-- What is retained of revocations behind one of somebody else, in terms of `isNewer`. -/
theorem revocations_revoke {r : Revocation} (hr : r.issuer ≠ owner) (issuer : KeyId) :
    (i.revoke owner r).revocations.find? issuer
      = if r.issuer = issuer ∧ isNewer ((i.revocations.find? issuer).map (·.date)) r.date = true
        then some r else i.revocations.find? issuer := by
  rw [Identity.revoke, if_neg hr]
  by_cases hi : r.issuer = issuer
  · subst hi
    split <;> simp_all [Table.find?_insert]
  · split <;> simp [Table.find?_insert, hi, Ne.symm hi]

/-- Nobody but the owner revokes the user id itself. `Identity.revoke` sets `revoked` in its first
branch only. -/
theorem revoked_revoke {r : Revocation} (hr : r.issuer ≠ owner) :
    (i.revoke owner r).revoked = i.revoked := by
  rw [Identity.revoke, if_neg hr]
  split <;> rfl

/-- A revocation of somebody else. It gives no mark before `Identity.commit`, and a mark that is
there stays right, because what takes the place of a revocation is later. -/
theorem Follows.revoke_other (h : Follows settings owner cs rs i) {r : Revocation}
    (hr : r.issuer ≠ owner) : Follows settings owner cs (rs ++ [r]) (i.revoke owner r) where
  revoked := by
    rw [revoked_revoke hr, h.revoked]
    simp [hr]
  certifications := by
    rw [holdings_revoke]
    exact h.certifications
  revocations issuer hi := by
    rw [revocations_revoke hr, revocationsBy_concat, h.revocations issuer hi]
    by_cases hissuer : r.issuer = issuer
    · rw [if_pos hissuer, argmax_concat_eq_ite]
      simp [hissuer]
    · rw [if_neg hissuer, List.append_nil, if_neg fun hand => hissuer hand.1]
  others := by
    rw [holdings_revoke, revocations_revoke hr, if_neg fun hand => hr hand.1]
    exact h.others
  marks issuer c hc hrevoked := by
    rw [holdings_revoke] at hc
    obtain ⟨hi, r₀, hr₀, hdate⟩ := h.marks issuer c hc hrevoked
    refine ⟨hi, ?_⟩
    rw [revocations_revoke hr, hr₀]
    split
    · next hnewer =>
      -- The revocation that is replaced is earlier than the new one.
      have hlt := Holdings.isNewer_iff.1 hnewer.2 r₀.date rfl
      exact ⟨r, rfl, String.lt_trans hdate hlt⟩
    · exact ⟨r₀, rfl, hdate⟩

/-- A revocation, whoever gave it: `Follows.revoke_owner` or `Follows.revoke_other`. -/
theorem Follows.revoke (h : Follows settings owner cs rs i) (r : Revocation) :
    Follows settings owner cs (rs ++ [r]) (i.revoke owner r) := by
  by_cases hr : r.issuer = owner
  · exact h.revoke_owner hr
  · exact h.revoke_other hr

/-- When the user id is completed, the mark of a certification is there if and only if it is due:
`Identity.settle` adds what is missing, and by `Follows.marks` nothing was there too early. -/
theorem Follows.revoked_settle_iff (h : Follows settings owner cs rs i) {issuer : KeyId}
    {c : Certification} (hc : i.holdings.from? owner issuer = some c) :
    (i.settle c).revoked = true ↔ ∃ r, i.revocations.find? issuer = some r ∧ c.date < r.date := by
  -- A mark that is there already was due.
  have hmark := h.marks issuer c hc
  rw [settle, h.issuer_eq hc]
  cases hr : i.revocations.find? issuer with
  | none =>
    constructor
    · intro hrevoked
      obtain ⟨-, r, hsome, -⟩ := hmark hrevoked
      rw [hr] at hsome
      cases hsome
    · rintro ⟨r, hnone, -⟩
      cases hnone
  | some r =>
    simp only [Bool.or_eq_true, decide_eq_true_eq, Option.some.injEq, exists_eq_left']
    refine or_iff_right_of_imp fun hrevoked => ?_
    obtain ⟨-, r', hsome, hdate⟩ := hmark hrevoked
    rw [hr] at hsome
    exact Option.some.inj hsome ▸ hdate

/-- `Identity.settle` touches the mark of revocation and nothing else. -/
@[simp] theorem unrevoked_settle (i : Identity) (c : Certification) :
    (i.settle c).unrevoked = c.unrevoked := by
  rw [settle]
  split <;> rfl

/-- A user id that is completed. Whether this is done early is of no account: marks are set where
they are due (`Follows.revoked_settle_iff`), and all else stays. -/
theorem Follows.commit (h : Follows settings owner cs rs i) :
    Follows settings owner cs rs i.commit where
  revoked := h.revoked
  certifications issuer := by
    rw [← h.certifications, from?_commit, Holdings.from?]
    split
    · rfl
    · rw [Option.map_map]
      exact congrArg (Option.map · _) (funext fun c => unrevoked_settle i c)
  revocations := h.revocations
  others := by
    refine ⟨?_, h.others.2⟩
    rw [Identity.commit, Table.find?_map, h.others.1]
    rfl
  marks issuer c hc hrevoked := by
    rw [from?_commit] at hc
    split at hc
    · -- The owner's certification is not settled, and is therefore what it was.
      next hi =>
      subst hi
      exact h.marks issuer c (by rw [Holdings.from?_owner, hc]) hrevoked
    · next hi =>
      obtain ⟨d, hd, rfl⟩ := Option.map_eq_some_iff.1 hc
      rw [← Holdings.from?_of_ne hi] at hd
      rw [toSignature_settle]
      exact ⟨hi, (h.revoked_settle_iff hd).1 hrevoked⟩

/-- What each `Step` keeps. The lists grow by what the step adds, which for `commit` is nothing. -/
theorem Follows.step (h : Follows settings owner cs rs i) (step : Step) :
    Follows settings owner (cs ++ Step.certifications [step]) (rs ++ Step.revocations [step])
      (i.step settings owner step) := by
  cases step with
  | certify c hnew =>
    simpa [Step.certifications, Step.revocations, Identity.step] using h.certify hnew
  | revoke r => simpa [Step.certifications, Step.revocations, Identity.step] using h.revoke r
  | commit => simpa [Step.certifications, Step.revocations, Identity.step] using h.commit

/-- Any steps lead to a user id that `Follows` their certifications and revocations, each in the
order among its own kind. -/
theorem follows_run (settings : ResolutionSettings) (owner : KeyId) (userId : String)
    (steps : List Step) : Follows settings owner (Step.certifications steps)
      (Step.revocations steps) (run settings owner userId steps) := by
  -- From the last step on, because a run is a fold from the left.
  induction steps using List.reverseRecOn with
  | nil => exact follows_new settings owner userId
  | append_singleton steps step ih =>
    rw [run, List.foldl_append, Step.certifications, Step.revocations, List.filterMap_append,
      List.filterMap_append]
    exact ih.step step

/-- `Identity.commit` settles each certification in its own place. -/
theorem certificationFrom_commit (i : Identity) (issuer : KeyId) :
    i.commit.certificationFrom issuer = (i.certificationFrom issuer).map i.settle :=
  Table.find?_map (fun _ c => i.settle c) i.holdings.byIssuer issuer

/-- The certifications of others that a completed user id retains, with their marks. Both sides of
the mark, the certification and the revocation, are the first of the latest of their kind. -/
theorem Follows.certificationFrom_commit_eq (h : Follows settings owner cs rs i) {issuer : KeyId}
    (hi : issuer ≠ owner) : i.commit.certificationFrom issuer
      = ((counting settings issuer cs).argmax (·.date)).map fun c =>
          { c with revoked := ((revocationsBy issuer rs).argmax Revocation.date).any fun r =>
              c.date < r.date } := by
  rw [certificationFrom_commit, ← h.certifications, Option.map_map, Holdings.from?_of_ne hi]
  refine Option.map_congr fun c hc => ?_
  have hmark : (i.settle c).revoked
      = ((revocationsBy issuer rs).argmax Revocation.date).any fun r => c.date < r.date := by
    have hheld : i.holdings.from? owner issuer = some c := by rwa [Holdings.from?_of_ne hi]
    rw [Bool.eq_iff_iff, h.revoked_settle_iff hheld, ← h.revocations issuer hi, Option.any_eq_true]
    simp only [decide_eq_true_eq]
  -- A certification is its unmarked form with its mark.
  rw [← (i.settle c).unrevoked_with, unrevoked_settle, hmark]
  rfl

/-- The certification of the owner is never marked, so it is retained just as it was given. -/
theorem Follows.selfCertification_eq (h : Follows settings owner cs rs i) :
    i.selfCertification = (counting settings owner cs).argmax (·.date) := by
  rw [← h.certifications, Holdings.from?_owner, selfCertification]
  cases hown : i.holdings.own with
  | none => rfl
  | some c =>
    have hmark : c.revoked = false := Bool.eq_false_iff.2 fun hrevoked =>
      (h.marks owner c (by rw [Holdings.from?_owner, hown]) hrevoked).1 rfl
    exact congrArg some (Certification.unrevoked_of_new hmark).symm

/-- No step changes the text of a user id. The induction is on the steps. -/
theorem userId_run (settings : ResolutionSettings) (owner : KeyId) (userId : String)
    (steps : List Step) : (run settings owner userId steps).userId = userId := by
  -- A plain invariant of the fold, as no step depends on the text.
  refine List.foldlRecOn (motive := fun i : Identity => i.userId = userId) steps _ rfl ?_
  rintro i rfl step -
  cases step with
  | certify c hnew => rfl
  | commit => rfl
  | revoke r =>
    rw [step, revoke]
    split
    · rfl
    · split <;> rfl

/-! ### Completed user ids -/

/-- What a completed user id retains of certifications `cs` and revocations `rs`. `List.argmax`
takes the first of the latest, and gives nothing where there is nothing to take. -/
structure Retains (settings : ResolutionSettings) (owner : KeyId) (cs : List Certification)
    (rs : List Revocation) (i : Identity) : Prop where
  revoked : i.revoked = true ↔ ∃ r ∈ rs, r.issuer = owner
  selfCertification : i.selfCertification = (counting settings owner cs).argmax (·.date)
  certificationFrom : ∀ issuer, issuer ≠ owner → i.certificationFrom issuer
    = ((counting settings issuer cs).argmax (·.date)).map fun c =>
        { c with revoked := (i.revocationFrom issuer).any fun r => c.date < r.date }
  revocationFrom : ∀ issuer, issuer ≠ owner →
    i.revocationFrom issuer = (revocationsBy issuer rs).argmax Revocation.date
  marked : ∀ issuer, issuer ≠ owner → ∀ c, i.certificationFrom issuer = some c →
    (c.revoked = true ↔ ∃ r, i.revocationFrom issuer = some r ∧ c.date < r.date)

/-- `Follows` says of a user id that is completed now what `Retains` asks for. -/
theorem Follows.retains_commit (h : Follows settings owner cs rs i) :
    Retains settings owner cs rs i.commit where
  revoked := h.revoked
  selfCertification := h.selfCertification_eq
  certificationFrom issuer hi := by
    have hrevocation : i.commit.revocationFrom issuer
        = (revocationsBy issuer rs).argmax Revocation.date := h.revocations issuer hi
    rw [hrevocation]
    exact h.certificationFrom_commit_eq hi
  revocationFrom := h.revocations
  marked issuer hi c hc := by
    rw [certificationFrom_commit] at hc
    obtain ⟨d, hd, rfl⟩ := Option.map_eq_some_iff.1 hc
    have hheld : i.holdings.from? owner issuer = some d := by rwa [Holdings.from?_of_ne hi]
    rw [toSignature_settle]
    exact h.revoked_settle_iff hheld

/-- A completed user id is determined by what it has been given: field by field, `Follows` leaves no
choice once the marks are settled. -/
theorem Follows.commit_eq (h : Follows settings owner cs rs i)
    (h' : Follows settings owner cs rs i') (huserId : i.userId = i'.userId) :
    i.commit = i'.commit := by
  have hrevoked : i.revoked = i'.revoked := by
    rw [Bool.eq_iff_iff, h.revoked, h'.revoked]
  have hown : i.commit.holdings.own = i'.commit.holdings.own :=
    h.selfCertification_eq.trans h'.selfCertification_eq.symm
  -- Tables are compared entry by entry, as `Table` is ordered by its keys.
  have hothers : i.commit.holdings.byIssuer = i'.commit.holdings.byIssuer :=
    Table.ext_find? fun issuer => by
      by_cases hi : issuer = owner
      · rw [hi, h.commit.others.1, h'.commit.others.1]
      · exact (h.certificationFrom_commit_eq hi).trans (h'.certificationFrom_commit_eq hi).symm
  have hrevocations : i.revocations = i'.revocations :=
    Table.ext_find? fun issuer => by
      by_cases hi : issuer = owner
      · rw [hi, h.others.2, h'.others.2]
      · rw [h.revocations issuer hi, h'.revocations issuer hi]
  have hholdings : i.commit.holdings = i'.commit.holdings := congrArg₂ Holdings.mk hown hothers
  show Identity.mk i.userId i.revoked i.commit.holdings i.revocations
    = Identity.mk i'.userId i'.revoked i'.commit.holdings i'.revocations
  rw [huserId, hrevoked, hholdings, hrevocations]

/-- A completed user id retains the first of the latest from every issuer, whatever the steps were
that led to it. It makes no difference where certifications and revocations stood among each other,
and whether the user id was completed in between. -/
theorem retains_first_of_latest (settings : ResolutionSettings) (owner : KeyId) (userId : String)
    (steps : List Step) :
    Retains settings owner (Step.certifications steps) (Step.revocations steps)
      (run settings owner userId (steps ++ [.commit])) ∧
    ∀ steps', Step.certifications steps' = Step.certifications steps →
      Step.revocations steps' = Step.revocations steps →
      run settings owner userId (steps' ++ [.commit])
        = run settings owner userId (steps ++ [.commit]) := by
  have hcommit : ∀ steps, run settings owner userId (steps ++ [.commit])
      = (run settings owner userId steps).commit := fun steps => by
    rw [run, List.foldl_append]
    rfl
  have hfollows := follows_run settings owner userId steps
  rw [hcommit]
  refine ⟨hfollows.retains_commit, fun steps' hcertifications hrevocations => ?_⟩
  -- The other order has the same certifications and revocations, all that `Follows` speaks of.
  have hfollows' := follows_run settings owner userId steps'
  rw [hcertifications, hrevocations] at hfollows'
  rw [hcommit]
  exact hfollows'.commit_eq hfollows (by rw [userId_run, userId_run])

/-- A certification of which only the issuer and the date matter, and whether it is marked as
expired. Its flags are empty, so the mark is none that `Certification.ofSignature` would give. -/
def plainCertification (issuer date : String) (expired : Bool) : Certification :=
  { issuer := .ofText issuer, date, expires := "", flags := "", level := .generic, algorithm := .dsa
    hash := .sha1, version := 4, expired }

/-- `BB` certifies a user id and revokes that. The user id is completed, and is certified again: by
a certification that counts, and by a later one that is marked as expired. -/
def renewalSteps (revocation : Revocation) : List Step :=
  [.certify (plainCertification "BB" "2001-01-01" false) rfl, .revoke revocation, .commit,
    .certify (plainCertification "BB" "2003-01-01" false) rfl,
    .certify (plainCertification "BB" "2004-01-01" true) rfl]

/-- The new certification has no mark, also if the revocation is seen at the end, and the expired
one does not stand in its way. -/
theorem retains_first_of_latest_renewal :
    let revocation : Revocation := ⟨.ofText "BB", "2002-01-01", .certification, 4, .dsa, .sha1⟩
    let steps := renewalSteps revocation
    let late : List Step := [.certify (plainCertification "BB" "2001-01-01" false) rfl,
      .certify (plainCertification "BB" "2003-01-01" false) rfl,
      .certify (plainCertification "BB" "2004-01-01" true) rfl, .revoke revocation]
    let i := run {} (.ofText "AA") "A" (steps ++ [.commit])
    i.certificationFrom (.ofText "BB") = some (plainCertification "BB" "2003-01-01" false) ∧
    Retains {} (.ofText "AA") (Step.certifications steps) (Step.revocations steps) i ∧
    run {} (.ofText "AA") "A" (late ++ [.commit]) = i := by
  intro revocation steps late i
  obtain ⟨hretains, hinterleaved⟩ := retains_first_of_latest {} (.ofText "AA") "A" steps
  exact ⟨by decide +kernel, hretains, hinterleaved late rfl rfl⟩

end Identity

end WebOfTrust
