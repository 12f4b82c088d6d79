import WebOfTrust.Proofs.CurrentKey
import WebOfTrust.Proofs.Sections

/-!
# `WebOfTrust.Proofs.PolicyAttribution`: whose policy a subpacket declares

A policy URI comes without an issuer. It belongs to the certification before it, and a resolver
keeps no more of that than its issuer. User ids, revocations and other subpackets may stand in
between, and neither the user id nor what has become of the certification matters. A further key
ends it, and so does `finish`: behind either there is no certification that a policy could belong
to, and the next one is refused rather than laid to the issuer of another key.

- `Resolver.declares_answerAll_iff`: which subpacket declares a policy;
- `Resolver.issuerBehind_eq_some_iff`: the issuer that policies belong to;
- `Resolver.policies_by_latest_signature`: each policy is laid to the latest certification before
  it.
-/

set_option autoImplicit false

namespace WebOfTrust

open Dump

namespace Resolver

variable {settings : ResolutionSettings} {r r' : Resolver} {calls : List Call} {call : Call}
  {key : Option CommittedKey} {keys : List CommittedKey} {p : PolicyUri}

/-! ### Subpackets -/

/-- What one answer declares: the policy of a subpacket, for the issuer that policies belong to. No
other call declares anything. -/
theorem declares_answer_iff (h : r.answer call = .ok (r', key)) :
    r'.policyUris.declares p = true ↔ r.policyUris.declares p = true ∨
      ∃ record, call = .push (.spk record) ∧ record.isPolicyUri = true ∧ record.data = p.uri ∧
        r.lastIssuer = some p.issuer := by
  have hpolicies := foldl_policies_answer h []
  rw [policies, List.foldl_nil] at hpolicies
  rw [← hpolicies, PolicyUriTable.declares_foldl_add, or_comm]
  refine or_congr_right ?_
  rcases call with (_ | _ | _ | _ | record) | _
  -- All other calls leave the table as it is.
  case push.spk =>
    simp only [policies, List.append_nil]
    cases hkind : record.isPolicyUri with
    | false => simp [hkind]
    | true =>
      cases hissuer : r.lastIssuer with
      | none => simp
      | some issuer =>
        simp only [if_true, Option.toList_some, List.map_cons, List.map_nil, List.mem_singleton]
        constructor
        · rintro rfl
          exact ⟨record, rfl, hkind, rfl, rfl⟩
        · rintro ⟨record', hcall, -, huri, hp⟩
          cases hcall
          rw [Option.some.inj hp, huri]
  all_goals simp [policies]

/-- The issuer that policies belong to behind calls, told by the current key and its certifications.
It says what `Resolver.lastIssuer` holds, in terms of `currentSegment`. -/
def issuerBehind (calls : List Call) : Option KeyId :=
  (currentSegment calls).bind fun t => t.signatures.getLast?.map Signature.issuer

/-- A run declares what one of its subpackets declares, for the issuer that policies belong to at
its place. The induction is from the end of the calls. -/
theorem declares_answerAll_iff (h : ({ settings } : Resolver).answerAll calls = .ok (r, keys)) :
    r.policyUris.declares p = true ↔ ∃ before record after,
      calls = before ++ .push (.spk record) :: after ∧ record.isPolicyUri = true ∧
        record.data = p.uri ∧ issuerBehind before = some p.issuer := by
  induction calls using List.reverseRecOn generalizing r keys with
  | nil =>
    cases h
    refine iff_of_false (Bool.eq_false_iff.1 (PolicyUriTable.not_declares_empty p)) ?_
    rintro ⟨before, record, after, hcalls, -⟩
    simp at hcalls
  | append_singleton calls call ih =>
    obtain ⟨r₁, keys₁, keys₂, h₁, h₂, -⟩ := answerAll_append_eq_ok.1 h
    obtain ⟨r₂, key, _, hanswer, hrest, -⟩ := answerAll_cons h₂
    cases hrest
    have hissuer : r₁.lastIssuer = issuerBehind calls := (tracks_currentSegment h₁).lastIssuer
    rw [declares_answer_iff hanswer, ih h₁, hissuer]
    constructor
    · rintro (⟨before, record, after, rfl, hdeclared⟩ | ⟨record, rfl, hdeclared⟩)
      · exact ⟨before, record, after ++ [call], by simp, hdeclared⟩
      · exact ⟨calls, record, [], rfl, hdeclared⟩
    · rintro ⟨before, record, after, hcalls, hdeclared⟩
      rcases List.eq_nil_or_concat' after with rfl | ⟨after, last, rfl⟩
      · -- It is the last call that declares the policy.
        obtain ⟨rfl, hcall⟩ := List.append_inj' hcalls rfl
        exact .inr ⟨record, List.singleton_inj.1 hcall, hdeclared⟩
      · rw [← List.cons_append, ← List.append_assoc] at hcalls
        exact .inl ⟨before, record, after, (List.append_inj' hcalls rfl).1, hdeclared⟩

/-! ### Certifications -/

/-- The last certification among the records of a segment: no other one stands behind it. The right
side names the place of the record, which `IsLatest` asks for. -/
theorem Segment.getLast?_signatures {t : Segment} {signature : Signature} :
    t.signatures.getLast? = some signature ↔ ∃ body between,
      t.body = body ++ .sig signature :: between ∧ ∀ other, .sig other ∉ between := by
  rw [List.getLast?_eq_some_iff]
  constructor
  · rintro ⟨signatures, h⟩
    obtain ⟨body, rest, hbody, -, hrest⟩ := List.filterMap_eq_append_iff.1 h
    obtain ⟨skipped, record, between, rfl, -, hrecord, hnone⟩ := List.filterMap_eq_cons_iff.1 hrest
    cases record with
    | sig signature' =>
      obtain rfl := Option.some.inj hrecord
      -- No signature stands behind the last one.
      have hbetween : (⟨t.head, between⟩ : Segment).signatures = [] := hnone
      exact ⟨body ++ skipped, between, by rw [hbody, List.append_assoc],
        Segment.signatures_eq_nil_iff.1 hbetween⟩
    | pub _ | uid _ | rev _ | spk _ => cases hrecord
  · rintro ⟨body, between, hbody, hnone⟩
    refine ⟨(⟨t.head, body⟩ : Segment).signatures, ?_⟩
    have hbetween : (⟨t.head, between⟩ : Segment).signatures = [] :=
      Segment.signatures_eq_nil_iff.2 hnone
    rw [Segment.signatures, hbody, List.filterMap_append]
    exact congrArg (_ ++ signature :: ·) hbetween

/-- `signature` is the latest certification behind calls: the last one behind the last `pub` record.
Nothing is said of `finish`, after which a policy would be refused. -/
def IsLatest (calls : List Call) (signature : Signature) : Prop :=
  ∃ before head body between,
    calls = before ++ .push (.pub head) :: (body ++ .push (.sig signature) :: between) ∧
      (∀ other, .push (.pub other) ∉ body ∧ .push (.pub other) ∉ between) ∧
      ∀ other, .push (.sig other) ∉ between

/-- The latest certification is one of the current key, if there is a current key at all. -/
theorem IsLatest.getLast?_signatures {signature : Signature} {t : Segment}
    (h : IsLatest calls signature) (ht : currentSegment calls = some t) :
    t.signatures.getLast? = some signature := by
  obtain ⟨before, head, body, between, rfl, hpub, hsig⟩ := h
  rw [currentSegment, List.foldl_append, List.foldl_cons, Call.enter,
    foldl_enter_some_iff (by simpa using fun other => hpub other)] at ht
  -- Since the key is still current, nothing but its records stands behind the `pub` record.
  obtain ⟨records, hrecords, rfl⟩ := ht
  obtain ⟨body, rest, rfl, rfl, hrest⟩ := List.map_eq_append_iff.1 hrecords.symm
  obtain ⟨record, between, rfl, hrecord, rfl⟩ := List.map_eq_cons_iff.1 hrest
  cases hrecord
  exact Segment.getLast?_signatures.2
    ⟨body, between, rfl, fun other hmem => hsig other (List.mem_map_of_mem hmem)⟩

/-- The issuer that policies belong to, if there is one, is that of the latest certification. It is
the form in which `policies_by_latest_signature` states it. -/
theorem issuerBehind_eq_some_iff {issuer : KeyId} (h : (issuerBehind calls).isSome = true) :
    issuerBehind calls = some issuer ↔
      ∃ signature, IsLatest calls signature ∧ signature.issuer = issuer := by
  cases ht : currentSegment calls with
  | none =>
    rw [issuerBehind, ht] at h
    cases h
  | some t =>
    rw [issuerBehind, ht, Option.bind_some, Option.map_eq_some_iff]
    refine exists_congr fun signature => and_congr_left fun _ => ?_
    constructor
    · intro hlast
      -- The current segment goes back to the latest `pub`.
      obtain ⟨hpub, before, rfl⟩ := currentSegment_eq_some_iff.1 ht
      obtain ⟨body, between, hbody, hsig⟩ := Segment.getLast?_signatures.1 hlast
      refine ⟨before, t.head, body.map .push, between.map .push, by simp [hbody], ?_, ?_⟩
      · rw [hbody] at hpub
        simpa [forall_and] using hpub
      · simpa using hsig
    · exact fun hlatest => hlatest.getLast?_signatures ht

/-- A policy that is taken belongs to some issuer, as one without would have been refused. Success
of the run excludes `Misplacement.policyUriBeforeSignature`. -/
theorem isSome_issuerBehind {before after : List Call} {record : SpkRecord}
    (h : ({ settings } : Resolver).answerAll (before ++ .push (.spk record) :: after)
      = .ok (r, keys)) (hkind : record.isPolicyUri = true) :
    (issuerBehind before).isSome = true := by
  obtain ⟨r₁, _, _, hbefore, hrest, -⟩ := answerAll_append_eq_ok.1 h
  obtain ⟨r₂, key, _, hanswer, -, -⟩ := answerAll_cons hrest
  have hissuer : r₁.lastIssuer = issuerBehind before := (tracks_currentSegment hbefore).lastIssuer
  obtain ⟨-, ⟨hother, -⟩ | ⟨-, issuer, hsome, -⟩⟩ := push_spk_eq_ok.1 hanswer
  · exact absurd hkind (by simp [hother])
  · rw [← hissuer, hsome, Option.isSome_some]

/-- A policy is laid to the issuer of the latest certification of the current key, whatever becomes
of that certification and whatever else stands in between. -/
theorem policies_by_latest_signature
    (h : ({ settings } : Resolver).answerAll calls = .ok (r, keys)) (blocks : Nat)
    (p : PolicyUri) :
    (r.firstPass blocks).policyUris.declares p = true ↔ ∃ before record after signature,
      calls = before ++ .push (.spk record) :: after ∧ record.kind = policyUriKind ∧
        record.data = p.uri ∧ IsLatest before signature ∧ signature.issuer = p.issuer := by
  have hkind : ∀ record : SpkRecord, record.isPolicyUri = true ↔ record.kind = policyUriKind :=
    fun _ => decide_eq_true_iff
  show r.policyUris.declares p = true ↔ _
  rw [declares_answerAll_iff h]
  constructor
  · rintro ⟨before, record, after, rfl, hpolicy, huri, hissuer⟩
    obtain ⟨signature, hlatest, heq⟩ :=
      (issuerBehind_eq_some_iff (isSome_issuerBehind h hpolicy)).1 hissuer
    exact ⟨before, record, after, signature, rfl, (hkind record).1 hpolicy, huri, hlatest, heq⟩
  · rintro ⟨before, record, after, signature, rfl, hpolicy, huri, hlatest, heq⟩
    have hpolicy := (hkind record).2 hpolicy
    exact ⟨before, record, after, rfl, hpolicy, huri,
      (issuerBehind_eq_some_iff (isSome_issuerBehind h hpolicy)).2 ⟨signature, hlatest, heq⟩⟩

/-- The certification of `BB` is expired, so it does not count, and it is revoked later on, and
there is another user id before the policy. The policy is that of `BB` all the same. -/
theorem policies_by_latest_signature_excluded :
    let calls : List Call :=
      [.push (.pub ⟨"", 1024, .dsa, .ofText "AA", "2000-01-01", "", 4⟩), .push (.uid ⟨"A"⟩),
        .push (.sig ⟨.ofText "AA", "2001-01-01", "", "", .generic, .dsa, .sha1, 4⟩),
        .push (.sig ⟨.ofText "BB", "2001-01-01", "", "e", .generic, .dsa, .sha1, 4⟩),
        .push (.rev ⟨.ofText "BB", "2002-01-01", .certification, 4, .dsa, .sha1⟩),
        .push (.uid ⟨"B"⟩), .push (.spk ⟨20, 0, 1, "a"⟩), .push (.spk ⟨26, 0, 1, "b"⟩),
        .finish]
    ∃ r keys, ({ settings := {} } : Resolver).answerAll calls = .ok (r, keys) ∧
      keys.map (fun k => k.certifications.keys) = [[]] ∧
      (r.firstPass 0).policyUris.pairs = [⟨.ofText "BB", "b"⟩] ∧
      ∀ p, (r.firstPass 0).policyUris.declares p = true ↔ ∃ before record after signature,
        calls = before ++ .push (.spk record) :: after ∧ record.kind = policyUriKind ∧
          record.data = p.uri ∧ IsLatest before signature ∧ signature.issuer = p.issuer :=
  ⟨_, _, rfl, by decide +kernel, by decide +kernel, fun p => policies_by_latest_signature rfl 0 p⟩

end Resolver

end WebOfTrust
