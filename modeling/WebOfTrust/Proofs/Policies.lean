import WebOfTrust.Proofs.Pipeline
import WebOfTrust.Proofs.PolicyUriTable

/-!
# `WebOfTrust.Proofs.Policies`: the policy table behind both passes

The first pass enters the policies of all issuers, since it does not know yet who is interesting.
The second one writes those of the interesting keys, and it writes them to an artifact of their own,
which neither blocks nor lines get into.

- `Resolver.policies`: the policies that the records of a dump declare;
- `policyUris_resolve`: the table of the first pass;
- `refine_policies`: what a second pass that succeeds writes of it;
- `policies_written_and_read`: any table that the operations build, and that of a dump.
-/

set_option autoImplicit false

namespace WebOfTrust

open Dump PolicyUriTable Resolver Text

/-! ### The first pass -/

namespace Resolver

/-- To complete a key does not touch the policies. A run changes them by `push` only. -/
@[simp] theorem policyUris_commitCurrent (r : Resolver) :
    r.commitCurrent.1.policyUris = r.policyUris := by
  simp only [commitCurrent]
  split <;> rfl

/-- Neither does it forget the issuer that policies belong to; that is done by `push` and `finish`
themselves. -/
@[simp] theorem lastIssuer_commitCurrent (r : Resolver) :
    r.commitCurrent.1.lastIssuer = r.lastIssuer := by
  simp only [commitCurrent]
  split <;> rfl

/-- The policies that calls declare, if `last` is the issuer of the latest certification. A further
key makes it forgotten, and so does `finish`. Calls that are refused later on do not matter here. -/
def policies (last : Option KeyId) : List Call → List PolicyUri
  | [] => []
  | .finish :: calls | .push (.pub _) :: calls => policies none calls
  | .push (.sig signature) :: calls => policies (some signature.issuer) calls
  | .push (.spk record) :: calls =>
    (if record.isPolicyUri then last.toList.map fun issuer => ⟨issuer, record.data⟩ else [])
      ++ policies last calls
  | .push (.uid _) :: calls | .push (.rev _) :: calls => policies last calls

/-- What is entered before an answer and what is declared from then on is the same behind it. The
cases are the calls, one for each branch of `policies`. -/
theorem foldl_policies_answer {r r' : Resolver} {call : Call} {key : Option CommittedKey}
    (h : r.answer call = .ok (r', key)) (calls : List Call) :
    (policies r.lastIssuer (call :: calls)).foldl PolicyUriTable.add r.policyUris
      = (policies r'.lastIssuer calls).foldl PolicyUriTable.add r'.policyUris := by
  rcases call with (record | record | record | record | record) | _
  case finish =>
    have hpolicies : { r with lastIssuer := none }.commitCurrent.1.policyUris = r'.policyUris :=
      congrArg (fun a => a.1.policyUris) (Except.ok.inj h)
    have hissuer : { r with lastIssuer := none }.commitCurrent.1.lastIssuer = r'.lastIssuer :=
      congrArg (fun a => a.1.lastIssuer) (Except.ok.inj h)
    rw [policies, ← hpolicies, ← hissuer, policyUris_commitCurrent, lastIssuer_commitCurrent]
  case push.pub =>
    have hpolicies : r.commitCurrent.1.policyUris = r'.policyUris :=
      congrArg (fun a => a.1.policyUris) (Except.ok.inj h)
    have hissuer : none = r'.lastIssuer := congrArg (fun a => a.1.lastIssuer) (Except.ok.inj h)
    rw [policies, ← hpolicies, ← hissuer, policyUris_commitCurrent]
  -- Only here a pair may be added, if the type is that of a policy.
  case push.spk =>
    obtain ⟨-, ⟨hkind, rfl⟩ | ⟨hkind, issuer, hissuer, rfl⟩⟩ := push_spk_eq_ok.1 h
    · simp [policies, hkind]
    · simp [policies, hkind, hissuer]
  case push.uid =>
    obtain ⟨-, k, -, rfl⟩ := push_uid_eq_ok.1 h
    rfl
  case push.sig =>
    obtain ⟨-, k, k', -, -, rfl⟩ := push_sig_eq_ok.1 h
    rfl
  case push.rev =>
    obtain ⟨-, k, k', -, -, rfl⟩ := push_rev_eq_ok.1 h
    rfl

/-- A run enters the policies that its calls declare, into the table with which it started.
`Resolver.policies` takes the issuer that the run starts with as an argument. -/
theorem policyUris_answerAll {r r' : Resolver} {calls : List Call} {keys : List CommittedKey}
    (h : r.answerAll calls = .ok (r', keys)) :
    r'.policyUris = (policies r.lastIssuer calls).foldl PolicyUriTable.add r.policyUris := by
  induction calls generalizing r keys with
  | nil =>
    cases h
    rfl
  | cons call calls ih =>
    obtain ⟨r₁, key, keys₁, hanswer, hrest, -⟩ := answerAll_cons h
    rw [ih hrest, foldl_policies_answer hanswer]

end Resolver

/-- The table of a first pass that succeeds has the policies that the records declare, of whatever
issuers. -/
theorem policyUris_resolve {settings : ResolutionSettings} {dump : Source} {out : Artifacts}
    {first : FirstPass} {items : List (Nat × Record)} (hitems : records dump = items.map .ok)
    (h : (resolve settings dump out).result = .ok first) :
    first.policyUris = (policies none (passCalls items)).foldl PolicyUriTable.add ∅ := by
  obtain ⟨items', r, keys, hitems', hrun, -, rfl⟩ := run_eq_ok h
  obtain rfl := map_ok_inj.1 (hitems.symm.trans hitems')
  exact policyUris_answerAll hrun

/-- It is one that the operations build, so it has no empty sets.
`PolicyUriTable.Reachable.wellFormed` gives that. -/
theorem reachable_policyUris {settings : ResolutionSettings} {dump : Source} {out : Artifacts}
    {first : FirstPass} (h : (resolve settings dump out).result = .ok first) :
    first.policyUris.Reachable := by
  obtain ⟨items, -, -, hitems, -⟩ := resolve_gain h
  rw [policyUris_resolve hitems h]
  exact Reachable.empty.foldl_add _

/-! ### The second pass -/

/-- A block is written to the corpus and not to the policy table. It is `Artifacts.sink_write_of_ne`
for the two of them. -/
theorem BlockFate.policy_write {out out' : Artifacts} {fate : BlockFate}
    (h : fate.write out = .ok out') : out'.policy = out.policy := by
  cases fate with
  | duplicate | dropped => exact Except.ok.inj h ▸ rfl
  | written b => exact Artifacts.sink_write_of_ne (b := .policyUris) h (by decide)

/-- Blocks do not get into the policy table, whether or not the pass over them succeeds. A pass that
fails has written some blocks, but to another artifact. -/
theorem policy_refineBlocks (interesting : KeySet KeyId) (p : BlockPass) (out : Artifacts)
    (items : List (Except ResolutionError EdgeBlock)) :
    (refineBlocks interesting p out items).written.policy = out.policy := by
  induction items generalizing p out with
  | nil => rfl
  | cons item items ih =>
    cases item with
    | error e => rfl
    | ok b =>
      -- A block is written to the corpus, which is another artifact.
      cases hw : (p.fate interesting b).write out with
      | error e => simp only [refineBlocks, hw]
      | ok out' =>
        simp only [refineBlocks, hw]
        rw [ih, BlockFate.policy_write hw]

/-- Neither do lines. They are written to the table of statuses. -/
theorem policy_refineStatus (trusted : KeySet KeyId) (certified : Nat) (out : Artifacts)
    (items : List (Except ResolutionError StatusLine)) :
    (refineStatus trusted certified out items).written.policy = out.policy := by
  induction items generalizing certified out with
  | nil => rfl
  | cons item items ih =>
    cases item with
    | error e => rfl
    | ok l =>
      -- A line is written to the table, which is another artifact.
      cases hw : out.writeStatus (l.promote trusted) with
      | error e => simp only [refineStatus, hw]
      | ok out' =>
        simp only [refineStatus, hw]
        rw [ih]
        exact Artifacts.sink_write_of_ne (b := .policyUris) hw (by decide)

/-- A second pass that succeeds appends the table of the interesting keys, and counts its pairs.
Which keys are interesting is said by `first`, so nothing of the corpus is needed. -/
theorem refine_policies {first : FirstPass} {corpus status : Source} {out : Artifacts}
    {counts : Refinement} (h : (refine first corpus status out).result = .ok counts) :
    (refine first corpus status out).written.policy.text = out.policy.text
        ++ (first.policyUris.retainIssuers first.interesting).text ∧
      counts.policyUris = (first.policyUris.retainIssuers first.interesting).size := by
  obtain ⟨p, n, -, -, hpolicies, rfl⟩ := refine_stages h
  have htext := Artifacts.text_write hpolicies
  rw [join_pieces] at htext
  refine ⟨?_, rfl⟩
  show ((refine first corpus status out).written.sink .policyUris).text = _
  rw [htext]
  show (refineStatus _ _ _ _).written.policy.text ++ _ = _
  rw [policy_refineStatus, refineCorpus, policy_refineBlocks]

/-! ### Both passes -/

/-- What both passes make of the policies of a dump: `kept` is what is left of the table of the
first pass. -/
structure PoliciesKept (p : Resolution) (kept : PolicyUriTable) : Prop where
  /-- It is the table without the issuers that are not interesting. -/
  restricted : kept = p.first.policyUris.retainIssuers p.first.interesting
  /-- Pair by pair, it has those of interesting issuers. -/
  declares : ∀ q, kept.declares q = true ↔
    q.issuer ∈ p.first.interesting ∧ p.first.policyUris.declares q = true
  /-- It is what the final artifact holds. -/
  table : Holds p.final.policy.text kept
  /-- The pass counts one pair for each line. -/
  count : p.counts.policyUris = (Source.ofString p.final.policy.text).textLines.length

/-- A table that the operations build is written one line a pair and read back, and that of a dump
is the one of the first pass without the keys that are not interesting. -/
theorem policies_written_and_read :
    (∀ t : PolicyUriTable, t.Reachable →
      t.WellFormed ∧ (t.isEmpty = true ↔ t.size = 0) ∧
        ∃ out, t.write {} = .ok out ∧ Holds out.text t) ∧
    ∀ (settings : ResolutionSettings) (dump : Source) (p : Resolution),
      bothPasses settings dump = .ok p → ∃ kept, PoliciesKept p kept := by
  constructor
  · intro t ht
    have hwell := ht.wellFormed
    exact ⟨hwell, hwell.isEmpty_iff, _, write_eq rfl t, by simpa using hwell.holds_text⟩
  · intro settings dump p hp
    obtain ⟨hfirst, -, hcounts, hfinal⟩ := passes_of_bothPasses hp
    obtain ⟨htext, hsize⟩ := refine_policies hcounts
    rw [← hfinal] at htext
    -- The table of the pass is reachable, too, so the first part applies to it.
    have hkept := (Reachable.retainIssuers p.first.interesting
      (reachable_policyUris hfirst)).wellFormed.holds_text
    rw [← @String.empty_append (PolicyUriTable.text _), ← htext] at hkept
    exact ⟨_, rfl, fun _ => declares_retainIssuers, hkept, hsize.trans hkept.size.symm⟩

/-- Two keys that certify each other. The second one declares two policies when it certifies the
first one, and so does a third key, which is not in the dump. One URI has a line end and a
semicolon, and one is empty. -/
def policyDump : Source := .ofString (unlines
  ["pub::1024:17:AA:2001-01-01::4:", "uid:-::::::::Alice:", "sig:AA:2001-01-01::13::4:17:2",
    "sig:BB:2001-01-02::13::4:17:2", "spk:26:0:9:a;b\\x0d\\x0aAA;c", "spk:26:0:0:",
    "sig:CC:2001-01-02::13::4:17:2", "spk:26:0:1:d",
    "pub::1024:17:BB:2001-01-01::4:", "uid:-::::::::Bob:", "sig:BB:2001-01-01::13::4:17:2",
    "sig:AA:2001-01-02::13::4:17:2"])

/-- One of the policies that are left is empty, and the other one has a line end and a semicolon.
That of the third key is dropped, since it is not interesting. -/
theorem policies_written_and_read_policyDump :
    ∃ p, bothPasses {} policyDump = .ok p ∧
      p.final.policy.text = "BB;\nBB;a;b\\x0d\\x0aAA;c\n" ∧ p.counts.policyUris = 2 ∧
      p.first.policyUris.Reachable ∧ p.first.policyUris.size = 3 ∧
      (∃ out, p.first.policyUris.write {} = .ok out ∧ Holds out.text p.first.policyUris) ∧
      ∃ kept, PoliciesKept p kept := by
  have hfacts : ((bothPasses {} policyDump).toOption.map fun p =>
      (p.final.policy.text, p.counts.policyUris, p.first.policyUris.size))
        = some ("BB;\nBB;a;b\\x0d\\x0aAA;c\n", 2, 3) := by
    rw [policyDump, Source.ofString_unlines]
    decide +kernel
  obtain ⟨p, hp, hfacts⟩ := exists_resolution _ hfacts
  simp only [Prod.mk.injEq] at hfacts
  obtain ⟨htext, hcount, hsize⟩ := hfacts
  have hreachable := reachable_policyUris (passes_of_bothPasses hp).1
  exact ⟨p, hp, htext, hcount, hreachable, hsize, (policies_written_and_read.1 _ hreachable).2.2,
    policies_written_and_read.2 _ _ _ hp⟩

end WebOfTrust
