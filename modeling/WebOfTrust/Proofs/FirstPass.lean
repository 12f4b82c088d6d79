import WebOfTrust.Proofs.Artifacts
import WebOfTrust.Proofs.Dump
import WebOfTrust.Proofs.Resolver

/-!
# `WebOfTrust.Proofs.FirstPass`: what the first pass reads and writes

The first pass puts every record of a dump to a resolver, ends with `finish`, and writes what each
key that is handed back gives. So what it leaves is told by those keys, and those keys by the
segments of the dump.

- `Resolver.run_eq_ok`, `Resolver.run_accepts`: the pass is a run of the resolver, and fails only
  where that does or where a sink does;
- `resolve_gain`, `resolve_eq_ok`: a first pass that succeeds;
- `Resolved.plain`: the texts of its keys are those of a dump.
-/

set_option autoImplicit false

namespace WebOfTrust

open Dump Resolver Text

/-! ### What completed keys give -/

/-- The lines that keys give, one for each, in the order in which they are handed back. -/
def statusLines (keys : List CommittedKey) : List StatusLine := keys.map CommittedKey.statusLine

/-- The blocks that keys give: one for each interesting key. `CommittedKey.edgeBlock` decides by
`isInteresting`. -/
def edgeBlocks (keys : List CommittedKey) : List EdgeBlock := keys.filterMap CommittedKey.edgeBlock

/-- The lines of keys come in the order of the keys. Runs are followed key by key, with those that
came before on the left. -/
theorem statusLines_append (keys keys' : List CommittedKey) :
    statusLines (keys ++ keys') = statusLines keys ++ statusLines keys' :=
  List.map_append

/-- So do the blocks. Keys that give none are skipped by `List.filterMap`. -/
theorem edgeBlocks_append (keys keys' : List CommittedKey) :
    edgeBlocks (keys ++ keys') = edgeBlocks keys ++ edgeBlocks keys' :=
  List.filterMap_append

/-- A block is that of an interesting key, with all certifications that the key holds. Its entries
are `certifications.values`, in the order of the table. -/
theorem mem_edgeBlocks_iff {keys : List CommittedKey} {b : EdgeBlock} :
    b ∈ edgeBlocks keys ↔ ∃ k ∈ keys, k.isInteresting = true ∧
      b = ⟨k.keyId, k.certifications.values.map Certification.toSignature⟩ := by
  rw [edgeBlocks, List.mem_filterMap]
  refine exists_congr fun k => and_congr_right fun _ => ?_
  rw [CommittedKey.edgeBlock]
  split
  · next hi => simp [hi, eq_comm]
  · next hi => simp [hi]

namespace Artifacts

/-- From `out` to `out'` the artifacts have gained what `keys` give: a line for each of them, and a
block for each interesting one. -/
def GainKeys (out out' : Artifacts) (keys : List CommittedKey) : Prop :=
  Gain out out' (unlines ((statusLines keys).map StatusLine.render))
    (String.join ((edgeBlocks keys).map EdgeBlock.render))

/-- What keys give adds up, one key after the other. It is `Gain.trans` together with the two lemmas
on appended keys. -/
theorem GainKeys.trans {out out' out'' : Artifacts} {keys keys' : List CommittedKey}
    (h : GainKeys out out' keys) (h' : GainKeys out' out'' keys') :
    GainKeys out out'' (keys ++ keys') := by
  have htrans := Gain.trans h h'
  rwa [← unlines_append, ← List.map_append, ← statusLines_append, ← String.join_append,
    ← List.map_append, ← edgeBlocks_append] at htrans

/-- A key that is handed back is written at once: its line, and its block if it is interesting. -/
theorem gain_emit {out out' : Artifacts} {key : CommittedKey} (h : out.emit key = .ok out') :
    GainKeys out out' [key] := by
  simp only [emit, except_bind_eq_ok] at h
  obtain ⟨out₁, hstatus, h⟩ := h
  have hstatus := gain_writeStatus hstatus
  -- The line is written in any case, and a block only for an interesting key.
  cases hb : key.edgeBlock with
  | none =>
    rw [hb] at h
    obtain rfl := except_pure_eq_ok.1 h
    simpa [GainKeys, statusLines, edgeBlocks, hb] using hstatus
  | some b =>
    rw [hb] at h
    simpa [GainKeys, statusLines, edgeBlocks, hb] using hstatus.trans (gain_writeBlock h)

/-- Where no key is handed back, nothing is written. Only `pub` records and the end hand one
back. -/
theorem gain_emit? {out out' : Artifacts} {key : Option CommittedKey}
    (h : out.emit? key = .ok out') : GainKeys out out' key.toList := by
  cases key with
  | none =>
    obtain rfl := Except.ok.inj h
    exact Gain.refl out
  | some key => exact gain_emit h

/-- Where no sink fails, everything that a key gives is written, and the artifacts are faultless
still. -/
theorem Faultless.emit? {out : Artifacts} (h : out.Faultless) (key : Option CommittedKey) :
    ∃ out', out.emit? key = .ok out' ∧ out'.Faultless := by
  cases key with
  | none => exact ⟨out, rfl, h⟩
  | some key =>
    obtain ⟨out₁, hstatus, h₁⟩ := h.write .keyStatus key.statusLine.pieces
    -- One write or two, each of which leaves faultless artifacts.
    cases hb : key.edgeBlock with
    | none =>
      refine ⟨out₁, ?_, h₁⟩
      rw [Artifacts.emit?, emit, Artifacts.writeStatus, hstatus, except_bind_ok, hb]
      rfl
    | some b =>
      obtain ⟨out₂, hblock, h₂⟩ := h₁.write .edgeCorpus b.pieces
      refine ⟨out₂, ?_, h₂⟩
      rw [Artifacts.emit?, emit, Artifacts.writeStatus, hstatus, except_bind_ok, hb]
      exact hblock

end Artifacts

/-- The blocks that the pass counts are those that it writes. `FirstPass.edgeBlocks` is the sum of
these. -/
theorem blockCount_eq (key : Option CommittedKey) :
    blockCount key = (edgeBlocks key.toList).length := by
  cases key with
  | none => rfl
  | some key =>
    cases hi : key.isInteresting with
    | false => simp [blockCount, edgeBlocks, CommittedKey.edgeBlock, hi]
    | true => simp [blockCount, edgeBlocks, CommittedKey.edgeBlock, hi]

/-! ### The pass -/

/-- What a first pass asks of its resolver: to take each record, and then to end. Theorems about
`Resolver.answerAll` apply to a pass by it. -/
def passCalls (records : List (Nat × Record)) : List Call :=
  records.map (fun r => .push r.2) ++ [.finish]

/-- The numbers of lines have no part in what is asked. They only go into errors, and `records dump
= items.map .ok` has none. -/
theorem passCalls_eq (items : List (Nat × Record)) :
    passCalls items = (items.map Prod.snd).map .push ++ [.finish] := by
  rw [passCalls, List.map_map]
  rfl

/-- A first pass that succeeds is a run of its resolver over all records, and has written what the
keys handed back give. The induction is on the items, for any resolver and any artifacts to start
from. -/
theorem Resolver.run_eq_ok {r : Resolver} {blocks : Nat} {out : Artifacts} {items : List Item}
    {first : FirstPass} (h : (r.run blocks out items).result = .ok first) :
    ∃ records r' keys, items = records.map .ok ∧
      r.answerAll (passCalls records) = .ok (r', keys) ∧
      out.GainKeys (r.run blocks out items).written keys ∧
      first = r'.firstPass (blocks + (edgeBlocks keys).length) := by
  -- Each step is one call and one write. If either fails, so does the pass.
  induction items generalizing r blocks out with
  | nil =>
    cases hemit : out.emit? r.finish.2 with
    | error e => simp [run, close, hemit] at h
    | ok out' =>
      simp only [run, close, hemit] at h ⊢
      refine ⟨[], r.finish.1, r.finish.2.toList, rfl, ?_, Artifacts.gain_emit? hemit, ?_⟩
      · show r.answerAll [.finish] = .ok (r.finish.1, r.finish.2.toList)
        simp [answerAll, answer, except_bind_ok, pure, Except.pure]
      · obtain ⟨-, -, hfirst⟩ := except_map_eq_ok.1 h
        rw [← blockCount_eq]
        exact hfirst.symm
  | cons item items ih =>
    cases item with
    | error e => cases h
    | ok item =>
      obtain ⟨n, record⟩ := item
      cases hpush : r.push record with
      | error cause => simp [run, hpush] at h
      | ok answer =>
        obtain ⟨r₁, key⟩ := answer
        cases hemit : out.emit? key with
        | error e => simp [run, hpush, hemit] at h
        | ok out₁ =>
          simp only [run, hpush, hemit] at h ⊢
          obtain ⟨records, r', keys, rfl, hrun, hgain, rfl⟩ := ih h
          refine ⟨(n, record) :: records, r', key.toList ++ keys, rfl, ?_,
            (Artifacts.gain_emit? hemit).trans hgain, ?_⟩
          · rw [passCalls, List.map_cons, List.cons_append, answerAll, answer, hpush,
              except_bind_ok]
            simp only
            rw [← passCalls, hrun]
            rfl
          · rw [edgeBlocks_append, List.length_append, ← Nat.add_assoc, blockCount_eq]

/-- A first pass whose resolver accepts all records succeeds, if no sink fails. It is the converse
of `Resolver.run_eq_ok` as far as success goes. -/
theorem Resolver.run_accepts {r r' : Resolver} {blocks : Nat} {out : Artifacts}
    {items : List (Nat × Record)} {keys : List CommittedKey} (hout : out.Faultless)
    (hrun : r.answerAll (passCalls items) = .ok (r', keys)) :
    ∃ first, (r.run blocks out (items.map .ok)).result = .ok first := by
  -- On the records, for any state of the resolver and of the artifacts.
  induction items generalizing r blocks out keys with
  | nil =>
    obtain ⟨out', hemit, hout'⟩ := hout.emit? r.finish.2
    simp only [List.map_nil, run, close, hemit, hout'.flush]
    exact ⟨_, rfl⟩
  | cons item items ih =>
    obtain ⟨n, record⟩ := item
    obtain ⟨r₁, key, keys₁, hanswer, hrest, -⟩ := answerAll_cons hrun
    have hpush : r.push record = .ok (r₁, key) := hanswer
    obtain ⟨out₁, hemit, hout₁⟩ := hout.emit? key
    simp only [List.map_cons, run, hpush, hemit]
    exact ih hout₁ hrest

/-- What a first pass over `records` leaves, if it succeeds and its keys are `keys`. All later
theorems about a first pass start from these four facts. -/
structure Resolved (settings : ResolutionSettings) (records : List (Nat × Record))
    (first : FirstPass) (raw : Artifacts) (keys : List CommittedKey) : Prop where
  /-- The keys are those of the segments. -/
  committed : (segments (passCalls records)).mapM (Segment.commit settings) = .ok keys
  /-- The interesting ids are those of interesting keys. -/
  interesting : ∀ id, id ∈ first.interesting ↔
    ∃ k ∈ keys, k.isInteresting = true ∧ k.keyId = id
  /-- The raw table has the lines of the keys. -/
  status : raw.status.text = unlines ((statusLines keys).map StatusLine.render)
  /-- The raw corpus has their blocks. -/
  corpus : raw.corpus.text = String.join ((edgeBlocks keys).map EdgeBlock.render)

/-- A first pass over any sinks that succeeds. What the sinks had before stays in front, so the
artifacts `raw` are what was added. -/
theorem resolve_gain {settings : ResolutionSettings} {dump : Source} {out : Artifacts}
    {first : FirstPass} (h : (resolve settings dump out).result = .ok first) :
    ∃ items keys raw, records dump = items.map .ok ∧ Resolved settings items first raw keys ∧
      out.Gain (resolve settings dump out).written raw.status.text raw.corpus.text ∧
      keys.map CommittedKey.record = (passCalls items).filterMap Call.pub? ∧
      first.keys = keys.length ∧ first.edgeBlocks = (edgeBlocks keys).length := by
  obtain ⟨items, r, keys, hitems, hrun, hgain, rfl⟩ := run_eq_ok h
  obtain ⟨hkeys, hrecords, hcount, hinteresting⟩ := answerAll_segments (by simp [passCalls]) hrun
  refine ⟨items, keys, { status := ⟨_, none, none⟩, corpus := ⟨_, none, none⟩ }, hitems,
    ⟨hkeys, hinteresting, rfl, rfl⟩, hgain, hrecords, ?_, Nat.zero_add _⟩
  show r.keys = keys.length
  rw [hcount, ← hrecords, List.length_map]

/-- Over sinks that are empty, what is written is all there is. It is `Resolver.run_eq_ok` for a new
resolver, in the form of `Resolved`. -/
theorem resolve_eq_ok {settings : ResolutionSettings} {dump : Source} {first : FirstPass}
    (h : (resolve settings dump {}).result = .ok first) :
    ∃ items keys, records dump = items.map .ok ∧
      Resolved settings items first (resolve settings dump {}).written keys := by
  obtain ⟨items, keys, raw, hitems, hresolved, hgain, -⟩ := resolve_gain h
  refine ⟨items, keys, hitems, hresolved.committed, hresolved.interesting, ?_, ?_⟩
  · rw [← hresolved.status]
    simpa using hgain.status
  · rw [← hresolved.corpus]
    simpa using hgain.corpus

/-- The counts are those of the keys and of their blocks. The second pass takes neither of them
up. -/
theorem Resolved.counts {settings : ResolutionSettings} {dump : Source} {out raw : Artifacts}
    {items : List (Nat × Record)} {first : FirstPass} {keys : List CommittedKey}
    (h : Resolved settings items first raw keys) (hitems : records dump = items.map .ok)
    (hfirst : (resolve settings dump out).result = .ok first) :
    first.keys = keys.length ∧ first.edgeBlocks = (edgeBlocks keys).length := by
  obtain ⟨items', keys', raw', hitems', h', -, -, hcounts⟩ := resolve_gain hfirst
  obtain rfl := map_ok_inj.1 (hitems.symm.trans hitems')
  obtain rfl := Except.ok.inj (h.committed.symm.trans h'.committed)
  exact hcounts

/-! ### The texts of its keys -/

/-- The texts of a key come from plain records, so its line and its block are lines of text. -/
structure CommittedKey.Plain (k : CommittedKey) : Prop where
  /-- The record that opened the key. -/
  record : k.record.Plain
  /-- The certifications that the key holds. -/
  certifications : ∀ c ∈ k.certifications.values, c.toSignature.Plain

/-- A record of the current key was pushed by one of the calls. So it comes from a line of the dump,
and what holds of all lines holds of it. -/
theorem mem_calls_of_mem_ownRecords {calls : List Call} {r : Record}
    (h : r ∈ ownRecords calls) : .push r ∈ calls := by
  fun_induction ownRecords calls with
  | case1 => cases h
  | case2 => cases h
  | case3 => cases h
  | case4 _ calls ih => exact List.mem_cons_of_mem _ (ih h)
  | case5 _ calls ih | case6 _ calls ih | case7 _ calls ih =>
    rcases List.mem_cons.1 h with rfl | h
    · exact List.mem_cons_self
    · exact List.mem_cons_of_mem _ (ih h)

/-- The records of a segment were pushed by calls, its head too. `mem_calls_of_mem_ownRecords` is
the case of the records behind the head. -/
theorem mem_calls_of_mem_segments {calls : List Call} {s : Segment} (h : s ∈ segments calls) :
    .push (.pub s.head) ∈ calls ∧ ∀ r ∈ s.body, .push r ∈ calls := by
  -- The cases are those of `segments`: a `pub` record opens one, other calls do not.
  fun_induction segments calls with
  | case1 => cases h
  | case2 record calls ih =>
    rcases List.mem_cons.1 h with rfl | h
    · exact ⟨List.mem_cons_self, fun r hr =>
        List.mem_cons_of_mem _ (mem_calls_of_mem_ownRecords hr)⟩
    · obtain ⟨hhead, hbody⟩ := ih h
      exact ⟨List.mem_cons_of_mem _ hhead, fun r hr => List.mem_cons_of_mem _ (hbody r hr)⟩
  | case3 call calls _ ih =>
    obtain ⟨hhead, hbody⟩ := ih h
    exact ⟨List.mem_cons_of_mem _ hhead, fun r hr => List.mem_cons_of_mem _ (hbody r hr)⟩

/-- The key of a segment of plain records is plain. What a key holds are certifications that it was
given, by `Key.Sound`. -/
theorem Segment.plain_commit {settings : ResolutionSettings} {s : Segment} {k : CommittedKey}
    (h : s.commit settings = .ok k) (hhead : s.head.Plain) (hbody : ∀ r ∈ s.body, r.Plain) :
    k.Plain := by
  refine ⟨Segment.record_commit h ▸ hhead, fun c hc => ?_⟩
  obtain ⟨key, hkey, rfl⟩ := except_map_eq_ok.1 h
  have hsound : key.Sound fun c => c.toSignature.Plain :=
    Key.sound_foldlM_take (fun signature hmem => hbody (.sig signature) hmem) hkey
  -- Marks of revocation are no part of the text, so they do not matter here.
  have hplain : ∀ c d : Certification, c.toSignature = d.toSignature →
      c.toSignature.Plain → d.toSignature.Plain := fun c d heq hc => heq ▸ hc
  obtain ⟨issuer, hfind⟩ := Table.mem_values_iff.1 hc
  obtain ⟨-, hheld⟩ := (Key.find?_certifications_commit hsound hplain).1 hfind
  exact ((Key.sound_consolidated hsound hplain).held issuer c hheld).2

namespace Resolved

variable {settings : ResolutionSettings} {items : List (Nat × Record)} {first : FirstPass}
  {raw : Artifacts} {keys : List CommittedKey}

/-- Each key is that of a segment. `committed` has the segments and the keys side by side. -/
theorem exists_segment (h : Resolved settings items first raw keys) {k : CommittedKey}
    (hk : k ∈ keys) : ∃ s ∈ segments (passCalls items), s.commit settings = .ok k := by
  have hmem : Except.ok k ∈ (segments (passCalls items)).map (Segment.commit settings) := by
    rw [except_mapM_eq_ok.1 h.committed]
    exact List.mem_map_of_mem hk
  exact List.mem_map.1 hmem

/-- The keys of a dump are plain, since the records of a dump are. By `mem_calls_of_mem_segments`,
no field of them has a line feed or an unknown spelling of a number. -/
theorem plain {dump : Source} (h : Resolved settings items first raw keys)
    (hdump : records dump = items.map .ok) : ∀ k ∈ keys, k.Plain := by
  intro k hk
  obtain ⟨s, hs, hcommit⟩ := h.exists_segment hk
  -- Every call is a record of the dump, or the end.
  have hplain : ∀ r, Call.push r ∈ passCalls items → r.Plain := by
    intro r hr
    rcases List.mem_append.1 hr with hr | hr
    · obtain ⟨item, hitem, heq⟩ := List.mem_map.1 hr
      obtain rfl := Call.push.inj heq
      have hmem : .ok (item.1, item.2) ∈ records dump := by
        rw [hdump]
        exact List.mem_map_of_mem hitem
      exact plain_of_mem_records hmem
    · exact absurd (List.mem_singleton.1 hr) (by simp)
  obtain ⟨hhead, hbody⟩ := mem_calls_of_mem_segments hs
  exact Segment.plain_commit hcommit (hplain _ hhead) fun r hr => hplain r (hbody r hr)

/-- The status of each key is settled, and none is promoted: promotion is left to the second
pass. -/
theorem settled (h : Resolved settings items first raw keys) :
    ∀ k ∈ keys, k.status ≠ .unvalidated ∧ k.status ≠ .certified := by
  intro k hk
  obtain ⟨s, -, hcommit⟩ := h.exists_segment hk
  obtain ⟨key, -, rfl⟩ := except_map_eq_ok.1 hcommit
  exact Key.settled_commit settings key

end Resolved

end WebOfTrust
