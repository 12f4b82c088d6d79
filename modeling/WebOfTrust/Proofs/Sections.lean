import Mathlib.Data.List.Perm.Basic
import WebOfTrust.Proofs.Dump.Lines
import WebOfTrust.Proofs.Handover
import WebOfTrust.Proofs.Policies

/-!
# `WebOfTrust.Proofs.Sections`: the lines of one key are read by themselves

A section is a line with a `pub` record and the lines up to the next one. A resolver that comes to a
section may have met any keys before. What it has met stays where it was entered, and nothing of it
decides how the section is taken: the current key is completed and replaced, and the issuer to which
policies belong is forgotten. So a dump that comprises sections is accepted if each of them is, and
the result of the first pass is put together from what each of them gives.

- `Dump.exists_sections`, `Dump.Comprises`: dumps that comprise sections;
- `Resolver.Alike`: what decides how a resolver answers;
- `Resolver.answerAll_sections_iff`: a run over sections succeeds section by section;
- `resolve_sections_iff`, `Resolved.sectionsResolved`: the first pass over them.
-/

set_option autoImplicit false

namespace WebOfTrust

open Dump Resolver Text

/-! ### Sections -/

namespace Dump

/-- Whether a line has the record of a key. Lines that cannot be read do not open one, and neither
do lines without a record. -/
def opensKey (line : List UInt8) : Bool :=
  match readLine line with
  | .ok (some (.pub _)) => true
  | _ => false

/-- The lines of one key. Lines without a record may be among them, and lines that cannot be read;
the passes fail over the latter wherever they are. -/
structure Section where
  /-- The line that opens the key. -/
  head : List UInt8
  /-- The lines behind it, up to the next key. -/
  body : List (List UInt8)
  /-- What the first line is read as. -/
  record : PubRecord
  readHead : readLine head = .ok (some (.pub record))
  noKey : ∀ line ∈ body, opensKey line = false

namespace Section

/-- The lines of a section, the first one included. A dump that `Comprises` sections has these
lines, one section after the other. -/
def lines (s : Section) : List (List UInt8) := s.head :: s.body

/-- The key that the section is about, as its first line names it. `Section.keyId` is also the id of
the completed key. -/
def keyId (s : Section) : KeyId := s.record.keyId

/-- The records behind the first one. Lines without a record have left the dump at this point. -/
def rest (s : Section) : List Record := s.body.filterMap lineRecord?

/-- The records of a section are its key and the rest. The key is there by `Section.readHead`. -/
theorem filterMap_lines (s : Section) :
    s.lines.filterMap lineRecord? = .pub s.record :: s.rest := by
  have hhead : lineRecord? s.head = some (.pub s.record) := by rw [lineRecord?, s.readHead]
  rw [lines, List.filterMap_cons_some hhead, rest]

/-- No further key is among the rest, which `Section.noKey` says of the lines. -/
theorem not_pub_of_mem_rest {s : Section} {r : Record} (h : r ∈ s.rest) (other : PubRecord) :
    r ≠ .pub other := by
  rintro rfl
  obtain ⟨line, hline, hrecord⟩ := List.mem_filterMap.1 h
  have hopens := s.noKey line hline
  rw [lineRecord?] at hrecord
  split at hrecord
  · next hread =>
    rw [opensKey, hread, hrecord] at hopens
    cases hopens
  · cases hrecord

/-- What is asked of a resolver by the lines of a section: the first call opens the key, and none of
the others does. -/
def calls (s : Section) : List Call := .push (.pub s.record) :: s.rest.map .push

/-- The key of a section and the records that belong to it. `segments_sectionCalls` shows that this
is how `segments` cuts a dump of sections. -/
def segment (s : Section) : Segment := ⟨s.record, ownRecords (s.rest.map .push)⟩

/-- The policies that a section declares. No issuer is known at its beginning, whatever stood in
front of it. -/
def policies (s : Section) : List PolicyUri := Resolver.policies none s.calls

end Section

/-- Lines fall into sections, and lines in front of them that belong to no key. So theorems about
sections cover any dump without such leading lines. In the induction, a line that opens a key takes
what was in front of the other sections. -/
theorem exists_sections (lines : List (List UInt8)) :
    ∃ (leading : List (List UInt8)) (sections : List Section),
      (∀ line ∈ leading, opensKey line = false) ∧
        lines = leading ++ sections.flatMap Section.lines := by
  induction lines with
  | nil => exact ⟨[], [], by simp, rfl⟩
  | cons line lines ih =>
    obtain ⟨leading, sections, hleading, hlines⟩ := ih
    cases hopens : opensKey line with
    | false =>
      exact ⟨line :: leading, sections, List.forall_mem_cons.2 ⟨hopens, hleading⟩,
        congrArg (line :: ·) hlines⟩
    | true =>
      -- The line takes what was in front of the other sections.
      obtain ⟨record, hread⟩ : ∃ record, readLine line = .ok (some (.pub record)) := by
        rw [opensKey] at hopens
        split at hopens
        · next record hread => exact ⟨record, hread⟩
        · cases hopens
      exact ⟨[], ⟨line, leading, record, hread, hleading⟩ :: sections, by simp,
        congrArg (line :: ·) hlines⟩

/-- The dump has the lines of the sections, and no others. How the lines end is left open: the last
one may lack its line feed. -/
structure Comprises (dump : Source) (sections : List Section) : Prop where
  /-- The dump is delivered without an error. -/
  error : dump.error = none
  /-- Its lines are those of the sections, one behind the other. -/
  lines : dump.bareLines = sections.flatMap Section.lines

/-- The dump of sections, with a line feed behind each line. -/
def ofSections (sections : List Section) : Source :=
  ⟨(sections.flatMap Section.lines).flatMap (· ++ [lineFeed]), none⟩

/-- What is asked of a resolver by the lines of sections, and by the end behind them. -/
def sectionCalls (sections : List Section) : List Call :=
  sections.flatMap Section.calls ++ [.finish]

/-- The first section comes first. Inductions on sections step by it. -/
theorem sectionCalls_cons (s : Section) (sections : List Section) :
    sectionCalls (s :: sections) = s.calls ++ sectionCalls sections := by
  rw [sectionCalls, sectionCalls, List.flatMap_cons, List.append_assoc]

namespace Comprises

variable {dump dump' : Source} {sections sections' : List Section}

/-- The calls of a pass over the dump are those of the sections: a line without a record brings no
call, in either description. -/
theorem passCalls_eq (h : Comprises dump sections) {items : List (Nat × Record)}
    (hitems : records dump = items.map .ok) : passCalls items = sectionCalls sections := by
  rw [WebOfTrust.passCalls_eq, map_snd_of_records hitems, h.lines, sectionCalls]
  congr 1
  clear h
  induction sections with
  | nil => rfl
  | cons s sections ih =>
    rw [List.flatMap_cons, List.filterMap_append, List.map_append, ih, s.filterMap_lines]
    rfl

/-- The same lines in another order can be read as well, since each line is read on its own. -/
theorem readable (h : Comprises dump sections) (h' : Comprises dump' sections')
    (hperm : sections.Perm sections') (hread : Readable dump) : Readable dump' := by
  refine ⟨h'.error, fun line hline => hread.lines line ?_⟩
  rw [h'.lines] at hline
  rw [h.lines]
  exact (hperm.flatMap_right Section.lines).mem_iff.2 hline

/-- A dump that is put together from sections comprises them, if no line of theirs has a line feed
in it, which would make two lines of it. -/
theorem ofSections (h : ∀ line ∈ sections.flatMap Section.lines, lineFeed ∉ line) :
    Comprises (ofSections sections) sections :=
  ⟨rfl, bareLines_flatMap h⟩

/-- Sections of a dump are those of one in any other order. Their lines come from a dump, so they
have no line feeds in them. -/
theorem ofSections_of_perm (h : Comprises dump sections) (hperm : sections.Perm sections') :
    Comprises (Dump.ofSections sections') sections' := by
  refine ofSections fun line hline => ?_
  apply lineFeed_not_mem_of_mem_bareLines (s := dump)
  rw [h.lines]
  exact (hperm.flatMap_right Section.lines).mem_iff.2 hline

end Comprises

end Dump

/-! ### Segments and policies -/

namespace Resolver

/-- Behind the records of a key nothing belongs to it any more, so what comes later does not add to
its records. -/
theorem ownRecords_append {calls calls' : List Call} (h : ownRecords calls' = []) :
    ownRecords (calls ++ calls') = ownRecords calls := by
  induction calls with
  | nil => exact h
  | cons call calls ih =>
    rcases call with (_ | _ | _ | _ | _) | _
    case push.pub | finish => rfl
    case push.spk => exact ih
    all_goals exact congrArg (List.cons _) ih

/-- Two dumps one behind the other have the segments of both, unless the second begins with records
that would fall to the last key of the first. -/
theorem segments_append {calls calls' : List Call} (h : ownRecords calls' = []) :
    segments (calls ++ calls') = segments calls ++ segments calls' := by
  induction calls with
  | nil => rfl
  | cons call calls ih =>
    rcases call with (_ | _ | _ | _ | _) | _
    case push.pub record =>
      show ⟨record, ownRecords (calls ++ calls')⟩ :: segments (calls ++ calls') = _
      rw [ownRecords_append h, ih]
      rfl
    all_goals exact ih

/-- In the same way for the policies. The condition says that the second list of calls does not look
at the issuer it is started with. -/
theorem policies_append {calls calls' : List Call}
    (h : ∀ last, policies last calls' = policies none calls') (last : Option KeyId) :
    policies last (calls ++ calls') = policies last calls ++ policies none calls' := by
  induction calls generalizing last with
  | nil => exact h last
  | cons call calls ih =>
    rcases call with (_ | _ | _ | _ | _) | _
    case push.spk record =>
      rw [List.cons_append, policies, policies, ih, List.append_assoc]
    all_goals exact ih _

/-- A list of sections begins with a key, or it is at its end. Neither belongs to a key in front of
it. -/
theorem ownRecords_sectionCalls (sections : List Section) :
    ownRecords (sectionCalls sections) = [] := by
  cases sections <;> rfl

/-- A dump of sections declares what each of them declares. The issuer in front does not matter,
since a key resets it. -/
theorem policies_sectionCalls (sections : List Section) (last : Option KeyId) :
    policies last (sectionCalls sections) = sections.flatMap Section.policies := by
  induction sections generalizing last with
  | nil => rfl
  | cons s sections ih =>
    rw [sectionCalls_cons, policies_append (fun last => by rw [ih last, ih none]), ih,
      List.flatMap_cons]
    rfl

/-- The segments of sections are those of each of them, one per section. `Section.segment` depends
on nothing but the section. -/
theorem segments_sectionCalls (sections : List Section) :
    segments (sectionCalls sections) = sections.map Section.segment := by
  induction sections with
  | nil => rfl
  | cons s sections ih =>
    -- There is no other key in the section.
    have hrest : segments (s.rest.map .push) = [] := by
      rw [← List.map_eq_nil_iff, head_segments, List.filterMap_map, List.filterMap_eq_nil_iff]
      intro r hr
      cases r with
      | pub other => exact absurd rfl (s.not_pub_of_mem_rest hr other)
      | uid _ | sig _ | rev _ | spk _ => rfl
    rw [sectionCalls_cons, segments_append (ownRecords_sectionCalls sections), ih, List.map_cons]
    show (s.segment :: segments (s.rest.map .push)) ++ _ = _
    rw [hrest]
    rfl

/-! ### Runs over sections -/

/-- Two resolvers that answer alike. The keys and the policies that they have met may differ, as
these have no influence on what is answered. -/
structure Alike (r s : Resolver) : Prop where
  /-- Both decide on certifications by the same settings. -/
  settings : s.settings = r.settings
  /-- They are at the same key, with the same records. -/
  current : s.current = r.current
  /-- A policy would be ascribed to the same issuer. -/
  lastIssuer : s.lastIssuer = r.lastIssuer

variable {r r' s : Resolver} {call : Call} {calls calls' : List Call} {key : Option CommittedKey}
  {keys : List CommittedKey} {sections : List Section}

/-- Closing the current key gives the same key, and two resolvers that are alike again. Completing
reads the settings and the current key, and nothing else. -/
theorem Alike.commitCurrent (h : r.Alike s) :
    r.commitCurrent.1.Alike s.commitCurrent.1 ∧ s.commitCurrent.2 = r.commitCurrent.2 := by
  refine ⟨⟨?_, ?_, ?_⟩, ?_⟩
  · rw [settings_commitCurrent, settings_commitCurrent, h.settings]
  · rw [current_commitCurrent, current_commitCurrent]
  · rw [lastIssuer_commitCurrent, lastIssuer_commitCurrent, h.lastIssuer]
  · rw [key_commitCurrent, key_commitCurrent, h.settings, h.current]

/-- Resolvers that answer alike do so from then on. The cases are those of `Resolver.answer`, none
of which looks at what `Alike` leaves out. -/
theorem Alike.answer (h : r.Alike s) (hr : r.answer call = .ok (r', key)) :
    ∃ s', s.answer call = .ok (s', key) ∧ r'.Alike s' := by
  rcases call with (record | record | signature | revocation | record) | _
  case finish =>
    have hforgotten : { r with lastIssuer := none }.Alike { s with lastIssuer := none } :=
      ⟨h.settings, h.current, rfl⟩
    obtain ⟨halike, hkey⟩ := hforgotten.commitCurrent
    obtain ⟨rfl, rfl⟩ := Prod.mk.inj (Except.ok.inj hr)
    exact ⟨_, congrArg (fun key => Except.ok (_, key)) hkey, halike⟩
  case push.pub =>
    obtain ⟨halike, hkey⟩ := h.commitCurrent
    obtain ⟨rfl, rfl⟩ := Prod.mk.inj (Except.ok.inj hr)
    exact ⟨_, congrArg (fun key => Except.ok (_, key)) hkey, halike.settings, rfl, rfl⟩
  case push.uid =>
    obtain ⟨rfl, k, hk, rfl⟩ := push_uid_eq_ok.1 hr
    exact ⟨_, push_uid_eq_ok.2 ⟨rfl, k, h.current.trans hk, rfl⟩, h.settings, rfl, h.lastIssuer⟩
  case push.sig =>
    obtain ⟨rfl, k, k', hk, hcertify, rfl⟩ := push_sig_eq_ok.1 hr
    rw [← h.settings] at hcertify
    exact ⟨_, push_sig_eq_ok.2 ⟨rfl, k, k', h.current.trans hk, hcertify, rfl⟩, h.settings, rfl,
      rfl⟩
  case push.rev =>
    obtain ⟨rfl, k, k', hk, hrevoke, rfl⟩ := push_rev_eq_ok.1 hr
    exact ⟨_, push_rev_eq_ok.2 ⟨rfl, k, k', h.current.trans hk, hrevoke, rfl⟩, h.settings, rfl,
      h.lastIssuer⟩
  -- The tables of policies may differ, and are not compared.
  case push.spk =>
    obtain ⟨rfl, ⟨hkind, rfl⟩ | ⟨hkind, issuer, hissuer, rfl⟩⟩ := push_spk_eq_ok.1 hr
    · exact ⟨s, push_spk_eq_ok.2 ⟨rfl, .inl ⟨hkind, rfl⟩⟩, h⟩
    · exact ⟨_, push_spk_eq_ok.2 ⟨rfl, .inr ⟨hkind, issuer, h.lastIssuer.trans hissuer, rfl⟩⟩,
        h.settings, h.current, h.lastIssuer⟩

/-- A run that begins with a call which is answered is that answer and a run from there. -/
theorem answerAll_cons_eq_ok {r₁ : Resolver} (hanswer : r.answer call = .ok (r₁, key))
    (hrest : r₁.answerAll calls = .ok (r', keys)) :
    r.answerAll (call :: calls) = .ok (r', key.toList ++ keys) := by
  rw [Resolver.answerAll, hanswer, except_bind_ok]
  simp only [hrest]
  rfl

/-- What holds of one call holds of a run, by induction on the calls. Its step is `Alike.answer`. -/
theorem Alike.answerAll (h : r.Alike s) (hr : r.answerAll calls = .ok (r', keys)) :
    ∃ s', s.answerAll calls = .ok (s', keys) := by
  induction calls generalizing r s keys with
  | nil =>
    cases hr
    exact ⟨s, rfl⟩
  | cons call calls ih =>
    obtain ⟨r₁, key, keys₁, hanswer, hrest, rfl⟩ := answerAll_cons hr
    obtain ⟨s₁, hanswer, halike⟩ := h.answer hanswer
    obtain ⟨s', hrest⟩ := ih halike hrest
    exact ⟨s', answerAll_cons_eq_ok hanswer hrest⟩

/-- A run over calls and further ones is a run over the former and then one over the latter. The
keys that are returned are those of both. -/
theorem answerAll_append_eq_ok :
    r.answerAll (calls ++ calls') = .ok (r', keys) ↔ ∃ r₁ keys₁ keys₂,
      r.answerAll calls = .ok (r₁, keys₁) ∧ r₁.answerAll calls' = .ok (r', keys₂) ∧
        keys = keys₁ ++ keys₂ := by
  induction calls generalizing r keys with
  | nil =>
    constructor
    · intro h
      exact ⟨r, [], keys, rfl, h, rfl⟩
    · rintro ⟨_, _, _, hnil, h, rfl⟩
      cases hnil
      exact h
  | cons call calls ih =>
    constructor
    · intro h
      obtain ⟨r₁, key, _, hanswer, hrest, rfl⟩ := answerAll_cons h
      obtain ⟨r₂, keys₁, keys₂, h₁, h₂, rfl⟩ := ih.1 hrest
      exact ⟨r₂, _, keys₂, answerAll_cons_eq_ok hanswer h₁, h₂, (List.append_assoc _ _ _).symm⟩
    · rintro ⟨r₂, _, keys₂, h, h₂, rfl⟩
      obtain ⟨r₁, key, keys₁, hanswer, h₁, rfl⟩ := answerAll_cons h
      rw [List.append_assoc]
      exact answerAll_cons_eq_ok hanswer (ih.2 ⟨r₂, keys₁, keys₂, h₁, h₂, rfl⟩)

/-- A run does not change the settings. `Accepts` depends on them, so they have to stay the same
between two sections. -/
theorem settings_answerAll (h : r.answerAll calls = .ok (r', keys)) :
    r'.settings = r.settings := by
  induction calls generalizing r keys with
  | nil =>
    cases h
    rfl
  | cons call calls ih =>
    obtain ⟨r₁, key, keys₁, hanswer, hrest, -⟩ := answerAll_cons h
    rw [ih hrest, (answered hanswer).settings]

/-- A further key is always taken, and then the settings decide how its records are. So what came in
front of a key decides neither whether its records are taken nor how. -/
theorem answer_pub (r : Resolver) (record : PubRecord) :
    ∃ r' key, r.answer (.push (.pub record)) = .ok (r', key) ∧ r'.settings = r.settings ∧
      r'.current = some { record } ∧ r'.lastIssuer = none :=
  ⟨_, _, rfl, settings_commitCurrent r, rfl, rfl⟩

/-- Whether a resolver that has met nothing takes the records of a section. The calls are those of
`Section.calls`, without an end behind them. -/
def Accepts (settings : ResolutionSettings) (lines : Section) : Prop :=
  ∃ r keys, ({ settings } : Resolver).answerAll lines.calls = .ok (r, keys)

/-- So does one that has met other keys, by `answer_pub` and `Alike.answerAll`. -/
theorem accepts_iff {lines : Section} :
    Accepts r.settings lines ↔ ∃ r' keys, r.answerAll lines.calls = .ok (r', keys) := by
  have transfer : ∀ {r s r' : Resolver} {keys : List CommittedKey},
      r.answerAll lines.calls = .ok (r', keys) → s.settings = r.settings →
      ∃ s' keys, s.answerAll lines.calls = .ok (s', keys) := by
    intro r s r' keys hr hsettings
    obtain ⟨r₁, key, keys₁, hanswer, hrest, -⟩ := answerAll_cons hr
    obtain ⟨r₂, key', hr₂, hrs, hrc, hri⟩ := answer_pub r lines.record
    obtain ⟨s₂, skey, hs₂, hss, hsc, hsi⟩ := answer_pub s lines.record
    obtain ⟨rfl, -⟩ := Prod.mk.inj (Except.ok.inj (hanswer.symm.trans hr₂))
    -- Behind the first record, both answer alike.
    have halike : r₁.Alike s₂ :=
      ⟨by rw [hss, hrs, hsettings], by rw [hsc, hrc], by rw [hsi, hri]⟩
    obtain ⟨s', hs⟩ := halike.answerAll hrest
    exact ⟨s', _, answerAll_cons_eq_ok hs₂ hs⟩
  constructor
  · rintro ⟨_, _, h⟩
    exact transfer h rfl
  · rintro ⟨_, _, h⟩
    exact transfer h rfl

/-- A run over sections succeeds if each of them is taken, in whichever order they come. The right
side does not mention an order. -/
theorem answerAll_sections_iff :
    (∃ r' keys, r.answerAll (sectionCalls sections) = .ok (r', keys)) ↔
      ∀ s ∈ sections, Accepts r.settings s := by
  induction sections generalizing r with
  | nil => exact iff_of_true ⟨_, _, rfl⟩ (by simp)
  | cons s sections ih =>
    rw [sectionCalls_cons, List.forall_mem_cons, accepts_iff]
    simp only [answerAll_append_eq_ok]
    constructor
    · rintro ⟨r', _, r₁, keys₁, keys₂, h₁, h₂, rfl⟩
      refine ⟨⟨r₁, keys₁, h₁⟩, ?_⟩
      -- The settings are the same behind a section, and it is judged by them alone.
      rw [← settings_answerAll h₁]
      exact ih.1 ⟨r', keys₂, h₂⟩
    · rintro ⟨⟨r₁, keys₁, h₁⟩, hrest⟩
      rw [← settings_answerAll h₁] at hrest
      obtain ⟨r', keys₂, h₂⟩ := ih.2 hrest
      exact ⟨r', _, r₁, keys₁, keys₂, h₁, h₂, rfl⟩

end Resolver

/-! ### The first pass -/

variable {settings : ResolutionSettings} {dump dump' : Source} {sections sections' : List Section}
  {first : FirstPass}

/-- The first pass over a dump that comprises sections succeeds if the lines can be read and each
section is taken. -/
theorem resolve_sections_iff (h : Comprises dump sections) :
    (∃ first, (resolve settings dump {}).result = .ok first) ↔
      Readable dump ∧ ∀ s ∈ sections, Accepts settings s := by
  rw [← records_eq_ok_iff]
  constructor
  · rintro ⟨first, hfirst⟩
    obtain ⟨items, r, keys, hitems, hrun, -, -⟩ := run_eq_ok hfirst
    rw [h.passCalls_eq hitems] at hrun
    exact ⟨⟨items, hitems⟩, answerAll_sections_iff.1 ⟨r, keys, hrun⟩⟩
  · -- A first pass with sinks that do not fail can only be stopped by the records.
    rintro ⟨⟨items, hitems⟩, haccepts⟩
    obtain ⟨r, keys, hrun⟩ :=
      (answerAll_sections_iff (r := { settings })).2 haccepts
    rw [← h.passCalls_eq hitems] at hrun
    rw [resolve, hitems]
    exact run_accepts Artifacts.faultless_empty hrun

/-- What a first pass over sections comes to, if it succeeds: `keys` are the keys of the sections,
in their order. It restates `Resolved` with sections in place of calls. -/
structure SectionsResolved (settings : ResolutionSettings) (sections : List Section)
    (first : FirstPass) (keys : List CommittedKey) : Prop where
  /-- Each section is settled on its own. -/
  committed : sections.map (fun s => s.segment.commit settings) = keys.map .ok
  /-- The interesting ids are those of the interesting keys. -/
  interesting : ∀ id, id ∈ first.interesting ↔
    ∃ k ∈ keys, k.isInteresting = true ∧ k.keyId = id
  /-- The table has the policies of the sections, one section after the other. -/
  policyUris : first.policyUris = (sections.flatMap Section.policies).foldl PolicyUriTable.add ∅
  /-- Each section counts as a key. -/
  keyCount : first.keys = keys.length
  /-- The blocks that are counted are those of the keys. -/
  edgeBlocks : first.edgeBlocks = (edgeBlocks keys).length

/-- A first pass over a dump that comprises sections comes to what `SectionsResolved` says. -/
theorem Resolved.sectionsResolved {items : List (Nat × Record)} {out raw : Artifacts}
    {keys : List CommittedKey} (h : Resolved settings items first raw keys)
    (hitems : records dump = items.map .ok) (hdump : Comprises dump sections)
    (hfirst : (resolve settings dump out).result = .ok first) :
    SectionsResolved settings sections first keys := by
  obtain ⟨hcount, hblocks⟩ := h.counts hitems hfirst
  have hcommitted := h.committed
  have hpolicies := policyUris_resolve hitems hfirst
  rw [hdump.passCalls_eq hitems, segments_sectionCalls, except_mapM_eq_ok, List.map_map]
    at hcommitted
  rw [hdump.passCalls_eq hitems, policies_sectionCalls] at hpolicies
  exact ⟨hcommitted, h.interesting, hpolicies, hcount, hblocks⟩

end WebOfTrust
