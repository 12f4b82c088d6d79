import WebOfTrust.Proofs.Dump.Lines
import WebOfTrust.Proofs.TrustGain

/-!
# `WebOfTrust.Proofs.Insertion`: a further certification takes no trust

Whoever can append to a dump can add certifications to it, but cannot take trust from anybody that
way. Where the line of a certification is inserted is of no account, as long as the passes accept it
there: the keys of the dump are the same, and one of them has a further certification.

- `Dump.Inserts`: a dump with a further line;
- `Resolver.segments_insert`: the segments before and behind an insertion;
- `inserted_certification_gains_trust`: both passes.
-/

set_option autoImplicit false

namespace WebOfTrust

open Dump Resolver Text

/-! ### Lines that are inserted -/

namespace Dump

/-- `dump'` is `dump` with a line inserted that holds the certification `s`. Nothing is said of the
place, which need not be among the lines of a user id. -/
def Inserts (dump dump' : Source) (s : Signature) : Prop :=
  ∃ before line behind, dump.bareLines = before ++ behind ∧
    dump'.bareLines = before ++ line :: behind ∧ readLine line = .ok (some (.sig s))

end Dump

/-! ### Segments -/

namespace Resolver

/-- The records of a key with a certification inserted into the calls: either it is among them, or
it belongs to a later key and they are the same. -/
theorem ownRecords_insert (before behind : List Call) (s : Signature) :
    MoreCertified (ownRecords (before ++ behind))
      (ownRecords (before ++ .push (.sig s) :: behind)) := by
  induction before with
  | nil => exact .certified s (.refl _)
  | cons call before ih =>
    rcases call with (_ | _ | _ | _ | _) | _
    -- Behind the end of the segment, an insertion is one in another segment.
    case push.pub => exact .nil
    case finish => exact .nil
    case push.spk => exact ih
    all_goals exact .cons _ ih

/-- A certification that is inserted is one more in the segment that it falls into. All other
segments are the same, which `MoreCertified` allows. -/
theorem segments_insert (before behind : List Call) (s : Signature) :
    List.Forall₂ Segment.MoreCertified (segments (before ++ behind))
      (segments (before ++ .push (.sig s) :: behind)) := by
  induction before with
  | nil => exact List.forall₂_same.2 fun s _ => ⟨rfl, .refl s.body⟩
  | cons call before ih =>
    rcases call with (_ | _ | _ | _ | _) | _
    -- Only a key begins a segment; the insertion may fall into it or behind it.
    case push.pub => exact .cons ⟨rfl, ownRecords_insert before behind s⟩ ih
    all_goals exact ih

end Resolver

/-! ### Both passes -/

/-- A certification that is inserted takes no trust from any key. The position is right for it, or
the passes would not accept it. -/
theorem inserted_certification_gains_trust {settings : ResolutionSettings} {dump dump' : Source}
    {s : Signature} {p p' : Resolution} (hinserts : Inserts dump dump' s)
    (hpasses : bothPasses settings dump = .ok p)
    (hpasses' : bothPasses settings dump' = .ok p') :
    TrustGained (Dump.keyIds dump) p p' := by
  refine trustGained_of_segments (.refl settings) hpasses hpasses'
    fun items items' hitems hitems' => ?_
  obtain ⟨before, line, behind, hlines, hlines', hline⟩ := hinserts
  have hrecord : lineRecord? line = some (.sig s) := by
    rw [lineRecord?, hline]
  rw [passCalls_eq, passCalls_eq, map_snd_of_records hitems, map_snd_of_records hitems', hlines,
    hlines', List.filterMap_append, List.filterMap_append, List.filterMap_cons, hrecord]
  simp only [List.map_append, List.map_cons, List.append_assoc, List.cons_append]
  exact segments_insert _ _ s

/-- A dump of two keys, of which the first one is certified by the second one if `certified` are
the lines that say so. -/
def twoKeyDump (certified : List String) : Source := .ofString (unlines (
  ["pub::1024:17:AA:2001-01-01::4:", "uid:-::::::::Alice:", "sig:AA:2001-01-01::13::4:17:2"] ++
    certified ++
  ["pub::1024:17:BB:2001-01-01::4:", "uid:-::::::::Bob:", "sig:BB:2001-01-01::13::4:17:2",
    "sig:AA:2001-01-02::13::4:17:2"]))

/-- Two keys become trusted by the certification that the first one lacked. Before, neither of them
had an interesting issuer. -/
theorem inserted_certification_gains_trust_twoKeyDump :
    ∃ s p p', Inserts (twoKeyDump []) (twoKeyDump ["sig:BB:2001-01-02::13::4:17:2"]) s ∧
      bothPasses {} (twoKeyDump []) = .ok p ∧ p.counts.certified = 0 ∧
      bothPasses {} (twoKeyDump ["sig:BB:2001-01-02::13::4:17:2"]) = .ok p' ∧
      p'.counts.certified = 2 ∧ TrustGained (Dump.keyIds (twoKeyDump [])) p p' := by
  -- The line stands behind the first three.
  have hinserts : Inserts (twoKeyDump []) (twoKeyDump ["sig:BB:2001-01-02::13::4:17:2"])
      ⟨⟨"BB", by decide⟩, "2001-01-02", "", "", .positive, .dsa, .sha1, 4⟩ :=
    ⟨(twoKeyDump []).bareLines.take 3, Utf8.encode "sig:BB:2001-01-02::13::4:17:2".toList,
      (twoKeyDump []).bareLines.drop 3, (List.take_append_drop 3 _).symm, by decide +kernel,
      by decide +kernel⟩
  have hcount : ((bothPasses {} (twoKeyDump [])).toOption.map fun p => p.counts.certified)
      = some 0 := by decide +kernel
  have hcount' : ((bothPasses {} (twoKeyDump ["sig:BB:2001-01-02::13::4:17:2"])).toOption.map
      fun p => p.counts.certified) = some 2 := by decide +kernel
  obtain ⟨p, hp, hcount⟩ := exists_resolution _ hcount
  obtain ⟨p', hp', hcount'⟩ := exists_resolution _ hcount'
  exact ⟨_, p, p', hinserts, hp, hcount, hp', hcount',
    inserted_certification_gains_trust hinserts hp hp'⟩

/-- An expired key with a user id, and the lines of the certifications of that user id. -/
def oneExpiredKeyDump (certifications : List String) : Source := .ofString (unlines (
  ["pub:e:1024:17:AA:2001-01-01::4:", "uid:-::::::::Alice:"] ++ certifications))

/-- The line of this key does not stay the same: with a certification by its owner, its user id is
valid. The status is still `E`, as that comes from the flags of the key. -/
theorem expired_line_of_inserted_certification :
    (∃ s, Inserts (oneExpiredKeyDump []) (oneExpiredKeyDump ["sig:AA:2001-01-01::13::4:17:2"]) s) ∧
      ((bothPasses {} (oneExpiredKeyDump [])).toOption.map fun p => p.final.status.text)
        = some "E;AA;17;1024;2001-01-01;;4;0\n" ∧
      ((bothPasses {} (oneExpiredKeyDump ["sig:AA:2001-01-01::13::4:17:2"])).toOption.map
        fun p => p.final.status.text) = some "E;AA;17;1024;2001-01-01;;4;1\n" := by
  refine ⟨⟨⟨⟨"AA", by decide⟩, "2001-01-01", "", "", .positive, .dsa, .sha1, 4⟩,
    (oneExpiredKeyDump []).bareLines, Utf8.encode "sig:AA:2001-01-01::13::4:17:2".toList, [], ?_,
    ?_, ?_⟩, ?_, ?_⟩
  · rw [List.append_nil]
  · decide +kernel
  · decide +kernel
  · decide +kernel
  · decide +kernel

end WebOfTrust
