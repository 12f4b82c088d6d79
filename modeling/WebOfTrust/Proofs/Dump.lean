import WebOfTrust.Dump.Record
import WebOfTrust.Proofs.Corpus

/-!
# `WebOfTrust.Proofs.Dump`: what every record of a dump has

A record is one line of its dump, so none of its texts spreads over two. Its algorithms are given by
number. Both hold for every dump, whatever its bytes are, and both are what the artifacts rely on,
into which the texts go as they are.

- `Dump.plain_of_mem_records`: the records of a dump are plain.
-/

set_option autoImplicit false

namespace WebOfTrust

open Text

/-- The texts of a signature are on one line, and its algorithms are known under their numbers.
Nothing is said of semicolons, since a dump has its fields between colons. -/
structure Signature.Plain (s : Signature) : Prop extends s.OnOneLine where
  algorithm : PublicKeyAlgorithm.ofByte s.algorithm.toByte = s.algorithm
  hash : HashAlgorithm.ofByte s.hash.toByte = s.hash

namespace Dump

/-- The same of a key: its dates are on one line, and its algorithm is known under its number. -/
structure PubRecord.Plain (r : PubRecord) : Prop where
  created : '\n' ∉ r.created.toList
  expires : '\n' ∉ r.expires.toList
  algorithm : PublicKeyAlgorithm.ofByte r.algorithm.toByte = r.algorithm

/-- The same of a record; only keys and certifications are written to artifacts, so nothing is asked
of the others. -/
def Record.Plain : Record → Prop
  | .pub r => r.Plain
  | .sig s => s.Plain
  | .uid _ | .rev _ | .spk _ => True

namespace Fields

/-- A field that is looked up is one of the fields of the line. What no field has, no part of a
record has. -/
theorem mem_of_get {f : Fields} {index : Nat} {text : String} (h : f.get index = .ok text) :
    text ∈ f.texts := by
  simp only [get] at h
  split at h
  · next t ht =>
    rw [← Except.ok.inj h]
    exact List.mem_of_getElem? ht
  · cases h

end Fields

/-- A key is plain if the fields of its line are without line feeds, whatever else is in them. -/
theorem plain_of_parsePub {f : Fields} {r : PubRecord} (hf : ∀ t ∈ f.texts, '\n' ∉ t.toList)
    (h : parsePub f = .ok r) : r.Plain := by
  simp only [parsePub, except_bind_eq_ok, except_map_eq_ok, except_pure_eq_ok] at h
  obtain ⟨_, -, _, -, _, ⟨b, -, rfl⟩, _, -, created, hc, expires, he, _, -, rfl⟩ := h
  exact ⟨hf _ (Fields.mem_of_get hc), hf _ (Fields.mem_of_get he),
    by rw [PublicKeyAlgorithm.toByte_ofByte]⟩

/-- A certification is plain under the same condition. Its algorithms come from bytes, so they are
known under these. -/
theorem plain_of_parseSig {f : Fields} {s : Signature} (hf : ∀ t ∈ f.texts, '\n' ∉ t.toList)
    (h : parseSig f = .ok s) : s.Plain := by
  simp only [parseSig, except_bind_eq_ok, except_map_eq_ok, except_pure_eq_ok] at h
  obtain ⟨_, -, date, hd, expires, he, _, -, flags, hfl, _, -, _, ⟨a, -, rfl⟩, _, ⟨b, -, rfl⟩,
    rfl⟩ := h
  exact
    { date := hf _ (Fields.mem_of_get hd)
      expires := hf _ (Fields.mem_of_get he)
      flags := hf _ (Fields.mem_of_get hfl)
      algorithm := by rw [PublicKeyAlgorithm.toByte_ofByte]
      hash := by rw [HashAlgorithm.toByte_ofByte] }

/-- A line without its ending, that is without all carriage returns and line feeds at its end. In
contrast to `dropLineEnd` it takes more than one. -/
def lineBody (line : String) : List Char :=
  trimEndWhere (fun c => c = '\r' || c = '\n') line.toList

/-- The record of a line without inner line feeds is plain. The reader of records tells the kinds
apart by the first field, and so does the proof. -/
theorem plain_of_parseLine {line : String} {r : Record} (hline : '\n' ∉ lineBody line)
    (h : parseLine line = .ok (some r)) : r.Plain := by
  have hfields : ∀ t ∈ (splitOn ':' (lineBody line)).map String.ofList, '\n' ∉ t.toList :=
    fun t ht hn => hline ((field_of_splitOn ht).2 _ hn)
  simp only [parseLine] at h
  rw [lineBody] at hfields
  generalize (splitOn ':' (trimEndWhere (fun c => c = '\r' || c = '\n') line.toList)).map
    String.ofList = texts at h hfields
  -- One case for each kind of record, in the order of the reader.
  split at h
  · obtain ⟨p, hp, hr⟩ := except_map_eq_ok.1 h
    rw [← Option.some.inj hr]
    exact plain_of_parsePub hfields hp
  · rw [← Option.some.inj (Except.ok.inj h)]
    trivial
  · obtain ⟨s, hs, hr⟩ := except_map_eq_ok.1 h
    rw [← Option.some.inj hr]
    exact plain_of_parseSig hfields hs
  · obtain ⟨_, -, hr⟩ := except_map_eq_ok.1 h
    rw [← Option.some.inj hr]
    trivial
  · obtain ⟨_, -, hr⟩ := except_map_eq_ok.1 h
    rw [← Option.some.inj hr]
    trivial
  · cases h

/-! ### Lines of a dump -/

/-- Where bytes are replaced, no line feed is made: the character that stands for what cannot be
read is another one. -/
theorem lineFeed_not_mem_decodeReplacing {bytes : List UInt8} (h : lineFeed ∉ bytes) :
    '\n' ∉ Utf8.decodeReplacing bytes := by
  intro hmem
  obtain ⟨o, ho, hn⟩ := List.mem_map.1 hmem
  cases o with
  | none => cases hn
  | some c =>
    have hc : c = '\n' := hn
    exact lineFeed_not_mem_decode h (hc ▸ ho)

/-- A line feed behind bytes is decoded as itself, also behind bytes that have to be replaced. -/
theorem decodeReplacing_concat_lineFeed (bytes : List UInt8) :
    Utf8.decodeReplacing (bytes ++ [lineFeed]) = Utf8.decodeReplacing bytes ++ ['\n'] := by
  simp [Utf8.decodeReplacing, decode_concat_lineFeed]

/-- The line feed of a line is taken away before its fields are looked at. It is the only one,
because the bytes were taken apart at line feeds. -/
theorem lineFeed_not_mem_lineBody {bytes all : List UInt8} (h : bytes ∈ splitLines all) :
    '\n' ∉ lineBody (String.ofList (Utf8.decodeReplacing bytes)) := by
  rw [lineBody, String.toList_ofList]
  rcases lineFeed_of_mem_splitLines h with hnone | ⟨body, rfl, hbody⟩
  · exact fun hmem => lineFeed_not_mem_decodeReplacing hnone (mem_of_mem_trimEndWhere hmem)
  · -- The one at the end is decoded as what it is, and it is taken away.
    rw [decodeReplacing_concat_lineFeed, trimEndWhere_append_of_all _ (by decide)]
    exact fun hmem => lineFeed_not_mem_decodeReplacing hbody (mem_of_mem_trimEndWhere hmem)

/-- A record comes from the line whose number it has. Bytes that are no text are replaced before the
line is read, so every line is read as some text. -/
theorem exists_line_of_mem_itemsFrom {count n : Nat} {r : Record} {ds : List Delivery}
    (h : .ok (n, r) ∈ itemsFrom count ds) :
    ∃ bytes, .line bytes ∈ ds ∧
      parseLine (String.ofList (Utf8.decodeReplacing bytes)) = .ok (some r) := by
  -- A record of a later line is there as well if another line stands in front.
  have later : ∀ {d : Delivery} {rest : List Delivery},
      (∃ bytes, .line bytes ∈ rest ∧
        parseLine (String.ofList (Utf8.decodeReplacing bytes)) = .ok (some r)) →
      ∃ bytes, .line bytes ∈ d :: rest ∧
        parseLine (String.ofList (Utf8.decodeReplacing bytes)) = .ok (some r) :=
    fun ⟨bytes, hb, hr⟩ => ⟨bytes, List.mem_cons_of_mem _ hb, hr⟩
  fun_induction itemsFrom count ds with
  | case1 => cases h
  | case2 count e rest ih =>
    rcases List.mem_cons.1 h with h | h
    · cases h
    · exact later (ih h)
  | case3 count bytes rest hline ih => exact later (ih h)
  | case4 count bytes rest r' hline ih =>
    rcases List.mem_cons.1 h with h | h
    · obtain ⟨-, rfl⟩ := Prod.mk.inj (Except.ok.inj h)
      exact ⟨bytes, List.mem_cons_self, hline⟩
    · exact later (ih h)
  | case5 count bytes rest cause hline ih =>
    rcases List.mem_cons.1 h with h | h
    · cases h
    · exact later (ih h)

/-- The records of a dump are plain, whatever bytes the dump has. So nothing that the first pass
writes is torn apart at a line feed. -/
theorem plain_of_mem_records {dump : Source} {n : Nat} {r : Record}
    (h : .ok (n, r) ∈ records dump) : r.Plain := by
  obtain ⟨bytes, hb, hr⟩ := exists_line_of_mem_itemsFrom h
  exact plain_of_parseLine (lineFeed_not_mem_lineBody (mem_splitLines_of_mem_deliveries hb)) hr

end Dump

end WebOfTrust
