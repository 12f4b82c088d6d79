import WebOfTrust.Proofs.Text.Utf8
import WebOfTrust.Stream

/-!
# `WebOfTrust.Proofs.Lines`: lines on their way through a stream

A pass writes lines, each with a line feed behind it, and a reader takes the bytes apart at the line
feeds. `Text.unlines` is what the writer leaves.

- `textLines_unlines`: lines without a line feed, and without a carriage return at their end, are
  delivered as they were written;
- `lineFeed_not_mem_of_textLines`: no delivered line has a line feed, whatever the source is.
-/

set_option autoImplicit false

namespace WebOfTrust

open Text

/-- The lines, each with a line feed behind it. Tables and corpora are written so: what `render`
gives for a line has no end of its own. -/
def Text.unlines (lines : List String) : String :=
  String.join (lines.map (· ++ "\n"))

/-- A text without lines is empty. -/
@[simp] theorem unlines_nil : unlines [] = "" := rfl

/-- The first line stands first, with its line feed, and the other lines follow as they would
alone. -/
@[simp] theorem unlines_cons (l : String) (ls : List String) :
    unlines (l :: ls) = l ++ "\n" ++ unlines ls := by
  simp [unlines]

/-- Lines that are written one behind the other are one text. Passes write line by line, and by this
what they have written is told by all lines together. -/
theorem unlines_append (ls ms : List String) : unlines (ls ++ ms) = unlines ls ++ unlines ms := by
  simp [unlines]

/-- The line feed is encoded as the byte at which the reader takes the bytes apart, so `splitLines`
finds the end of the first line where `unlines` has put it. -/
theorem encode_unlines_cons (l : String) (ls : List String) :
    Utf8.encode (unlines (l :: ls)).toList
      = Utf8.encode l.toList ++ lineFeed :: Utf8.encode (unlines ls).toList := by
  simp [show Utf8.encodeChar '\n' = [lineFeed] by decide]

/-- The bytes of a text, line by line. A long text is slow to take apart into its characters, its
lines are not, so concrete runs of a reader are evaluated on this form. -/
theorem Source.ofString_unlines (ls : List String) : Source.ofString (unlines ls)
    = ⟨ls.flatMap fun l => Utf8.encode l.toList ++ [lineFeed], none⟩ := by
  rw [Source.ofString]
  congr 1
  induction ls with
  | nil => rfl
  | cons l ls ih => rw [encode_unlines_cons, ih, List.flatMap_cons, List.append_cons]

/-! ### Lines of bytes -/

/-- The line feed has its own byte, and that byte is part of no other character: the bytes of longer
characters in `Utf8.encode` are all above 127. -/
theorem lineFeed_not_mem_encode {cs : List Char} (h : '\n' ∉ cs) :
    lineFeed ∉ Utf8.encode cs := by
  intro hb
  obtain ⟨c, hc, hb⟩ := List.mem_flatMap.1 hb
  have hnat : lineFeed.toNat = c.toNat := Utf8.toNat_of_mem_encodeChar hb (by decide)
  have hline : c = '\n' := Char.toNat_inj.1 hnat.symm
  exact h (hline ▸ hc)

/-- Bytes up to the first line feed are a line, with the line feed at its end, and the rest is taken
apart as it would be alone. The induction is on the bytes of the line. -/
theorem splitLines_append_lineFeed {line : List UInt8} (h : lineFeed ∉ line) (rest : List UInt8) :
    splitLines (line ++ lineFeed :: rest) = (line ++ [lineFeed]) :: splitLines rest := by
  induction line with
  | nil => simp [splitLines]
  | cons b line ih =>
    have hb : b ≠ lineFeed := fun e => h (e ▸ List.mem_cons_self)
    have ih := ih fun m => h (List.mem_cons_of_mem _ m)
    simp only [List.cons_append, splitLines, if_neg hb, ih]

/-- A line of bytes has no line feed but the one that ends it, and only the last line can be without
one. The induction is on the bytes, since a line grows at its front. -/
theorem lineFeed_of_mem_splitLines {bytes line : List UInt8} (h : line ∈ splitLines bytes) :
    lineFeed ∉ line ∨ ∃ body, line = body ++ [lineFeed] ∧ lineFeed ∉ body := by
  induction bytes generalizing line with
  | nil => cases h
  | cons b bytes ih =>
    simp only [splitLines] at h
    -- A byte that is no line feed is put in front of the first line of the rest, if there is one.
    split at h
    · next hb =>
      rcases List.mem_cons.1 h with rfl | h
      · exact .inr ⟨[], by simp [hb], by simp⟩
      · exact ih h
    next hb =>
    split at h
    · rw [List.mem_singleton.1 h]
      exact .inl (by simpa using Ne.symm hb)
    next first rest hs =>
    rw [hs] at ih
    rcases List.mem_cons.1 h with rfl | h
    · have hb : lineFeed ≠ b := Ne.symm hb
      rcases ih List.mem_cons_self with hfirst | ⟨body, rfl, hbody⟩
      · exact .inl (by simp [hb, hfirst])
      · exact .inr ⟨b :: body, by simp, by simp [hb, hbody]⟩
    · exact ih (List.mem_cons_of_mem _ h)

/-! ### Lines of text -/

/-- What was written before a line feed comes back, unless it ends with a carriage return:
`dropLineEnd` takes that for a part of the line end. -/
theorem dropLineEnd_append {cs : List Char} (hr : cs.getLast? ≠ some '\r') (hn : '\n' ∉ cs) :
    dropLineEnd (cs ++ ['\n']) = cs := by
  fun_induction dropLineEnd cs with
  | case1 => rfl
  | case2 => simp at hn
  | case3 => simp at hn
  | case4 c cs _ _ ih =>
    cases cs with
    | nil =>
      have hc : c ≠ '\r' := fun e => hr (by simp [e])
      have hc' : c ≠ '\n' := fun e => hn (by simp [e])
      simp [dropLineEnd, hc]
    | cons d ds =>
      -- What is dropped is behind `d`, so `c` is no part of it.
      have hr : (d :: ds).getLast? ≠ some '\r' := by simpa using hr
      have ih := ih hr fun m => hn (List.mem_cons_of_mem _ m)
      rw [List.cons_append, dropLineEnd.eq_def]
      simp_all

/-- To drop a line end adds no character, so what holds of all characters of a line holds of those
that are left. -/
theorem mem_of_mem_dropLineEnd {cs : List Char} {c : Char} (h : c ∈ dropLineEnd cs) : c ∈ cs := by
  fun_induction dropLineEnd cs with
  | case1 => cases h
  | case2 => cases h
  | case3 => cases h
  | case4 d cs _ _ ih =>
    rcases List.mem_cons.1 h with rfl | h
    · exact List.mem_cons_self
    · exact List.mem_cons_of_mem _ (ih h)

/-- What makes a line come back as it was written: it has no line feed, and it does not end with a
carriage return. Both are needed, as `dropLineEnd` shows. -/
def Text.IsLine (l : String) : Prop :=
  '\n' ∉ l.toList ∧ l.toList.getLast? ≠ some '\r'

/-- Lines are delivered as they were written. Everything that reads a table or a corpus back starts
with this lemma, and goes on with texts instead of bytes. -/
theorem textLines_unlines {ls : List String} (h : ∀ l ∈ ls, IsLine l) :
    (Source.ofString (unlines ls)).textLines = ls.map .ok := by
  simp only [Source.textLines, Source.deliveries, Source.ofString, List.map_map]
  induction ls with
  | nil => rfl
  | cons l ls ih =>
    obtain ⟨hn, hr⟩ := h l List.mem_cons_self
    have ih := ih fun l' hl' => h l' (List.mem_cons_of_mem _ hl')
    -- A line is cut with its line feed, which is decoded with it and then dropped.
    have hline : Utf8.encode l.toList ++ [lineFeed] = Utf8.encode (l.toList ++ ['\n']) := by
      simp [show Utf8.encodeChar '\n' = [lineFeed] by decide]
    rw [encode_unlines_cons, splitLines_append_lineFeed (lineFeed_not_mem_encode hn), List.map_cons,
      ih]
    simp only [Function.comp_apply, Delivery.text, hline, Utf8.decodeStrict_encode,
      dropLineEnd_append hr hn, String.ofList_toList, List.map_cons]

/-- The characters of a line of bytes, up to its line feed, hold no line feed: by
`Utf8.ascii_mem_of_mem_decodeFrom` a character of one byte comes from that byte only. -/
theorem lineFeed_not_mem_decode {bytes : List UInt8} (h : lineFeed ∉ bytes) :
    some '\n' ∉ Utf8.decode bytes := fun hmem =>
  h (Utf8.ascii_mem_of_mem_decodeFrom (by decide) (by decide) none bytes (by simp) hmem)

/-- A line feed behind bytes is decoded as itself, also if these end in the middle of a
character. -/
theorem decode_concat_lineFeed (bytes : List UInt8) :
    Utf8.decode (bytes ++ [lineFeed]) = Utf8.decode bytes ++ [some '\n'] :=
  Utf8.decodeFrom_concat_ascii (by decide) none bytes (by simp)

/-- Where no byte is refused, `Utf8.decode` gives the same characters, none of them missing. Lemmas
about `decode` are carried over to lines of text in this way. -/
theorem eq_map_of_decodeStrict {bytes : List UInt8} {cs : List Char}
    (h : Utf8.decodeStrict bytes = some cs) : Utf8.decode bytes = cs.map some := by
  rw [Utf8.decodeStrict] at h
  generalize Utf8.decode bytes = os at h
  induction os generalizing cs with
  | nil => simp_all
  | cons o os ih =>
    simp only [List.mapM_cons, id_eq, Option.pure_def, Option.bind_eq_bind,
      Option.bind_eq_some_iff, Option.some.injEq] at h
    obtain ⟨c, rfl, ds, hds, rfl⟩ := h
    simp [ih hds]

/-- Behind `dropLineEnd` there is no line feed left, if the one at the end was the only one. -/
theorem lineFeed_not_mem_dropLineEnd {cs : List Char} (h : '\n' ∉ cs) :
    '\n' ∉ dropLineEnd (cs ++ ['\n']) := by
  induction cs with
  | nil => simp [dropLineEnd]
  | cons c cs ih =>
    simp only [List.mem_cons, not_or] at h
    -- What stands before the line feed decides: a carriage return goes with it.
    cases cs with
    | nil =>
      by_cases hc : c = '\r'
      · simp [dropLineEnd, hc]
      · simp [dropLineEnd, hc, h.1]
    | cons d ds =>
      have ih := ih h.2
      rw [List.cons_append, dropLineEnd.eq_def]
      simp_all

/-- A line that is delivered is one of the lines of the bytes. A source that fails keeps back the
line that was not complete, and no other. -/
theorem mem_splitLines_of_mem_deliveries {source : Source} {bytes : List UInt8}
    (h : .line bytes ∈ source.deliveries) : bytes ∈ splitLines source.bytes := by
  simp only [Source.deliveries] at h
  split at h
  · obtain ⟨bytes', hb, heq⟩ := List.mem_map.1 h
    exact Delivery.line.inj heq ▸ hb
  · rcases List.mem_append.1 h with h | h
    · obtain ⟨bytes', hb, heq⟩ := List.mem_map.1 h
      exact Delivery.line.inj heq ▸ (List.mem_filter.1 hb).1
    · exact Delivery.noConfusion (List.mem_singleton.1 h)

/-- No delivered line has a line feed, whether or not it ended with one. By this the texts of a
table that was read are texts that can be written. -/
theorem lineFeed_not_mem_of_textLines {source : Source} {l : String}
    (h : .ok l ∈ source.textLines) : '\n' ∉ l.toList := by
  obtain ⟨d, hd, hl⟩ := List.mem_map.1 h
  cases d with
  | failure e => cases hl
  | line bytes =>
    simp only [Delivery.text] at hl
    split at hl
    · next cs hcs =>
      have hmap := eq_map_of_decodeStrict hcs
      rw [← Except.ok.inj hl, String.toList_ofList]
      rcases lineFeed_of_mem_splitLines (mem_splitLines_of_mem_deliveries hd) with
        hnone | ⟨body, rfl, hbody⟩
      · intro hmem
        apply lineFeed_not_mem_decode hnone
        rw [hmap]
        exact List.mem_map_of_mem (mem_of_mem_dropLineEnd hmem)
      · -- The line feed at the end is the only one, and it is dropped.
        rw [decode_concat_lineFeed] at hmap
        obtain ⟨ds, es, rfl, hds, hes⟩ := List.map_eq_append_iff.1 hmap.symm
        obtain rfl : es = ['\n'] := by simpa using hes
        apply lineFeed_not_mem_dropLineEnd
        intro hmem
        apply lineFeed_not_mem_decode hbody
        rw [← hds]
        exact List.mem_map_of_mem hmem
    · cases hl

end WebOfTrust
