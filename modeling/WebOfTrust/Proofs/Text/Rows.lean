import WebOfTrust.Proofs.Lines
import WebOfTrust.Proofs.Text.Fields
import WebOfTrust.Text.Blank

/-!
# `WebOfTrust.Proofs.Text.Rows`: the lines of a text, without the blanks behind them

A text is cut at its line feeds, and each piece is taken without the blanks at its end: these are
its rows. A reader delivers the same pieces, one by one, and takes off line ends and blanks. It
differs only behind the last line feed, where an empty piece is not delivered.

- `rowsOf_unlines`: the rows of lines;
- `textLines_ofString`: what a reader delivers of a text.
-/

set_option autoImplicit false

namespace WebOfTrust

open Text

namespace Text

/-- The rows of a text: what stands between its line feeds, without the blanks behind it. A row is
what a reader of a corpus looks at, whether or not the text ends with a line feed. -/
def rowsOf (text : String) : List (List Char) := (splitOn '\n' text.toList).map trimEnd

/-- A line without the blanks behind it. The end of the line is blank itself, so a line has the same
row with it and without it. -/
def rowOf (line : String) : List Char := trimEnd line.toList

/-- A line end is blank: `trimEnd` drops what `dropLineEnd` drops, and perhaps more. -/
theorem trimEnd_dropLineEnd (cs : List Char) : trimEnd (dropLineEnd cs) = trimEnd cs := by
  fun_induction dropLineEnd cs with
  | case1 => rfl
  | case2 => decide
  | case3 => decide
  | case4 c cs _ _ ih =>
    unfold trimEnd at ih ⊢
    rw [trimEndWhere, trimEndWhere, ih]

/-- The rows of lines, and the empty one behind the last line feed. The readers of corpora pass
empty rows over, so that one does not matter to them. -/
theorem rowsOf_unlines {lines : List String} (h : ∀ line ∈ lines, '\n' ∉ line.toList) :
    rowsOf (unlines lines) = lines.map rowOf ++ [[]] := by
  induction lines with
  | nil => rfl
  | cons line lines ih =>
    have ih := ih fun other hother => h other (List.mem_cons_of_mem _ hother)
    -- Each line is ended by a line feed, also the last one.
    have htext :
        (unlines (line :: lines)).toList = line.toList ++ '\n' :: (unlines lines).toList := by
      simp
    rw [rowsOf, htext, splitOn_append_cons _ (h line List.mem_cons_self), List.map_cons,
      List.map_cons,
      List.cons_append, ← ih]
    rfl

/-- The line feed behind a line is one of the blanks that `trimEnd` drops. -/
theorem trimEnd_concat_lineFeed (cs : List Char) : trimEnd (cs ++ ['\n']) = trimEnd cs :=
  trimEndWhere_append_of_all ['\n'] (by decide)

end Text

/-! ### Delivered lines -/

/-- Bytes without a line feed are one line. The case without bytes is left out, since it has no line
at all. -/
theorem splitLines_of_not_mem {bytes : List UInt8} (hne : bytes ≠ []) (h : lineFeed ∉ bytes) :
    splitLines bytes = [bytes] := by
  induction bytes with
  | nil => exact absurd rfl hne
  | cons b bytes ih =>
    have hb : b ≠ lineFeed := fun e => h (e ▸ List.mem_cons_self)
    cases bytes with
    | nil => simp [splitLines, hb]
    | cons c cs => rw [splitLines, if_neg hb, ih (by simp) fun m => h (List.mem_cons_of_mem _ m)]

/-- A text that is not empty has bytes, for decoding them gives it back. `decode_encode` is the
lemma used. -/
theorem encode_ne_nil {cs : List Char} (hne : cs ≠ []) : Utf8.encode cs ≠ [] := by
  intro h
  have hdecode := Utf8.decode_encode cs
  rw [h] at hdecode
  exact hne (List.map_eq_nil_iff.1 hdecode.symm)

/-- The bytes of two lines: the line feed between them is a byte of its own. It cannot be part of a
longer character, as `encode_append` shows. -/
theorem encode_append_lineFeed (cs ds : List Char) :
    Utf8.encode (cs ++ '\n' :: ds) = Utf8.encode cs ++ lineFeed :: Utf8.encode ds := by
  simp [Utf8.encode, show Utf8.encodeChar '\n' = [lineFeed] by decide]

/-- A line of bytes, read as the text that was encoded in it, without its end. The strict decoder
refuses nothing here, because the bytes come from `Utf8.encode`. -/
theorem text_line_encode (cs : List Char) :
    (Delivery.line (Utf8.encode cs)).text = .ok (String.ofList (dropLineEnd cs)) := by
  rw [Delivery.text, Utf8.decodeStrict_encode]

/-- The pieces of a text are delivered in their order, the last one unless it is empty. The two
cases of the conclusion are a text without and with a line feed at its end. -/
theorem textLines_join {pieces : List (List Char)} (hne : pieces ≠ [])
    (h : ∀ piece ∈ pieces, '\n' ∉ piece) : ∃ lines : List String,
      (Source.ofString (String.ofList (join '\n' pieces))).textLines = lines.map .ok ∧
        (lines.map rowOf = pieces.map trimEnd ∨ lines.map rowOf ++ [[]] = pieces.map trimEnd) := by
  simp only [Source.textLines, Source.deliveries, Source.ofString, List.map_map,
    String.toList_ofList]
  induction pieces with
  | nil => exact absurd rfl hne
  | cons piece pieces ih =>
    have hpiece := h piece List.mem_cons_self
    cases pieces with
    | nil =>
      cases piece with
      | nil => exact ⟨[], rfl, .inr rfl⟩
      | cons c cs =>
        refine ⟨[String.ofList (dropLineEnd (c :: cs))], ?_, .inl ?_⟩
        · rw [join, splitLines_of_not_mem (encode_ne_nil (by simp))
            (lineFeed_not_mem_encode hpiece), List.map_singleton, Function.comp_apply,
            text_line_encode]
          rfl
        · simp [rowOf, trimEnd_dropLineEnd]
    | cons next rest =>
      -- Behind the first piece there is a line feed, so it is a line by itself.
      obtain ⟨lines, hlines, hrows⟩ := ih (by simp) fun p hp => h p (List.mem_cons_of_mem _ hp)
      refine ⟨String.ofList (dropLineEnd (piece ++ ['\n'])) :: lines, ?_, ?_⟩
      · have hbytes : Utf8.encode piece ++ [lineFeed] = Utf8.encode (piece ++ ['\n']) :=
          (encode_append_lineFeed piece []).symm
        rw [join, encode_append_lineFeed,
          splitLines_append_lineFeed (lineFeed_not_mem_encode hpiece), List.map_cons, hlines,
          Function.comp_apply, hbytes, text_line_encode, List.map_cons]
        simp
      · have hrow : rowOf (String.ofList (dropLineEnd (piece ++ ['\n']))) = trimEnd piece := by
          rw [rowOf, String.toList_ofList, trimEnd_dropLineEnd, trimEnd_concat_lineFeed]
        rw [List.map_cons, hrow, List.map_cons, List.cons_append]
        exact hrows.imp (congrArg _) (congrArg _)

/-- What a reader delivers of a text are lines with the rows of the text, but for an empty row at
the end. It is `textLines_join` for the pieces between line feeds. -/
theorem textLines_ofString (text : String) : ∃ lines : List String,
    (Source.ofString text).textLines = lines.map .ok ∧
      (lines.map rowOf = rowsOf text ∨ lines.map rowOf ++ [[]] = rowsOf text) := by
  have h := textLines_join (splitOn_ne_nil '\n' text.toList) fun piece hpiece hmem =>
    (mem_of_mem_splitOn hpiece hmem).2 rfl
  rwa [join_splitOn, String.ofList_toList] at h

end WebOfTrust
