import WebOfTrust.ResolutionError
import WebOfTrust.Signature
import WebOfTrust.Text.Blank
import WebOfTrust.Text.Split

/-!
# `WebOfTrust.Corpus`: the edge corpus

A corpus lists certifications in blocks, one per certified key: a header line with the id of that
key, then a line for each certification.

    p<signee>
    s<issuer>;<date>;<expires>;<flags>;<level>;<algorithm>;<hash>;<version>

`EdgeBlock.render` writes a block, `Corpus.blocks` reads a corpus. A block is complete when the next
header or the end of the corpus is met, and a line that is refused changes nothing.
-/

set_option autoImplicit false

namespace WebOfTrust

open Text

/-! ### Lines -/

/-- The fields of the line of a certification. All unknown levels have one code, so they are told
apart by nothing in the line. `CertificationLevel.code` gives it. -/
def Signature.corpusFields (s : Signature) : List String :=
  [s.issuer.text, s.date, s.expires, s.flags, toString s.level.code.toNat,
    toString s.algorithm.toByte.toNat, toString s.hash.toByte.toNat, toString s.version.toNat]

/-- The line of a certification: the letter `s` and the fields, between semicolons. The fields are
written as they are, without escapes. -/
def Signature.corpusLine (s : Signature) : String := "s" ++ ofFields ';' s.corpusFields

/-- The line of a certification and its end, in the pieces in which it is written. A `JournalEntry`
keeps them apart. -/
def Signature.corpusPieces (s : Signature) : List String :=
  "s" :: interleave ';' s.corpusFields ++ ["\n"]

/-- The pieces make up the line and its end, so what is written does not depend on where a buffer is
emptied. Lemmas are about `Signature.corpusLine`. -/
theorem Signature.join_corpusPieces (s : Signature) :
    String.join s.corpusPieces = s.corpusLine ++ "\n" := by
  simp [corpusPieces, corpusLine, join_interleave, String.append_assoc]

/-- A byte in the field with the given index. The error names the field, counted from zero, and
shows its text. `readByte` refuses numbers above 255. -/
def certificationByte (index : Nat) (text : String) : Except Malformation UInt8 :=
  match readByte text with
  | some b => .ok b
  | none => .error (.notAByte .certification index text)

/-- Reads the line of a certification. The number of the fields is checked first, and then the
fields from left to right, so that the error is that of the first one that is wrong. The letter `s`
in front is checked before both. -/
def Signature.ofCorpusLine (line : String) : Except Malformation Signature :=
  match line.toList with
  | 's' :: body =>
    match (splitOn ';' body).map String.ofList with
    | [issuer, date, expires, flags, level, algorithm, hash, version] => do
      let issuer ← (KeyId.parse issuer).mapError .invalidKeyId
      let level ← CertificationLevel.ofByte <$> certificationByte 4 level
      let algorithm ← PublicKeyAlgorithm.ofByte <$> certificationByte 5 algorithm
      let hash ← HashAlgorithm.ofByte <$> certificationByte 6 hash
      let version ← certificationByte 7 version
      return { issuer, date, expires, flags, level, algorithm, hash, version }
    | fields => .error (.fieldCount .certification fields.length 8)
  | _ => .error .notACertification

/-- What a line of a corpus is, told by its first letter. A blank line is skipped, and any other is
refused by `CorpusLine.parse`. -/
inductive CorpusLine where
  | blank
  | header (signee : KeyId)
  | certification (s : Signature)
  deriving DecidableEq, Repr

/-- Reads a line; blanks at its end are no part of it. A line of blanks only carries nothing, and
any other has to begin with `p` or `s`. -/
def CorpusLine.parse (line : String) : Except Malformation CorpusLine :=
  let cs := trimEnd line.toList
  match cs with
  | [] => .ok .blank
  | 'p' :: signee =>
    .header <$> (KeyId.parse (String.ofList signee)).mapError .invalidKeyId
  | 's' :: _ => .certification <$> Signature.ofCorpusLine (String.ofList cs)
  | _ => .error (.unexpectedCorpusLine (String.ofList cs))

/-! ### Blocks -/

/-- The certifications of one key, the signee. The corpus has their issuers in the order of ids, but
nothing here asks for that. `EdgeBlock.Ascending` states it where it is needed. -/
structure EdgeBlock where
  signee : KeyId
  entries : List Signature
  deriving DecidableEq, Repr, Inhabited

/-- The lines of a block: its header, and one for each certification. The header stands there even
if `entries` is empty. -/
def EdgeBlock.render (b : EdgeBlock) : String :=
  "p" ++ b.signee.text ++ "\n" ++
    String.join (b.entries.map fun s => s.corpusLine ++ "\n")

/-- A block, in the pieces in which it is written. Ids and numbers are pieces of their own. -/
def EdgeBlock.pieces (b : EdgeBlock) : List String :=
  "p" :: b.signee.text :: "\n" :: b.entries.flatMap Signature.corpusPieces

/-- The pieces make up the lines of the block. It follows from `Signature.join_corpusPieces`, entry
by entry. -/
theorem EdgeBlock.join_pieces (b : EdgeBlock) : String.join b.pieces = b.render := by
  have entries (l : List Signature) : String.join (l.flatMap Signature.corpusPieces) =
      String.join (l.map fun s => s.corpusLine ++ "\n") := by
    induction l with
    | nil => rfl
    | cons s rest ih => simp [Signature.join_corpusPieces, ih]
  simp [pieces, render, entries, String.append_assoc]

namespace Corpus

/-- The stage that a reader names when its stream fails, unless it is given another. The second pass
gives it its own. `readingRawCorpus` is that one. -/
def readingStage : String := "reading edge corpus"

/-- The blocks of the lines that follow the first `count`; `pending` is the block to which their
certifications belong so far. A line of text that cannot be had does not count. A refused line
leaves `pending` as it is, a refused header too. -/
def blocksFrom (stage : String) (count : Nat) (pending : Option EdgeBlock) :
    List (Except IoError String) → List (Except ResolutionError EdgeBlock)
  | [] => pending.toList.map .ok
  | .error e :: rest => .error (.io stage e) :: blocksFrom stage count pending rest
  | .ok line :: rest =>
    let n := count + 1
    match CorpusLine.parse line, pending with
    | .error cause, _ => .error (.malformed n cause) :: blocksFrom stage n pending rest
    | .ok .blank, _ => blocksFrom stage n pending rest
    | .ok (.header signee), none => blocksFrom stage n (some ⟨signee, []⟩) rest
    | .ok (.header signee), some block => .ok block :: blocksFrom stage n (some ⟨signee, []⟩) rest
    | .ok (.certification _), none =>
      .error (.structural n .certificationBeforeHeader) :: blocksFrom stage n none rest
    | .ok (.certification s), some block =>
      blocksFrom stage n (some { block with entries := block.entries ++ [s] }) rest

/-- The blocks of a corpus, with an error in place of each line that is refused. A reader that goes
on after an error gets the next one, and one that stops has the items up to the first error.
`blocksFrom` does the work, line by line. -/
def blocks (stage : String) (corpus : Source) : List (Except ResolutionError EdgeBlock) :=
  blocksFrom stage 0 none corpus.textLines

end Corpus

end WebOfTrust
