import WebOfTrust.Dump.Escape
import WebOfTrust.ResolutionError
import WebOfTrust.Signature
import WebOfTrust.Text.Blank
import WebOfTrust.Text.Split

/-!
# `WebOfTrust.Dump.Record`: the records of a keyring dump

A dump has one record a line, with its fields between colons:

    pub:<flags>:<bits>:<algorithm>:<key id>:<created>:<expires>:<version>:
    uid:<trust>::::::::<user id>:
    sig:<issuer>:<date>:<expires>:<type>:<flags>:<version>:<algorithm>:<hash>
    rev:<issuer>:<date>::<type>::<version>:<algorithm>:<hash>
    spk:<type>:<flags>:<length>:<data>

Lines that are blank or begin otherwise carry no record. `parseLine` reads one line, `records` a
whole dump.
-/

set_option autoImplicit false

namespace WebOfTrust.Dump

open Text

/-! ### Records -/

/-- A key, as its `pub` record has it. The flags are kept as a text, of which two letters are looked
at. -/
structure PubRecord where
  /-- Letters, among them `r` for a revoked and `e` for an expired key. -/
  flags : String
  bits : UInt32
  algorithm : PublicKeyAlgorithm
  keyId : KeyId
  created : String
  expires : String
  version : UInt8
  deriving DecidableEq, Repr

/-- Whether the dump flags the key as revoked. `Key.settlingEvent` asks for this before it asks
whether the key has expired. -/
def PubRecord.isFlaggedRevoked (r : PubRecord) : Bool := r.flags.toList.contains 'r'

/-- Whether the dump flags the key as expired. `Key.settlingEvent` asks for it behind
`isFlaggedRevoked`. -/
def PubRecord.isFlaggedExpired (r : PubRecord) : Bool := r.flags.toList.contains 'e'

/-- A user id of the latest key. `parseUid` has unescaped the text. -/
structure UidRecord where
  userId : String
  deriving DecidableEq, Repr

/-- A subpacket of the latest signature. Of its fields, `kind` and `data` are used; the other two
have to be readable. -/
structure SpkRecord where
  kind : UInt8
  flags : UInt8
  length : UInt64
  data : String
  deriving DecidableEq, Repr

/-- The subpacket type of a policy URI. `SpkRecord.isPolicyUri` compares with it. -/
def policyUriKind : UInt8 := 26

/-- Whether a subpacket declares a policy. All other kinds are read and ignored. Its data is the
URI. -/
def SpkRecord.isPolicyUri (r : SpkRecord) : Bool := r.kind = policyUriKind

/-- What a line of a dump says. Records belong to the key that was opened last, and certifications
to its newest user id. `Resolver.push` takes one at a time. -/
inductive Record where
  /-- A key, to which the records behind it belong. -/
  | pub (r : PubRecord)
  /-- A user id of that key. -/
  | uid (r : UidRecord)
  /-- A certification of the latest user id. -/
  | sig (r : Signature)
  /-- A revocation of the latest key or user id. -/
  | rev (r : Revocation)
  /-- A subpacket of the latest signature. -/
  | spk (r : SpkRecord)
  deriving DecidableEq, Repr

/-! ### Fields -/

/-- The fields of one line, the name of its kind among them. `kind` is kept for the errors. -/
structure Fields where
  kind : LineKind
  texts : List String

namespace Fields

/-- The text of a field, which has to be there. The error is `missingField`, with the kind of the
line. -/
def get (f : Fields) (index : Nat) : Except Malformation String :=
  match f.texts[index]? with
  | some text => .ok text
  | none => .error (.missingField f.kind index)

/-- A decimal number below `limit`; blanks around it are no part of it. -/
def number (f : Fields) (limit index : Nat) : Except Malformation Nat := do
  let text ← f.get index
  match readNumber 10 limit (trim text.toList) with
  | some n => .ok n
  | none => .error (.notANumber f.kind index text)

/-- A decimal number below 256. The errors are those of `number`. -/
def byte (f : Fields) (index : Nat) : Except Malformation UInt8 :=
  UInt8.ofNat <$> f.number UInt8.size index

/-- A byte in hexadecimal digits; blanks around it are no part of it. The types of signatures are
written in this way. -/
def hexByte (f : Fields) (index : Nat) : Except Malformation UInt8 := do
  let text ← f.get index
  match readNumber 16 UInt8.size (trim text.toList) with
  | some n => .ok (UInt8.ofNat n)
  | none => .error (.notAHexByte f.kind index text)

/-- The id of a key. The error is `invalidKeyId`. -/
def keyId (f : Fields) (index : Nat) : Except Malformation KeyId := do
  let text ← f.get index
  (KeyId.parse text).mapError .invalidKeyId

end Fields

/-! ### Lines -/

/-- Reads a `pub` line, field by field. The first field that cannot be read is the one that the
error names. -/
def parsePub (f : Fields) : Except Malformation PubRecord := do
  let flags ← f.get 1
  let bits ← UInt32.ofNat <$> f.number UInt32.size 2
  let algorithm ← PublicKeyAlgorithm.ofByte <$> f.byte 3
  let keyId ← f.keyId 4
  let created ← f.get 5
  let expires ← f.get 6
  let version ← f.byte 7
  return { flags, bits, algorithm, keyId, created, expires, version }

/-- The user id is the field with index 9, or the last one of a shorter line. It never fails: a line
without fields gives the empty text. -/
def parseUid (f : Fields) : UidRecord :=
  ⟨unescape ((f.texts[9]?.or f.texts.getLast?).getD "")⟩

/-- Reads a `sig` line. The type of the signature is a hexadecimal number and gives the level. -/
def parseSig (f : Fields) : Except Malformation Signature := do
  let issuer ← f.keyId 1
  let date ← f.get 2
  let expires ← f.get 3
  let level ← CertificationLevel.ofSignatureType <$> f.hexByte 4
  let flags ← f.get 5
  let version ← f.byte 6
  let algorithm ← PublicKeyAlgorithm.ofByte <$> f.byte 7
  let hash ← HashAlgorithm.ofByte <$> f.byte 8
  return { issuer, date, expires, level, flags, version, algorithm, hash }

/-- Reads a `rev` line, which has the same fields. Its type says what is revoked. -/
def parseRev (f : Fields) : Except Malformation Revocation := do
  let issuer ← f.keyId 1
  let date ← f.get 2
  let kind ← RevocationKind.ofSignatureType <$> f.hexByte 4
  let version ← f.byte 6
  let algorithm ← PublicKeyAlgorithm.ofByte <$> f.byte 7
  let hash ← HashAlgorithm.ofByte <$> f.byte 8
  return { issuer, date, kind, version, algorithm, hash }

/-- The data are all fields from index 4 on: colons among them are part of the data. They are joined
again by `ofFields`. -/
def parseSpk (f : Fields) : Except Malformation SpkRecord := do
  let data := ofFields ':' (f.texts.drop 4)
  let kind ← f.byte 1
  let flags ← f.byte 2
  let length ← UInt64.ofNat <$> f.number UInt64.size 3
  return { kind, flags, length, data := unescape data }

/-- Reads one line; the characters of its line ending are no part of it. `none` is a line of another
kind, which is skipped. -/
def parseLine (line : String) : Except Malformation (Option Record) :=
  let texts := (splitOn ':' (trimEndWhere (fun c => c = '\r' || c = '\n') line.toList)).map
    String.ofList
  match texts with
  | "pub" :: _ => (some ∘ .pub) <$> parsePub ⟨.pub, texts⟩
  | "uid" :: _ => .ok (some (.uid (parseUid ⟨.uid, texts⟩)))
  | "sig" :: _ => (some ∘ .sig) <$> parseSig ⟨.sig, texts⟩
  | "rev" :: _ => (some ∘ .rev) <$> parseRev ⟨.rev, texts⟩
  | "spk" :: _ => (some ∘ .spk) <$> parseSpk ⟨.spk, texts⟩
  | _ => .ok none

/-! ### Dumps -/

/-- What a dump yields: a record with the number of its line, or an error in its place. The number
is that of the line in the file, skipped lines included. -/
abbrev Item := Except ResolutionError (Nat × Record)

/-- The items of the lines that follow the first `count`. -/
def itemsFrom (count : Nat) : List Delivery → List Item
  | [] => []
  | .failure e :: rest => .error (.io "reading keyring dump" e) :: itemsFrom count rest
  | .line bytes :: rest =>
    match parseLine (String.ofList (Utf8.decodeReplacing bytes)) with
    | .ok none => itemsFrom (count + 1) rest
    | .ok (some record) => .ok (count + 1, record) :: itemsFrom (count + 1) rest
    | .error cause => .error (.malformed (count + 1) cause) :: itemsFrom (count + 1) rest

/-- The items of a dump. A reader that goes on after an error gets the next one. `itemsFrom` numbers
the deliveries from one. -/
def records (dump : Source) : List Item :=
  itemsFrom 0 dump.deliveries

end WebOfTrust.Dump
