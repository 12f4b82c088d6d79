import WebOfTrust.Dump.Escape
import WebOfTrust.ResolutionError
import WebOfTrust.Table
import WebOfTrust.Text.Blank
import WebOfTrust.Text.Split

/-!
# `WebOfTrust.PolicyUriTable`: certification policies

Issuers declare the policies under which they certify by URI. The table holds a set of URIs for each
issuer that declares any. It is written one pair a line, in the order of issuers and, for one
issuer, of URIs, with the URI escaped, so that a pair never spreads over two lines.
-/

set_option autoImplicit false

namespace WebOfTrust

open Text

/-! ### Pairs -/

/-- A policy URI and the key that declares it. The URI is any text, line feeds included. -/
structure PolicyUri where
  issuer : KeyId
  uri : String
  deriving DecidableEq, Repr, Inhabited

namespace PolicyUri

/-- The line of a pair. `Dump.escapeLine` keeps it on one line. -/
def render (p : PolicyUri) : String := p.issuer.text ++ ";" ++ Dump.escapeLine p.uri

/-- The line of a pair and its end, in the pieces in which it is written. `Artifacts.writePolicies`
hands them on. -/
def pieces (p : PolicyUri) : List String := [p.issuer.text, ";", Dump.escapeLine p.uri, "\n"]

/-- The pieces make up the line and its end. A pass writes pieces, and lemmas are about lines. So is
`PolicyUri.render`. -/
theorem join_pieces (p : PolicyUri) : String.join p.pieces = p.render ++ "\n" := by
  simp [pieces, render, String.append_assoc]

/-- Reads the line of a pair. A semicolon behind the first is part of the URI. `splitFirst` cuts at
the first one. -/
def parse (line : String) : Except Malformation PolicyUri :=
  match splitFirst ';' line.toList with
  | none => .error .noPolicySeparator
  | some (issuer, uri) => do
    let issuer ← (KeyId.parse (String.ofList issuer)).mapError .invalidKeyId
    return ⟨issuer, Dump.unescape (String.ofList uri)⟩

end PolicyUri

/-! ### Tables -/

/-- The declared policies. A `Table` of sets, in which neither an issuer nor one of its URIs comes
twice. -/
structure PolicyUriTable where
  /-- The URIs of each issuer. -/
  byIssuer : Table KeyId (KeySet String) := ∅
  deriving DecidableEq, Inhabited

namespace PolicyUriTable

/-- A table in which nobody declares anything. `∅` is how a pass starts. -/
instance : EmptyCollection PolicyUriTable := ⟨{}⟩

/-- The URIs of an issuer, if it declares any. `none` stands for an issuer that declares nothing. -/
def urisOf (t : PolicyUriTable) (issuer : KeyId) : Option (KeySet String) :=
  t.byIssuer.find? issuer

/-- Whether a pair is in the table. It looks the issuer up, and then the URI. -/
def declares (t : PolicyUriTable) (p : PolicyUri) : Bool :=
  ((t.urisOf p.issuer).getD ∅).contains p.uri

/-- The table with a further pair. A pair that is there already changes nothing. -/
def add (t : PolicyUriTable) (p : PolicyUri) : PolicyUriTable :=
  ⟨t.byIssuer.insert p.issuer (((t.urisOf p.issuer).getD ∅).add p.uri)⟩

/-- The policies of the keys in `keep`. -/
def retainIssuers (t : PolicyUriTable) (keep : KeySet KeyId) : PolicyUriTable :=
  ⟨t.byIssuer.filterKeys keep.contains⟩

/-- The pairs, in the order of issuers and, for one issuer, of URIs. Texts and counts are made of
this list. -/
def pairs (t : PolicyUriTable) : List PolicyUri :=
  t.byIssuer.entries.flatMap fun e => e.2.keys.map fun uri => ⟨e.1, uri⟩

/-- The number of keys that declare a policy. It is the size of `byIssuer`. -/
def issuers (t : PolicyUriTable) : Nat := t.byIssuer.size

/-- The number of pairs. `length_pairs` says that it is the length of `pairs`. -/
def size (t : PolicyUriTable) : Nat := (t.byIssuer.values.map Table.size).foldr (· + ·) 0

/-- Whether no key declares a policy. It asks for issuers, not for pairs. -/
def isEmpty (t : PolicyUriTable) : Bool := t.byIssuer.isEmpty

/-! ### Text -/

/-- Writes the table, one line for each pair. Each line is given to the `Sink` on its own. -/
def write (t : PolicyUriTable) (out : Sink) : Except IoError Sink :=
  t.pairs.foldlM (fun out p => out.writeLine p.render) out

/-- The table, in the pieces in which it is written. `join_pieces` joins them to the text. -/
def pieces (t : PolicyUriTable) : List String := t.pairs.flatMap PolicyUri.pieces

/-- The table that the lines behind the first `count` add to `t`. -/
def readFrom (t : PolicyUriTable) (count : Nat) :
    List (Except IoError String) → Except ResolutionError PolicyUriTable
  | [] => .ok t
  | .error e :: _ => .error (.io "reading policy-URI table" e)
  | .ok line :: rest =>
    if trim line.toList = [] then readFrom t (count + 1) rest
    else
      match PolicyUri.parse line with
      | .ok p => readFrom (t.add p) (count + 1) rest
      | .error cause => .error (.malformed (count + 1) cause)

/-- Reads a table. It starts with the empty table and counts lines from one. -/
def read (s : Source) : Except ResolutionError PolicyUriTable :=
  readFrom ∅ 0 s.textLines

end PolicyUriTable

end WebOfTrust
