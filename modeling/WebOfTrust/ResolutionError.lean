import WebOfTrust.KeyId
import WebOfTrust.KeyStatus
import WebOfTrust.Stream
import WebOfTrust.Text.Quoted

/-!
# `WebOfTrust.ResolutionError`: why a pass stops

A dump, a corpus or a table can be wrong in two ways. A line is *malformed* if its fields cannot be
read, and *out of place* if it can be read but nothing precedes it to which it could belong. Besides
that, a stream may fail. Every cause is a constructor; `message` gives its wording.
-/

set_option autoImplicit false

namespace WebOfTrust

/-- The kinds of lines of which messages speak. A corpus and the two tables have kinds of their
own. -/
inductive LineKind where
  | pub
  | uid
  | sig
  | rev
  | spk
  | certification
  | status
  deriving DecidableEq, Repr

/-- The name of a kind, as messages give it. For records it is what a line of the dump begins with.
It is no key word of a grammar, so nothing is parsed by it. -/
def LineKind.name : LineKind → String
  | pub => "pub"
  | uid => "uid"
  | sig => "sig"
  | rev => "rev"
  | spk => "spk"
  | certification => "certification"
  | status => "status"

/-! ### Malformed lines -/

/-- Why the fields of a line cannot be read. Fields count from zero. Every constructor carries what
its message shows. -/
inductive Malformation where
  | missingField (kind : LineKind) (index : Nat)
  | notANumber (kind : LineKind) (index : Nat) (text : String)
  | notAByte (kind : LineKind) (index : Nat) (text : String)
  | notAHexByte (kind : LineKind) (index : Nat) (text : String)
  | outOfRange (kind : LineKind) (index : Nat) (value : Nat)
  | fieldCount (kind : LineKind) (found expected : Nat)
  | invalidKeyId (e : InvalidKeyId)
  | invalidStatus (e : KeyStatus.InvalidCode)
  /-- A line of a certification does not begin as one. -/
  | notACertification
  /-- A corpus line is neither a header nor a certification. -/
  | unexpectedCorpusLine (text : String)
  /-- A line of the policy table has no semicolon. -/
  | noPolicySeparator
  deriving DecidableEq, Repr

/-- The message of a line that cannot be read. It names the kind of the line, and the index of the
field where there is one. The text of the field is quoted, if that is what is wrong. -/
def Malformation.message : Malformation → String
  | missingField kind index => kind.name ++ " record has no field " ++ toString index
  | notANumber kind index text =>
    kind.name ++ " field " ++ toString index ++ ": not a number: " ++ Text.quoted text
  | notAByte kind index text =>
    kind.name ++ " field " ++ toString index ++ ": not a byte: " ++ Text.quoted text
  | notAHexByte kind index text =>
    kind.name ++ " field " ++ toString index ++ ": not a hex byte: " ++ Text.quoted text
  | outOfRange kind index value =>
    kind.name ++ " field " ++ toString index ++ ": out of range: " ++ toString value
  | fieldCount kind found expected =>
    kind.name ++ " line has " ++ toString found ++ " fields, expected " ++ toString expected
  | invalidKeyId e => e.message
  | invalidStatus e => e.message
  | notACertification => "certification line must start with 's'"
  | unexpectedCorpusLine text => "unexpected corpus line: " ++ Text.quoted text
  | noPolicySeparator => "policy-URI line has no ';' separator"

/-! ### Lines out of place -/

/-- What is missing before a line. A reader or the `Resolver` finds it out from the lines before. -/
inductive Misplacement where
  /-- A record that belongs to a key comes before every key. -/
  | beforeAnyKey (kind : LineKind)
  /-- A record that belongs to a user id comes before every user id of its key. -/
  | beforeAnyIdentity (kind : LineKind) (key : KeyId)
  /-- A policy URI comes before every signature of its key. -/
  | policyUriBeforeSignature
  /-- A certification comes before every header of its corpus. -/
  | certificationBeforeHeader
  deriving DecidableEq, Repr

/-- The message of a line at the wrong place, with what it should have come behind. It does not
mention the number of the line; `ResolutionError.message` does. -/
def Misplacement.message : Misplacement → String
  | beforeAnyKey kind => kind.name ++ " before any pub"
  | beforeAnyIdentity kind key => kind.name ++ " on key " ++ key.text ++ " before any uid"
  | policyUriBeforeSignature => "policy URI subpacket before any sig of the key"
  | certificationBeforeHeader => "certification line before any signee header"

/-! ### Errors of a pass -/

/-- Why a pass stops. Lines count from one. `structural` is a line at the wrong place, `malformed`
one that cannot be read, and `io` a failure of a file. -/
inductive ResolutionError where
  | structural (line : Nat) (cause : Misplacement)
  | malformed (line : Nat) (cause : Malformation)
  | io (stage : String) (error : IoError)
  deriving DecidableEq, Repr

/-- The message of an error: its line or its stage, and its cause. A command prints it as it is. -/
def ResolutionError.message : ResolutionError → String
  | structural line cause =>
    "line " ++ toString line ++ ": structural error: " ++ cause.message
  | malformed line cause =>
    "line " ++ toString line ++ ": malformed record: " ++ cause.message
  | io stage error => stage ++ ": I/O error: " ++ error.message

end WebOfTrust
