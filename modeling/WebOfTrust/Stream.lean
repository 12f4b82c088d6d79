import WebOfTrust.Text.Utf8

/-!
# `WebOfTrust.Stream`: lines in, text out

The passes read their inputs line by line and write text. A `Source` is what a reader will deliver:
some bytes, and perhaps an error behind them. A `Sink` is what a writer has taken so far, with the
bound past which it refuses. Neither does anything by itself, so a pass over them is a function.

- `Source.deliveries`: the lines of a source as bytes, each with its line feed;
- `Source.textLines`: its lines as texts, an error in place of a line that is no UTF-8;
- `Sink.write`, `Sink.flush`: what a writer does.
-/

set_option autoImplicit false

namespace WebOfTrust

/-! ### Errors -/

/-- Why a file or a stream fails. `device` stands for all errors that nothing here tells apart. -/
inductive IoError where
  /-- The stream itself reports a failure, in its own words. -/
  | device (text : String)
  /-- A line of text is not UTF-8. -/
  | notUtf8
  | notFound
  | alreadyExists
  | notADirectory
  | isADirectory
  /-- The system does not let the program do what it asks for. -/
  | permissionDenied
  /-- A device takes no more. -/
  | noSpaceLeft
  /-- A name, or a path, has more bytes than one can have. -/
  | nameTooLong
  /-- A path has a character that no path can have. -/
  | nulInPath
  deriving DecidableEq, Repr

/-- The text of an error; those of the file system carry its number for them. A `ResolutionError.io`
puts its stage in front. -/
def IoError.message : IoError → String
  | .device text => text
  | .notUtf8 => "stream did not contain valid UTF-8"
  | .notFound => "No such file or directory (os error 2)"
  | .alreadyExists => "File exists (os error 17)"
  | .notADirectory => "Not a directory (os error 20)"
  | .isADirectory => "Is a directory (os error 21)"
  | .permissionDenied => "Permission denied (os error 13)"
  | .noSpaceLeft => "No space left on device (os error 28)"
  | .nameTooLong => "File name too long (os error 36)"
  | .nulInPath => "file name contained an unexpected NUL byte"

/-! ### Sources -/

/-- What a reader delivers: bytes, then the error, if there is one, then nothing. So an error comes
behind all bytes, and is not followed by more. -/
structure Source where
  bytes : List UInt8
  error : Option IoError := none
  deriving Inhabited

/-- A source that delivers a text. Its text is encoded by `Utf8.encode`, and it never fails. -/
def Source.ofString (s : String) : Source := ⟨Text.Utf8.encode s.toList, none⟩

/-- One answer of a reader that is asked for a line. `Delivery.text` decodes it. -/
inductive Delivery where
  /-- A line with its line feed; only the last line of a source may lack it. -/
  | line (bytes : List UInt8)
  | failure (error : IoError)

/-- The line feed. Sources are cut into lines at this byte, before anything is decoded. -/
def lineFeed : UInt8 := 10

/-- The lines of a byte sequence, each up to its line feed. A last line without one is a line, too;
the empty sequence has none. -/
def splitLines : List UInt8 → List (List UInt8)
  | [] => []
  | b :: bs =>
    if b = lineFeed then
      [b] :: splitLines bs
    else
      match splitLines bs with
      | [] => [[b]]
      | line :: lines => (b :: line) :: lines

/-- The answers of a reader that is asked for lines until there are none. Before an error only whole
lines are delivered: what has been read of the next one is lost. The error is the last delivery. -/
def Source.deliveries (s : Source) : List Delivery :=
  match s.error with
  | none => (splitLines s.bytes).map .line
  | some e =>
    ((splitLines s.bytes).filter fun line => line.getLast? = some lineFeed).map .line
      ++ [.failure e]

/-- A line without its ending, a line feed with at most one carriage return before it. Other blanks
at the end stay, for `trimEnd` to remove where that is wanted. -/
def dropLineEnd : List Char → List Char
  | [] => []
  | ['\n'] => []
  | ['\r', '\n'] => []
  | c :: cs => c :: dropLineEnd cs

/-- A line of text, from a delivery. Bytes that are no UTF-8 are the error `notUtf8`, and the reader
may go on behind them. -/
def Delivery.text : Delivery → Except IoError String
  | .line bytes =>
    match Text.Utf8.decodeStrict bytes with
    | some cs => .ok (String.ofList (dropLineEnd cs))
    | none => .error .notUtf8
  | .failure e => .error e

/-- The lines of a source as texts. A reader that goes on after an error gets the next line. Every
reader of this library starts from this list. -/
def Source.textLines (s : Source) : List (Except IoError String) :=
  s.deliveries.map Delivery.text

/-- All that a source delivers, as one text. Configurations are read as a whole. -/
def Source.text (s : Source) : Except IoError String :=
  match s.error with
  | some e => .error e
  | none =>
    match Text.Utf8.decodeStrict s.bytes with
    | some cs => .ok (String.ofList cs)
    | none => .error .notUtf8

/-! ### Sinks -/

/-- What a writer has taken, the number of bytes it can take with the error of a write past it, and
the error of its flush. Errors of a write and of a flush are told apart by the two fields. -/
structure Sink where
  text : String := ""
  capacity : Option (Nat × IoError) := none
  flushError : Option IoError := none
  deriving Inhabited

/-- Writes a text; a write that does not fit is refused. `capacity` is compared with bytes, not with
characters. -/
def Sink.write (k : Sink) (s : String) : Except IoError Sink :=
  match k.capacity with
  | some (limit, e) =>
    if k.text.utf8ByteSize + s.utf8ByteSize ≤ limit then .ok { k with text := k.text ++ s }
    else .error e
  | none => .ok { k with text := k.text ++ s }

/-- Writes a text and a line feed. It is a single `Sink.write`, so a line is taken as a whole or not
at all. -/
def Sink.writeLine (k : Sink) (s : String) : Except IoError Sink :=
  k.write (s ++ "\n")

/-- Hands on what has been written. It changes nothing in the `Sink`. -/
def Sink.flush (k : Sink) : Except IoError Unit :=
  match k.flushError with
  | some e => .error e
  | none => .ok ()

end WebOfTrust
