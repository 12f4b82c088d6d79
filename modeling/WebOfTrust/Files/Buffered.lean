import WebOfTrust.Files.Access

/-!
# `WebOfTrust.Files.Buffered`: files written through a buffer

What is written to a file in small pieces gathers in a buffer, and goes to the file when the next
piece would not fit. This can be seen where two writers share a file, or where a file is read while
it is written: the file then holds the pieces that have left their buffers, each where its writer
stood. A piece never leaves its buffer in parts.

- `BufferedFile.put`: writes a piece;
- `BufferedFile.flush`: empties the buffer.
-/

set_option autoImplicit false

namespace WebOfTrust

/-- A file that is open for writing, and the text in its buffer. `pending` holds whole pieces, since
none leaves in parts. -/
structure BufferedFile (m : Type → Type) [FileAccess m] where
  handle : FileAccess.Handle m
  pending : String := ""

/-- An action on a buffered file. What has been done when it fails stays done: the state is below
the error, so the buffer is seen as the failure left it. `carryOut` returns both. -/
abbrev FileAction (m : Type → Type) [FileAccess m] (α : Type) : Type :=
  ExceptT IoError (StateT (BufferedFile m) m) α

namespace BufferedFile

variable {m : Type → Type} [Monad m] [FileAccess m]

/-- The number of bytes that a buffer holds. It decides which pieces are in a file when somebody
else looks at it. It is the default of a buffered writer. -/
def bufferSize : Nat := 8192

/-- Writes a text to the file. Without a text there is no request, so an empty buffer cannot fail.
The handle that `write` returns replaces the old one. -/
def handOn (text : String) : FileAction m Unit := do
  if text ≠ "" then
    let file ← get
    let handle ← request id (liftM (FileAccess.write (m := m) file.handle text))
    set { file with handle }

/-- Empties the buffer into the file. If the write fails, the buffer stays as it is and is tried
again by `abandon`. -/
def flush : FileAction m Unit := do
  handOn (← get).pending
  modify fun file => { file with pending := "" }

/-- Writes a piece: to the buffer, which is emptied first if the piece does not fit, or at once to
the file if no buffer could hold it and more. `flush` empties it. -/
def put (piece : String) : FileAction m Unit := do
  if bufferSize < (← get).pending.utf8ByteSize + piece.utf8ByteSize then flush
  if bufferSize ≤ piece.utf8ByteSize then handOn piece
  else modify fun file => { file with pending := file.pending ++ piece }

/-- Carries out an action, and tells what has become of the file, whether the action succeeds or
fails. It is the two `run`s of the transformers. -/
def carryOut {α : Type} (file : BufferedFile m) (act : FileAction m α) :
    m (Except IoError α × BufferedFile m) :=
  act.run.run file

/-- Gives a file up. What its buffer holds goes to the file, and nobody learns if that fails,
because there is nobody left to be told. The result of `flush` is thrown away. -/
def abandon (file : BufferedFile m) : m Unit := do
  let _ ← file.carryOut flush

end BufferedFile

end WebOfTrust
