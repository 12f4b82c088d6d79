import Std.Time.DateTime.Timestamp
import WebOfTrust.CommandLine.Execution
import WebOfTrust.CommandLine.Stamp

/-!
# `WebOfTrust.Main`: the program

The requests of the commands are handed on to the system, and what the program leaves is printed.
-/

set_option autoImplicit false

namespace WebOfTrust

/-- An error of the system. Errors that a run tells apart have constructors of their own, and the
number of the system has to fit. -/
def IoError.ofSystem : IO.Error → IoError
  | .noFileOrDirectory _ 2 _ => .notFound
  | .permissionDenied _ 13 _ => .permissionDenied
  | .alreadyExists _ 17 _ => .alreadyExists
  | .inappropriateType _ 20 _ => .notADirectory
  | .inappropriateType _ 21 _ => .isADirectory
  | .resourceExhausted _ 28 _ => .noSpaceLeft
  | .invalidArgument _ 36 _ => .nameTooLong
  | e => .device e.toString

/-- Hands a request on to the system. The result is an `Except`, so that `execute` decides what an
error means. -/
def system {α : Type} (act : IO α) : IO (Except IoError α) := do
  return (← act.toBaseIO).mapError .ofSystem

/-- Requests go to the system. A path exists if it can be resolved, and it is a directory if it can
be resolved with `/.` behind it. -/
instance : FileAccess IO where
  Handle := IO.FS.Handle
  pathExists path := return (← system (IO.FS.realPath path)).isOk
  read path := system do
    let file ← IO.FS.Handle.mk path .read
    match ← system file.readBinToEnd with
    | .ok bytes => return ⟨bytes.toList, none⟩
    | .error e => return ⟨[], some e⟩
  create path := system (IO.FS.Handle.mk path .write)
  write file text := system do
    file.putStr text
    file.flush
    return file
  isDirectory path := return (← system (IO.FS.realPath (path ++ "/."))).isOk
  makeDirectory path := system (IO.FS.createDir path)
  remove path := system (IO.FS.removeFile path)

/-- The circumstances of a run that begins now. Nothing else in a run depends on the time or on
chance. -/
def Circumstances.now : IO Circumstances := do
  let moment := (← Std.Time.Timestamp.now).toNanosecondsSinceUnixEpoch.toInt.toNat
  let random ← IO.getRandomBytes 10
  return { stamp := .ofMoment moment random.toList, presentYear := yearOfMoment moment }

end WebOfTrust

/-- The program: it executes the arguments at the present time, prints what that leaves, and returns
its exit code. `WebOfTrust.execute` has the logic. -/
def main (arguments : List String) : IO UInt32 := do
  let outcome ← WebOfTrust.execute (← WebOfTrust.Circumstances.now) arguments
  IO.print outcome.output
  IO.eprint outcome.errors
  return outcome.exitCode.toUInt32
