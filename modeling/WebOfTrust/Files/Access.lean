import WebOfTrust.Files.Tree

/-!
# `WebOfTrust.Files.Access`: what a program asks of a file system

The commands are written over the requests of this class. A file tree answers them within itself;
another instance may hand them on to the system.

- `FileAccess`: the requests;
- `makeDirectories`: a directory with all directories above it.
-/

set_option autoImplicit false

namespace WebOfTrust

/-- The requests to a file system. The commands are programs in any monad with this class, so that
one text of them runs on a `FileTree` and on the system. -/
class FileAccess (m : Type → Type) where
  /-- A file that has been opened for writing. -/
  Handle : Type
  /-- Whether there is something under a path. -/
  pathExists : String → m Bool
  /-- Opens a file for reading. -/
  read : String → m (Except IoError Source)
  /-- Opens a file for writing: creates it without contents, or takes the contents of one away. -/
  create : String → m (Except IoError Handle)
  /-- Writes a text behind what was written through the same opening. -/
  write : Handle → String → m (Except IoError Handle)
  /-- Whether there is a directory under a path. -/
  isDirectory : String → m Bool
  /-- Makes a directory in one that exists. -/
  makeDirectory : String → m (Except IoError Unit)
  /-- Removes a file. -/
  remove : String → m (Except IoError Unit)

/-! ### Requests made of others -/

section

variable {m : Type → Type} [Monad m]

/-- Makes a request; `f` tells its error in the words of the caller, such as which file could not be
created. -/
def request {ε α : Type} (f : IoError → ε) (r : m (Except IoError α)) : ExceptT ε m α :=
  ExceptT.mk do return (← r).mapError f

variable [FileAccess m]

/-- Makes a directory, unless there is one. The error is that of the request, also where it is the
question behind it that told that there is none. `makeDirectories` calls it for each directory. -/
def ensureDirectory (path : String) : ExceptT IoError m Unit :=
  tryCatch (request id (FileAccess.makeDirectory path)) fun e => do
    if ← ExceptT.lift (FileAccess.isDirectory path) then return () else throw e

/-- Makes the first of the given directories, unless there is one. Where the directory above it is
missing, that one, which is the next of them, is made before it. Each directory is tried first and
asked about only when that fails. The recursion is on the list of directories, the innermost
first. -/
def ensureNested : List String → ExceptT IoError m Unit
  | [] => return ()
  | path :: above =>
    tryCatch (ensureDirectory path) fun e => do
      if e = .notFound then
        ensureNested above
        ensureDirectory path
      else throw e

/-- Makes a directory and the missing ones above it. One that exists is left as it is, and an empty
path is none at all. `Path.parents` lists those above. -/
def makeDirectories (path : String) : ExceptT IoError m Unit :=
  if path = "" then return () else ensureNested (path :: Path.parents path)

end

/-! ### Trees -/

namespace FileTree

/-- A request that changes the tree if it is granted. It is refused if a fault meets it, and if `f`
refuses it; in both cases the tree is as it was, but for the fault, which has met its request. -/
def change {α : Type} (f : FileTree → Except IoError (FileTree × α)) :
    StateM FileTree (Except IoError α) :=
  fun t =>
    let fault := t.faults.head?.join
    let t := { t with faults := t.faults.tail }
    match fault with
    | some e => (.error e, t)
    | none =>
      match f t with
      | .ok (t, a) => (.ok a, t)
      | .error e => (.error e, t)

/-- A question. To a program that asks one, a fault is no different from a negative answer.
`pathExists` and `isDirectory` are asked in this way. -/
def ask (f : FileTree → Bool) : StateM FileTree Bool :=
  (fun answer => answer.toOption.getD false) <$> change fun t => .ok (t, f t)

/-- Each request meets one of the faults, so that any of them can fail, whatever it asks for. The
instance is what statements about commands are evaluated in. -/
instance : FileAccess (StateM FileTree) where
  Handle := Handle
  pathExists path := ask fun t => t.pathExists path
  read path := change fun t => (t, ·) <$> t.read path
  create path := change fun t => t.create path
  write h text := change fun t => t.write h text
  isDirectory path := ask fun t => t.isDirectory path
  makeDirectory path := change fun t => (·, ()) <$> t.makeDirectory path
  remove path := change fun t => (·, ()) <$> t.remove path

end FileTree

end WebOfTrust
