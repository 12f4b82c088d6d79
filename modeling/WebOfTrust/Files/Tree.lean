import WebOfTrust.Files.Path
import WebOfTrust.Stream
import WebOfTrust.Table

/-!
# `WebOfTrust.Files.Tree`: a file system as a value

A `FileTree` holds files and directories under the names that lead to them from the root, and the
directory in which relative paths start. Its operations find a path step by step, so that a missing
directory and a file in the place of a directory are told apart.

A system can also refuse what the tree would allow, because a permission is missing, a disk is full
or a device is broken. Which of the requests to come are refused is part of the tree
(`FileTree.faults`), so that what holds of all trees holds whatever fails, and whenever it does.

- `FileTree.place`: where a path leads;
- `FileTree.entryAt_insert`: what is found after a change;
- `FileTree.read`, `create`, `write`, `remove`: what is done with a file;
- `FileTree.makeDirectory`: a directory in one that exists;
- `FileTree.listing`: all that there is.
-/

set_option autoImplicit false

namespace WebOfTrust

/-- What a name stands for. Two devices are told apart from files, because a write to them does not
change what they hold. Only `file` has contents. -/
inductive FileEntry where
  | file (bytes : List UInt8)
  | directory
  /-- A device that takes what is written to it and delivers nothing. -/
  | nullDevice
  /-- A device that takes nothing. What it delivers has no end, and is left out here. -/
  | fullDevice
  deriving DecidableEq, Repr

/-- What a reader of an entry delivers. A directory can be opened, but not read: its `Source` fails
before the first byte. -/
def FileEntry.source : FileEntry → Source
  | file bytes => ⟨bytes, none⟩
  | directory => ⟨[], some .isADirectory⟩
  | nullDevice => ⟨[], none⟩
  | fullDevice => ⟨[], none⟩

/-- A file system as a program sees it: what there is, where relative paths start, and what is going
to fail. The field for faults lets any request fail, whatever the tree is. -/
structure FileTree where
  /-- What there is below the root, under the names that lead to it. -/
  entries : Table (List String) FileEntry := ∅
  /-- The names that lead to the current directory. -/
  current : List String := []
  /-- What meets the requests to come, one after the other: an error with which the system refuses a
  request whatever it asks for, or nothing. Behind the last of them nothing does. -/
  faults : List (Option IoError) := []
  deriving DecidableEq, Inhabited

namespace FileTree

/-! ### Where a path leads -/

/-- What there is at a place; the root is a directory. It is the one question by which the rest of
the tree is asked. `entryAt_insert` says how it changes. -/
def entryAt (t : FileTree) (place : List String) : Option FileEntry :=
  if place = [] then some .directory else t.entries.find? place

/-- The place to which one step leads. The step `..` leads up from any place, also from one that is
no directory, which `walk` sees to. -/
def step (place : List String) (name : String) : List String :=
  if name = "." then place
  else if name = ".." then place.dropLast
  else place ++ [name]

/-- The place to which steps lead. Each of them is taken from a directory, which knows no name that
is too long. The errors tell a missing directory (`IoError.notFound`) from a file in its place
(`IoError.notADirectory`). -/
def walk (t : FileTree) (place : List String) : List String → Except IoError (List String)
  | [] => .ok place
  | name :: rest =>
    match t.entryAt place with
    | some .directory =>
      if name.utf8ByteSize ≤ Path.nameLimit then t.walk (step place name) rest
      else .error .nameTooLong
    | some _ => .error .notADirectory
    | none => .error .notFound

/-- The place to which steps lead that are taken where a path starts. What is wrong with the path
itself is found before any step is taken. `current` is where a relative path starts. -/
def follow (t : FileTree) (path : String) (steps : List String) : Except IoError (List String) :=
  if '\x00' ∈ path.toList then .error .nulInPath
  else if path = "" then .error .notFound
  else if Path.limit < path.utf8ByteSize then .error .nameTooLong
  else t.walk (if Path.isAbsolute path then [] else t.current) steps

/-- The place to which a path leads. There need not be anything, as a file that is created is not
there yet. `find` asks what is there. -/
def place (t : FileTree) (path : String) : Except IoError (List String) :=
  t.follow path (Path.steps path)

/-- The place of the directory in which the last step of a path is taken. The step `.` behind it
makes `walk` ask whether it is one. -/
def placeAbove (t : FileTree) (path : String) : Except IoError (List String) :=
  t.follow path ((Path.steps path).dropLast ++ ["."])

/-- What there is under a path. A path that ends with a separator leads to a directory or nowhere.
The error of `follow` is passed on. -/
def find (t : FileTree) (path : String) : Except IoError FileEntry := do
  let place ← t.place path
  match t.entryAt place with
  | none => .error .notFound
  | some .directory => return .directory
  | some entry => if Path.endsWithSeparator path then .error .notADirectory else return entry

/-- Whether there is something under a path. That it cannot be told, for whatever reason, counts as
no. It is what `Configuration.load` asks. -/
def pathExists (t : FileTree) (path : String) : Bool := (t.find path).isOk

/-- Whether there is a directory under a path, which is what a program asks when it could not make
one. A path that cannot be followed leads to none. -/
def isDirectory (t : FileTree) (path : String) : Bool :=
  match t.find path with
  | .ok .directory => true
  | _ => false

/-! ### Files -/

/-- Opens a file for reading. What the file holds then is what the `Source` delivers, whatever is
written to it later. -/
def read (t : FileTree) (path : String) : Except IoError Source :=
  (t.find path).map FileEntry.source

/-- The tree with an entry at a place. Neither the current directory nor `faults` change. -/
def insert (t : FileTree) (place : List String) (entry : FileEntry) : FileTree :=
  { t with entries := t.entries.insert place entry }

/-- An insertion is seen at its own place and at no other. The root is left out, because it is no
entry. `Table.find?_insert` is behind it. -/
theorem entryAt_insert (t : FileTree) (place other : List String) (entry : FileEntry)
    (h : other ≠ []) :
    (t.insert place entry).entryAt other =
      if other = place then some entry else t.entryAt other := by
  simp [entryAt, insert, h, Table.find?_insert]

/-- A file that has been opened for writing, and how much has been written through the opening. It
names the place of the file and not its path, so it goes on to write there. `write` takes one and
returns the next. -/
structure Handle where
  place : List String
  offset : Nat := 0
  deriving DecidableEq, Repr, Inhabited

/-- Opens a file for writing: creates it without contents, or takes the contents of one away.
This is how an artifact of an earlier run is lost. A device stays as it is, and a directory is
refused. -/
def create (t : FileTree) (path : String) : Except IoError (FileTree × Handle) := do
  if Path.endsWithSeparator path then
    -- The last name is not looked up, because a file is never made under such a path.
    let _ ← t.placeAbove path
    .error .isADirectory
  else
    let place ← t.place path
    match t.entryAt place with
    | some .directory => .error .isADirectory
    | some .nullDevice | some .fullDevice => return (t, { place })
    | _ => return (t.insert place (.file []), { place })

/-- The bytes with others in place of those from `offset` on, as many as there are. A gap behind the
end is filled with zeros, as when the file was emptied by somebody else. -/
def splice (old : List UInt8) (offset : Nat) (bytes : List UInt8) : List UInt8 :=
  old.take offset ++ List.replicate (offset - old.length) 0 ++ bytes ++
    old.drop (offset + bytes.length)

/-- Writes a text behind what was written through the same opening. It lies over what the file holds
there, which matters if two writers have the same file open. The `Handle` that is returned stands
behind the new text. -/
def write (t : FileTree) (h : Handle) (text : String) : Except IoError (FileTree × Handle) :=
  let bytes := Text.Utf8.encode text.toList
  let further := { h with offset := h.offset + bytes.length }
  match t.entryAt h.place with
  | some (.file old) => .ok (t.insert h.place (.file (splice old h.offset bytes)), further)
  | some .fullDevice => .error .noSpaceLeft
  | _ => .ok (t, further)

/-- Removes a file. A directory is not removed in this way, and neither is what is not there. A path
with a separator at its end is looked up by `find` like any other. -/
def remove (t : FileTree) (path : String) : Except IoError FileTree := do
  let place ← t.place path
  match ← t.find path with
  | .directory => .error .isADirectory
  | _ => return { t with entries := t.entries.filterKeys (· ≠ place) }

/-! ### Directories -/

/-- Makes a directory in one that exists. If there is something already, that is an error, of
whatever kind it is. The directory above is looked up by `place`. -/
def makeDirectory (t : FileTree) (path : String) : Except IoError FileTree := do
  let place ← t.place path
  match t.entryAt place with
  | some _ => .error .alreadyExists
  | none => return t.insert place .directory

/-! ### Whole trees -/

/-- The tree with directories at a place and at all places above it. In contrast to `makeDirectory`
this is no request, but a way to write down a tree. -/
def addDirectory (t : FileTree) (place : List String) : FileTree :=
  ((List.range place.length).map fun n => place.take (n + 1)).foldl
    (fun t above => t.insert above .directory) t

/-- The tree with a file at a place, and with the directories above it. Like `addDirectory` it
serves to write down a tree. -/
def addFile (t : FileTree) (place : List String) (bytes : List UInt8) : FileTree :=
  (t.addDirectory place.dropLast).insert place (.file bytes)

/-- The name of an entry in a listing; that of a directory ends with a separator. So an empty
directory is told from an empty file. -/
def listedName (names : List String) (entry : FileEntry) : String :=
  Text.ofFields '/' names ++ if entry = .directory then "/" else ""

/-- All that there is below the current directory, in the order of the names. It tells what a run of
the program has left behind. Tests of commands compare it. -/
def listing (t : FileTree) : List String :=
  (t.entries.entries.filterMap fun (place, entry) =>
    if t.current.isPrefixOf place ∧ place ≠ t.current then
      some (listedName (place.drop t.current.length) entry)
    else none).mergeSort fun a b => a ≤ b

end FileTree

end WebOfTrust
