import HeaderOutline.Text.Utf8
/-!
# File stores

The files and directories of a system as a run sees them from its working directory, and the faults that
access to them can meet.
-/

namespace HeaderOutline

/-- Why an access to a file did not succeed. -/
inductive Fault where
  | notFound | denied | exists | notADirectory | isADirectory | nameTooLong
  /-- The path holds the zero character, which ends a path for the system. -/
  | zeroInPath
  | other (text : Text)
  deriving DecidableEq, Repr

def Fault.message : Fault → Text
  | .notFound => "No such file or directory (os error 2)".toList
  | .denied => "Permission denied (os error 13)".toList
  | .exists => "File exists (os error 17)".toList
  | .notADirectory => "Not a directory (os error 20)".toList
  | .isADirectory => "Is a directory (os error 21)".toList
  | .nameTooLong => "File name too long (os error 36)".toList
  | .zeroInPath => "file name contained an unexpected NUL byte".toList
  | .other text => text

abbrev Bytes := List UInt8

/-- The names that lead from the root to a place. -/
abbrev Location := List Text

inductive Node where
  | directory
  | file (contents : Bytes)
  deriving DecidableEq, Repr

/-- What is known of each place. Of several entries for one place the first counts. -/
structure FileStore where
  entries : List (Location × Node)
  /-- Where paths begin that do not begin with a slash. -/
  workingDirectory : Location
  deriving DecidableEq, Repr

namespace FileStore

/-- A system with nothing in it but an empty working directory and those around it. -/
def startingIn (place : Location) : FileStore where
  entries := (List.range place.length).map fun n => (place.take (n + 1), .directory)
  workingDirectory := place

/-- What stands at the place. The root is always there. -/
def get? (store : FileStore) (location : Location) : Option Node :=
  if location.isEmpty then some .directory else store.entries.lookup location

def put (store : FileStore) (location : Location) (node : Node) : FileStore :=
  { store with entries := (location, node) :: store.entries.filter fun entry => entry.1 != location }

def remove (store : FileStore) (location : Location) : FileStore :=
  { store with entries := store.entries.filter fun entry => entry.1 != location }

/-- Longest path, in bytes. -/
def pathLimit : Nat := 4095

/-- Longest name in a path, in bytes. -/
def nameLimit : Nat := 255

/-- The names between the slashes of a path. -/
def components (path : Text) : List Text := path.splitOn '/'

/-- Follows the names from a place on. Each name is looked up in a directory that has to exist. The
directory above the root is the root. -/
def follow (store : FileStore) (location : Location) : List Text → Except Fault Location
  | [] => .ok location
  | name :: names =>
    match store.get? location with
    | none => .error .notFound
    | some (.file _) => .error .notADirectory
    | some .directory =>
      if name = [] ∨ name = ['.'] then follow store location names
      else if name = ['.', '.'] then follow store location.dropLast names
      else if nameLimit < name.byteSize then .error .nameTooLong
      else follow store (location ++ [name]) names

/-- Where a path begins, and its names. -/
def route (store : FileStore) (path : Text) : Except Fault (Location × List Text) :=
  if path.isEmpty then .error .notFound
  else if path.contains '\x00' then .error .zeroInPath
  else if pathLimit < path.byteSize then .error .nameTooLong
  else .ok (if path.head? == some '/' then [] else store.workingDirectory, components path)

/-- The place that a path leads to. Nothing has to stand there yet. -/
def resolve (store : FileStore) (path : Text) : Except Fault Location := do
  let (start, names) ← store.route path
  store.follow start names

def read (store : FileStore) (path : Text) : Except Fault Bytes := do
  let location ← store.resolve path
  match store.get? location with
  | some (.file contents) => .ok contents
  | some .directory => .error .isADirectory
  | none => .error .notFound

/-- Creates the file, or gives it new contents. -/
def write (store : FileStore) (path : Text) (contents : Bytes) : Except Fault FileStore := do
  let location ← store.resolve path
  match store.get? location with
  | some .directory => .error .isADirectory
  | _ => .ok (store.put location (.file contents))

/-- Creates a directory where nothing stands. -/
def makeDirectory (store : FileStore) (path : Text) : Except Fault FileStore := do
  let location ← store.resolve (Text.dropTail (· == '/') path)
  match store.get? location with
  | some _ => .error .exists
  | none => .ok (store.put location .directory)

/-- The order of names by code points. -/
def nameLE : Text → Text → Bool
  | [], _ => true
  | _ :: _, [] => false
  | a :: s, b :: t => if a = b then nameLE s t else a.toNat ≤ b.toNat

/-- The names of what stands in a directory, in order. -/
def list (store : FileStore) (path : Text) : Except Fault (List Text) := do
  let location ← store.resolve path
  match store.get? location with
  | some .directory =>
    let names := store.entries.filterMap fun (place, _) =>
      if place.dropLast = location then place.getLast? else none
    .ok (names.mergeSort nameLE)
  | some (.file _) => .error .notADirectory
  | none => .error .notFound

/-- A path, last character first, without the slashes and `.` names at its end. -/
def dropOwnNames : Text → Text
  | '/' :: path => dropOwnNames path
  | '.' :: '/' :: path => dropOwnNames path
  | path => path

/-- The path of the directory that a path names a file of. It is empty for the working directory, and for
the root. -/
def directoryPath (path : Text) : Text := (dropOwnNames ((path.reverse.dropWhile (· != '/')).drop 1)).reverse

/-- Length of the name of a temporary file. -/
def freshNameLength : Nat := 10

/-- Size of the path from the root to a temporary file beside the one at `path`. -/
def freshPathSize (store : FileStore) (path : Text) : Nat :=
  let start : Location := if path.head? == some '/' then [] else store.workingDirectory
  (Text.join ['/'] (start ++ [directoryPath path])).byteSize + freshNameLength + 2

/-- The directory and the name of the file that a path names. There has to be room in a path for that of a
temporary file beside it. -/
def target (store : FileStore) (path : Text) : Except Fault (Location × Text) := do
  let (start, names) ← store.route path
  let directory ← store.follow start names.dropLast
  match store.get? directory, names.getLast? with
  | some .directory, some name =>
    if name = [] ∨ name = ['.'] ∨ name = ['.', '.'] then .error .isADirectory
    else if nameLimit < name.byteSize ∨ pathLimit < store.freshPathSize path then .error .nameTooLong
    else .ok (directory, name)
  | some (.file _), _ => .error .notADirectory
  | _, _ => .error .notFound

end FileStore

end HeaderOutline
