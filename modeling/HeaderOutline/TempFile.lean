import HeaderOutline.FileStore
/-!
# Temporary files

A file is replaced through a temporary file beside it, so that a fault at any step leaves what was there
before. The library for temporary files is a parameter: `TempFiles` are its operations.
-/

namespace HeaderOutline

/-- Operations on temporary files, each with the store that it leaves, also at a fault. -/
structure TempFiles where
  /-- Opens a fresh file in a directory. -/
  create : FileStore → (directory : Location) → Except Fault Location × FileStore
  write : FileStore → (file : Location) → Bytes → Except Fault Unit × FileStore
  flush : FileStore → (file : Location) → Except Fault Unit × FileStore
  /-- Moves the file to `target`, where it takes the place of what stands there. -/
  persist : FileStore → (file target : Location) → Except Fault Unit × FileStore
  /-- What becomes of a file that is not moved. -/
  drop : FileStore → (file : Location) → FileStore

namespace TempFiles

/-- The steps on the temporary file. -/
def fill (temp : TempFiles) (store : FileStore) (file target : Location) (contents : Bytes) :
    Except Fault Unit × FileStore :=
  match temp.write store file contents with
  | (.error fault, written) => (.error fault, written)
  | (.ok (), written) =>
    match temp.flush written file with
    | (.error fault, flushed) => (.error fault, flushed)
    | (.ok (), flushed) => temp.persist flushed file target

/-- Gives the file at `path` new contents: they are written to a fresh file in the same directory, which
then takes the place of the old one. At a fault the fresh file is dropped. -/
def replace (temp : TempFiles) (store : FileStore) (path : Text) (contents : Bytes) :
    Except Fault Unit × FileStore :=
  match store.target path with
  | .error fault => (.error fault, store)
  | .ok (directory, name) =>
    match temp.create store directory with
    | (.error fault, created) => (.error fault, created)
    | (.ok file, created) =>
      match temp.fill created file (directory ++ [name]) contents with
      | (.error fault, filled) => (.error fault, temp.drop filled file)
      | (.ok (), filled) => (.ok (), filled)

end TempFiles

namespace FileStore

/-- The steps in which a file is replaced. -/
inductive ReplaceStep where
  | create | write | flush | persist
  deriving DecidableEq, Repr

/-- Faults from outside, such as a full disk, by the step that meets them. -/
abbrev Faults := ReplaceStep → Option Fault

/-- A name that nothing in the store has: it is longer than all names there together. -/
def freshName (store : FileStore) : Text :=
  ".tmp".toList ++ List.replicate (store.entries.flatMap fun entry => entry.1.flatten).length 'x'

/-- Temporary files of a system in which some steps meet a fault. -/
def tempFiles (faults : Faults) : TempFiles where
  create store directory :=
    match faults .create with
    | some fault => (.error fault, store)
    | none => (.ok (directory ++ [store.freshName]), store.put (directory ++ [store.freshName]) (.file []))
  write store file contents :=
    match faults .write, store.get? file with
    | some fault, _ => (.error fault, store)
    | none, some (.file earlier) => (.ok (), store.put file (.file (earlier ++ contents)))
    | none, _ => (.error .notFound, store)
  flush store _ :=
    match faults .flush with
    | some fault => (.error fault, store)
    | none => (.ok (), store)
  persist store file target :=
    match faults .persist, store.get? target, store.get? file with
    | some fault, _, _ => (.error fault, store)
    | none, some .directory, _ => (.error .isADirectory, store)
    | none, _, some (.file contents) => (.ok (), (store.remove file).put target (.file contents))
    | none, _, _ => (.error .notFound, store)
  drop store file := store.remove file

def noFaults : TempFiles := tempFiles fun _ => none

end FileStore

end HeaderOutline
