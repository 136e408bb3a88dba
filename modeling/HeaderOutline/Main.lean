import HeaderOutline.CommandLine
/-!
# The program

Runs the command line on real files: the library decides, and this module reads and writes.
-/

open HeaderOutline

namespace HeaderOutline.Program

/-- The fault that an operating system error stands for. -/
def faultOf : IO.Error → Fault
  | .noFileOrDirectory .. => .notFound
  | .permissionDenied .. => .denied
  | .alreadyExists .. => .exists
  | .inappropriateType _ code details =>
    if code = 20 ∨ code = 0 - 20 then .notADirectory
    else if code = 21 ∨ code = 0 - 21 then .isADirectory
    else .other details.toList
  | .invalidArgument _ code details =>
    if code = 36 ∨ code = 0 - 36 then .nameTooLong else .other details.toList
  | error => .other error.toString.toList

/-- Runs an action, and turns what it throws into a fault. -/
def attempt {α : Type} (action : IO α) : IO (Except Fault α) := do
  try return .ok (← action)
  catch error => return .error (faultOf error)

/-- The directory that a path names a file of, ready to be put in front of a name. -/
def directoryInFront (path : Text) : Text :=
  if path.contains '/' then FileStore.directoryPath path ++ ['/'] else []

/-- Opens a file that was not there, trying one name after the other. -/
def createFresh (directory : Text) : (attempts : Nat) → IO (String × IO.FS.Handle)
  | 0 => throw (.userError "no name for a temporary file is free")
  | attempts + 1 => do
    let name := String.ofList (directory ++ ".tmp".toList ++ Text.ofNat (← IO.rand 0 999999999))
    match ← attempt (IO.FS.Handle.mk name .writeNew) with
    | .ok handle => return (name, handle)
    | .error .exists => createFresh directory attempts
    | .error fault => throw (.userError (String.ofList fault.message))

/-- Gives the file new contents through a temporary file beside it, which is removed at a fault. -/
def replaceFile (path : Text) (contents : Bytes) : IO Unit := do
  let (name, handle) ← createFresh (directoryInFront path) 100
  try
    handle.write ⟨contents.toArray⟩
    handle.flush
    IO.FS.rename name (String.ofList path)
  catch error =>
    IO.FS.removeFile name
    throw error

/-- The conversion of real files. Tells also what the bytes of the header were. -/
def convertFiles (options : Conversion.Options) :
    IO (Except HeaderError Conversion.Summary × Option Bytes) := do
  match ← attempt (IO.FS.readBinFile (String.ofList options.input)) with
  | .error fault => return (.error (.read options.input fault), none)
  | .ok bytes =>
    let bytes := bytes.toList
    match Conversion.describe options.input options.layout bytes with
    | .error error => return (.error error, some bytes)
    | .ok description =>
      match ← attempt (replaceFile options.output description.contents) with
      | .error fault => return (.error (.write options.input options.output fault), some bytes)
      | .ok () =>
        return (.ok ⟨options.output, description.contents.length, description.counts⟩, some bytes)

/-- The report of a run with these arguments. -/
def run (arguments : List Text) : IO CommandLine.Report := do
  match CommandLine.parse {} false arguments with
  | .ok (.convert header settings) =>
    let executable := (← IO.appPath).toString.toList
    let options := settings.options executable header
    let (result, bytes?) ← convertFiles options
    return CommandLine.report (CommandLine.logText settings.isVerbose options bytes?) header result
  | request => return (CommandLine.answer request).getD { status := 1, output := [], errors := [] }

end HeaderOutline.Program

def main (arguments : List String) : IO UInt32 := do
  let report ← Program.run (arguments.map String.toList)
  (← IO.getStdout).putStr (String.ofList report.output)
  (← IO.getStderr).putStr (String.ofList report.errors)
  return report.status.toUInt32
