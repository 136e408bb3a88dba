import HeaderOutline.Conversion
/-!
# The command line

Arguments, and what a run prints. Options may stand anywhere in front of `--`; short options may be written
together, and the value of an option behind it or attached to it.
-/

namespace HeaderOutline.CommandLine

def programName : Text := "hdrjson".toList

def version : Text := "0.1.0".toList

inductive OptionName where
  | output | compact | verbose
  deriving DecidableEq, Repr

def OptionName.text : OptionName → Text
  | .output => "--output <PATH>".toList
  | .compact => "--compact".toList
  | .verbose => "--verbose".toList

/-- Why arguments make no request. -/
inductive UsageError where
  | missingHeader
  | emptyHeader
  | missingValue (option : OptionName)
  | unexpectedValue (option : Text)
  | repeated (option : OptionName)
  | unexpectedArgument (argument : Text)
  deriving DecidableEq, Repr

namespace UsageError

def reason : UsageError → Text
  | .missingHeader => "the following required arguments were not provided:\n  <HEADER>".toList
  | .emptyHeader => "a value is required for '<HEADER>' but none was supplied".toList
  | .missingValue option => "a value is required for '".toList ++ option.text ++ "' but none was supplied".toList
  | .unexpectedValue option => "unexpected value for '".toList ++ option ++ "' found".toList
  | .repeated option => "the argument '".toList ++ option.text ++ "' cannot be used multiple times".toList
  | .unexpectedArgument argument => "unexpected argument '".toList ++ argument ++ "' found".toList

def message (error : UsageError) : Text :=
  "error: ".toList ++ error.reason ++ "\n\nUsage: hdrjson [OPTIONS] <HEADER>\n\n".toList
    ++ "For more information, try '--help'.\n".toList

end UsageError

def helpLines : List String :=
  ["Describe the declarations of a C/C++ header file as JSON",
   "",
   "Usage: hdrjson [OPTIONS] <HEADER>",
   "",
   "Arguments:",
   "  <HEADER>  Header file to describe",
   "",
   "Options:",
   "  -o, --output <PATH>  Output file [default: data.json next to the executable]",
   "      --compact        Write the JSON on a single line",
   "  -v, --verbose        Enable verbose output",
   "  -h, --help           Print help",
   "  -V, --version        Print version"]

def helpText : Text := helpLines.flatMap fun line => line.toList ++ ['\n']

/-- What the arguments so far have set. -/
structure Settings where
  header : Option Text := none
  output : Option Text := none
  isCompact : Bool := false
  isVerbose : Bool := false
  deriving DecidableEq, Repr

namespace Settings

def setCompact (settings : Settings) : Except UsageError Settings :=
  if settings.isCompact then .error (.repeated .compact) else .ok { settings with isCompact := true }

def setVerbose (settings : Settings) : Except UsageError Settings :=
  if settings.isVerbose then .error (.repeated .verbose) else .ok { settings with isVerbose := true }

def setOutput (settings : Settings) (path : Text) : Except UsageError Settings :=
  if settings.output.isSome then .error (.repeated .output)
  else if path.isEmpty then .error (.missingValue .output)
  else .ok { settings with output := some path }

def setHeader (settings : Settings) (path : Text) : Except UsageError Settings :=
  if settings.header.isSome then .error (.unexpectedArgument path)
  else if path.isEmpty then .error .emptyHeader
  else .ok { settings with header := some path }

end Settings

inductive Request where
  | help
  | version
  | convert (header : Text) (settings : Settings)
  deriving DecidableEq, Repr

/-- What an argument makes of the settings. -/
inductive Step where
  | next (settings : Settings)
  /-- The next argument is the output path. -/
  | wantsOutput (settings : Settings)
  | done (request : Request)

/-- A word behind two dashes, with the value attached to it. -/
def longOption (settings : Settings) (word : Text) : Except UsageError Step :=
  let name := word.takeWhile (· != '=')
  let value? := if word.contains '=' then some ((word.dropWhile (· != '=')).drop 1) else none
  let flag (step : Except UsageError Step) : Except UsageError Step :=
    if value?.isSome then .error (.unexpectedValue ("--".toList ++ name)) else step
  if name = "output".toList then
    match value? with
    | some path => .next <$> settings.setOutput path
    | none => .ok (.wantsOutput settings)
  else if name = "compact".toList then flag (.next <$> settings.setCompact)
  else if name = "verbose".toList then flag (.next <$> settings.setVerbose)
  else if name = "help".toList then flag (.ok (.done .help))
  else if name = "version".toList then flag (.ok (.done .version))
  else .error (.unexpectedArgument ("--".toList ++ name))

/-- The letters behind one dash. An equals sign may stand in front of an attached path. -/
def shortOptions (settings : Settings) : Text → Except UsageError Step
  | [] => .ok (.next settings)
  | 'v' :: letters => do shortOptions (← settings.setVerbose) letters
  | 'h' :: _ => .ok (.done .help)
  | 'V' :: _ => .ok (.done .version)
  | ['o'] => .ok (.wantsOutput settings)
  | 'o' :: '=' :: path => .next <$> settings.setOutput path
  | 'o' :: path => .next <$> settings.setOutput path
  | letter :: _ => .error (.unexpectedArgument ['-', letter])

/-- The request that complete settings make. -/
def Settings.request (settings : Settings) : Except UsageError Request :=
  match settings.header with
  | some header => .ok (.convert header settings)
  | none => .error .missingHeader

/-- Arguments that are no options. -/
def positional (settings : Settings) : List Text → Except UsageError Request
  | [] => settings.request
  | argument :: arguments => do positional (← settings.setHeader argument) arguments

/-- An argument that is read as an option. A single dash is none. -/
def isOption (argument : Text) : Bool := argument.head? == some '-' && 1 < argument.length

/-- An argument in front of `--`. -/
def argumentStep (settings : Settings) : Text → Except UsageError Step
  | '-' :: '-' :: word => longOption settings word
  | '-' :: letter :: letters => shortOptions settings (letter :: letters)
  | argument => .next <$> settings.setHeader argument

/-- Reads the arguments in order. The first fault, or a request for help, ends the reading. With `wantsPath`
the next argument is the output path. -/
def parse (settings : Settings) (wantsPath : Bool) : List Text → Except UsageError Request
  | [] => if wantsPath then .error (.missingValue .output) else settings.request
  | argument :: arguments =>
    if wantsPath then
      if isOption argument then .error (.missingValue .output)
      else do parse (← settings.setOutput argument) false arguments
    else if argument = ['-', '-'] then positional settings arguments
    else do
      match ← argumentStep settings argument with
      | .done request => .ok request
      | .next settings => parse settings false arguments
      | .wantsOutput settings => parse settings true arguments

/-- What a run leaves: its exit status and what it prints. -/
structure Report where
  status : Nat
  output : Text
  errors : Text
  deriving DecidableEq, Repr

/-- A text whose further lines are indented like its first. -/
def indented (first further text : Text) : Text :=
  first ++ text.flatMap fun c => if c = '\n' then '\n' :: further else [c]

/-- The report of a failed conversion: the error, and what lies behind it. -/
def failureText (path : Text) (error : HeaderError) : Text :=
  let pad (width : Nat) : Text := List.replicate width ' '
  "Error: Failed to convert ".toList ++ path ++ "\n\nCaused by:\n".toList
    ++ (match error.cause? with
      | none => indented (pad 4) (pad 4) error.message
      | some cause =>
        indented (pad 4 ++ "0: ".toList) (pad 7) error.message ++ '\n'
          :: indented (pad 4 ++ "1: ".toList) (pad 7) cause)
    ++ ['\n']

def successText (path : Text) (summary : Conversion.Summary) : Text :=
  "✓ ".toList ++ path ++ " -> ".toList ++ summary.output ++ " (".toList ++ summary.counts.message ++ ")\n".toList

/-- What a run logs before its result: in verbose runs where it reads and writes, and in all runs that
bytes of the header had to be replaced. -/
def logText (isVerbose : Bool) (options : Conversion.Options) (bytes? : Option Bytes) : Text :=
  let replaced := bytes?.any fun bytes => Text.Utf8.encode (Text.Utf8.decode bytes) != bytes
  (if isVerbose then
      " INFO converting header input=".toList ++ options.input ++ " output=".toList ++ options.output ++ ['\n']
    else [])
    ++ if replaced then
        " WARN header is not valid UTF-8, replacing invalid bytes path=".toList ++ options.input ++ ['\n']
      else []

/-- The report of a conversion with its log. -/
def report (log path : Text) : Except HeaderError Conversion.Summary → Report
  | .ok summary => { status := 0, output := successText path summary, errors := log }
  | .error error => { status := 1, output := [], errors := log ++ failureText path error }

def Settings.options (settings : Settings) (executable header : Text) : Conversion.Options :=
  Conversion.Options.new executable header settings.output (if settings.isCompact then .compact else .pretty)

/-- The report of a request that converts nothing. -/
def answer : Except UsageError Request → Option Report
  | .error error => some { status := 1, output := [], errors := error.message }
  | .ok .help => some { status := 0, output := helpText, errors := [] }
  | .ok .version => some { status := 0, output := programName ++ ' ' :: version ++ ['\n'], errors := [] }
  | .ok (.convert _ _) => none

/-- A whole run in the working directory that `store` describes. -/
def run (executable : Text) (store : FileStore) (arguments : List Text) : Report × FileStore :=
  match parse {} false arguments with
  | .ok (.convert header settings) =>
    let options := settings.options executable header
    let (result, after) := Conversion.convert store FileStore.noFaults options
    (report (logText settings.isVerbose options (store.read header).toOption) header result, after)
  | request => ((answer request).getD { status := 1, output := [], errors := [] }, store)

end HeaderOutline.CommandLine
