import HeaderOutline.Counts
import HeaderOutline.Document
import HeaderOutline.Json.Writer
import HeaderOutline.SyntaxError
import HeaderOutline.TempFile
/-!
# Conversion

Reads a header, describes it, and writes the description. A conversion that fails leaves the previous
output as it was.
-/

namespace HeaderOutline

/-- Why a header was not converted. -/
inductive HeaderError where
  | read (path : Text) (fault : Fault)
  | parse (path : Text) (error : SyntaxError)
  | serialize (path : Text)
  | write (path output : Text) (fault : Fault)
  | outputLocation (fault : Fault)
  deriving DecidableEq, Repr

namespace HeaderError

def message : HeaderError → Text
  | .read path _ => "cannot read ".toList ++ path
  | .parse path error => "cannot parse ".toList ++ path ++ ": ".toList ++ error.message
  | .serialize path => "cannot serialize the declarations of ".toList ++ path
  | .write path output _ => "cannot write the description of ".toList ++ path ++ " to ".toList ++ output
  | .outputLocation _ => "cannot locate the directory of the running executable".toList

/-- What lies behind the error. -/
def cause? : HeaderError → Option Text
  | .read _ fault | .write _ _ fault | .outputLocation fault => some fault.message
  | .parse _ _ | .serialize _ => none

end HeaderError

namespace Header

/-- Reads a whole header with all levels of nesting free. -/
def parse (path source : Text) : Except HeaderError Header :=
  match header nestingLimit source with
  | .ok header [] => .ok header
  | .ok _ rest => .error (.parse path (SyntaxError.locate source rest "end of input".toList))
  | .mismatch trace | .failure trace => .error (.parse path (SyntaxError.ofTrace source trace))

/-- The text of the file that describes the header. -/
def write (header : Header) (path : Text) (layout : Json.Layout) : Text := (header.document path).write layout

end Header

namespace Conversion

/-- The name of the output when none is given. -/
def defaultOutputName : Text := "data.json".toList

/-- Without an output path the description goes next to the executable. -/
def defaultOutput (executable : Text) : Text := FileStore.directoryPath executable ++ '/' :: defaultOutputName

structure Options where
  input : Text
  output : Text
  layout : Json.Layout
  deriving DecidableEq, Repr

/-- Options with the default output where none is given. -/
def Options.new (executable input : Text) (output : Option Text) (layout : Json.Layout) : Options where
  input := input
  output := output.getD (defaultOutput executable)
  layout := layout

structure Summary where
  output : Text
  /-- The size of the output. -/
  bytes : Nat
  counts : Counts
  deriving DecidableEq, Repr

/-- A description, ready to be written. -/
structure Description where
  contents : Bytes
  counts : Counts

/-- Describes a header from the bytes of its file. -/
def describe (path : Text) (layout : Json.Layout) (bytes : Bytes) : Except HeaderError Description := do
  let header ← Header.parse path (Text.Utf8.decode bytes)
  .ok
    { contents := Text.Utf8.encode (header.write path layout)
      counts := Counts.ofScope header.scope }

/-- The text of the header at `path`. -/
def readHeader (store : FileStore) (path : Text) : Except HeaderError Text :=
  match store.read path with
  | .ok bytes => .ok (Text.Utf8.decode bytes)
  | .error fault => .error (.read path fault)

/-- Replaces the output file. `path` is only named in the error. -/
def writeOutput (store : FileStore) (temp : TempFiles) (path output : Text) (contents : Bytes) :
    Except HeaderError Unit × FileStore :=
  match temp.replace store output contents with
  | (.ok (), store) => (.ok (), store)
  | (.error fault, store) => (.error (.write path output fault), store)

/-- A whole conversion, with the store that it leaves. -/
def convert (store : FileStore) (temp : TempFiles) (options : Options) :
    Except HeaderError Summary × FileStore :=
  match store.read options.input with
  | .error fault => (.error (.read options.input fault), store)
  | .ok bytes =>
    match describe options.input options.layout bytes with
    | .error error => (.error error, store)
    | .ok description =>
      match writeOutput store temp options.input options.output description.contents with
      | (.error error, store) => (.error error, store)
      | (.ok (), store) =>
        (.ok
          { output := options.output
            bytes := description.contents.length
            counts := description.counts },
         store)

end Conversion

end HeaderOutline
