import LispReader.Document
import LispReader.Form.Outline
import LispReader.Form.Writer
import LispReader.FormStream

/-!
# The command

The command reads the forms of a file or of its standard input, shows them on
request, and counts them. With standard settings it reads everything before it
shows anything; otherwise, or when asked to be lazy, it shows each form as it is
read, so that what comes before an error is seen. What is done here does not touch
the outside: the input is given, and the output is a value.
-/

namespace LispReader

namespace Command

/-- What the command is asked to do. -/
structure Request where
  isLazy : Bool := false
  print : Bool := false
  outline : Bool := false
  settings : Settings := .standard
  path : String := "-"
  deriving DecidableEq, Repr

/-- What the command leaves behind. -/
structure Outcome where
  code : UInt32
  stdout : Text
  stderr : Text
  deriving DecidableEq, Repr

/-! ## Arguments -/

/-- Arguments taken in so far. -/
structure Arguments where
  request : Request := {}
  path : Option String := none
  deriving DecidableEq, Repr

/-- The number that decimal digits write. -/
def numberOf? (digits : Text) : Option Nat :=
  if digits ≠ [] && digits.all Char.isDigit then
    some (digits.foldl (fun n c => 10 * n + (c.toNat - '0'.toNat)) 0)
  else none

/-- A nesting limit as it is given on the command line: a number of 32 bits, which
may have a plus sign, and where zero means that there is no limit. -/
def depthOf? (argument : String) : Option Depth :=
  let digits :=
    match argument.toList with
    | '+' :: digits => digits
    | digits => digits
  match numberOf? digits with
  | some 0 => some none
  | some n => if n < 4294967296 then some (some n) else none
  | none => none

/-- Takes in a letter behind a single dash. -/
def Arguments.letter (a : Arguments) (c : Char) : Except String Arguments :=
  if c = 'l' then .ok { a with request.isLazy := true }
  else if c = 'd' then .ok { a with request.outline := true }
  else .error ("unexpected argument '-" ++ c.toString ++ "' found")

/-- Takes in a nesting limit. -/
def Arguments.maxDepth (a : Arguments) (argument : String) : Except String Arguments :=
  match depthOf? argument with
  | some depth => .ok { a with request.settings.depth := depth }
  | none => .error s!"invalid value '{argument}' for '--max-depth'"

/-- Takes in a path, of which there is only one. -/
def Arguments.file (a : Arguments) (path : String) : Except String Arguments :=
  match a.path with
  | none => .ok { a with path := some path }
  | some _ => .error s!"unexpected argument '{path}' found"

/-- Takes in arguments. -/
def Arguments.takeAll (a : Arguments) : List String → Except String Arguments
  | [] => .ok a
  | "--" :: paths => paths.foldlM Arguments.file a
  | "--lazy" :: args => takeAll { a with request.isLazy := true } args
  | "--print" :: args => takeAll { a with request.print := true } args
  | "--dump" :: args => takeAll { a with request.outline := true } args
  | "--no-shebang" :: args => takeAll { a with request.settings.allowShebang := false } args
  | "--max-depth" :: argument :: args =>
    match a.maxDepth argument with
    | .ok a => a.takeAll args
    | .error e => .error e
  | arg :: args =>
    let next :=
      match arg.toList with
      | ['-'] => a.file arg
      | '-' :: '-' :: option =>
        if "max-depth=".toList.isPrefixOf option then
          a.maxDepth (String.ofList (option.drop "max-depth=".length))
        else .error s!"unexpected argument '{arg}' found"
      | '-' :: letters => letters.foldlM Arguments.letter a
      | _ => a.file arg
    match next with
    | .ok a => a.takeAll args
    | .error e => .error e

/-- The request that arguments make. -/
def Request.ofArguments (args : List String) : Except String Request :=
  match ({} : Arguments).takeAll args with
  | .ok a =>
    match a.path with
    | some path => .ok { a.request with path }
    | none => .error "the following required arguments were not provided: <INPUT_PATH>"
  | .error e => .error e

/-! ## Execution -/

/-- The line with the number of forms. -/
def countLine (n : Nat) : Text := s!";; count_toplevel = {n}\n".toList

/-- What is left behind when an error ends the command. -/
def failure (stdout : Text) (message : String) : Outcome :=
  ⟨1, stdout, s!"Error: {message}\n".toList⟩

/-- Where a request reads from, for messages. -/
def Request.origin (r : Request) : Origin :=
  if r.path = "-" then .named "stdin" else .file r.path

/-- Reads everything, then shows it. -/
def runEager (r : Request) (input : ByteStream) : Option Outcome :=
  ((Grammar.standard .standard).load input).map fun
    | .error e => failure [] (e.messageFrom r.origin)
    | .ok document =>
      let printed := if r.print then Form.writeAll document.forms else []
      let outlined :=
        if r.outline then Form.outlines document.forms (.ofText document.text) else []
      ⟨0, printed ++ outlined ++ countLine document.forms.length, []⟩

/-- What is shown of one form. -/
def Request.view (r : Request) (source : Source) (f : Form) : Text :=
  let printed := if r.print then f.render ++ ['\n'] else []
  let outlined := if r.outline then f.outline source else []
  printed ++ outlined

/-- Shows forms as they are read. The number limits how many are tried. -/
def showAll (r : Request) : Nat → FormStream → Nat → List Text → Option Outcome
  | 0, _, _, _ => none
  | rounds + 1, stream, count, shown =>
    match stream.next with
    | some (some (.ok f), stream) =>
      showAll r rounds stream (count + 1) (r.view stream.reading.source f :: shown)
    | some (some (.error d), _) =>
      let place := String.ofList (Text.quoted r.path.toList)
      some (failure shown.reverse.flatten s!"{d.render} in {place}")
    | some (none, _) => some ⟨0, shown.reverse.flatten ++ countLine count, []⟩
    | none => none

/-- Shows each form as it is read. -/
def runLazy (r : Request) (input : ByteStream) : Option Outcome :=
  match Utf8.decode input with
  | .error e => some (failure [] e.message)
  | .ok text =>
    let stream := (Grammar.standard r.settings).stream text
    showAll r stream.reading.fuel stream 0 []

/-- Carries out a request on its input, which may have failed to open. -/
def Request.run (r : Request) (input : Except String ByteStream) : Option Outcome :=
  let isEager := !r.isLazy && r.settings == .standard
  match input with
  | .ok input => if isEager then runEager r input else runLazy r input
  | .error reason =>
    let e := ReadError.decode (.io reason)
    some (failure [] (if isEager then e.messageFrom r.origin else e.message))

/-- What is left behind when the arguments make no request. -/
def usage (message : String) : Outcome := ⟨2, [], s!"error: {message}\n".toList⟩

end Command

end LispReader
