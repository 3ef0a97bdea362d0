import DeclFront.CommandLine.Listing
import DeclFront.CommandLine.Options
import DeclFront.Diagnostic.Json

/-!
# Carrying out a command

A command reads its input, prints a listing and reports what was found wrong. A text with mistakes
is no failure of the command: a failure is only what keeps it from giving a result.

Nothing here touches the outside: the input comes as bytes and a function that reads files, and the
output is a value, which may be cut off where the standard output has no more room.
-/

namespace DeclFront

/-! ## Input -/

/-- Why a text could not be read. -/
inductive ReadFailure where
  /-- The bytes are no text. -/
  | notText
  /-- The path is no path. -/
  | nulInPath
  /-- The system refused, with this explanation and this number. -/
  | system (text : String) (number : Nat)
deriving DecidableEq

def ReadFailure.message : ReadFailure → String
  | .notText => "stream did not contain valid UTF-8"
  | .nulInPath => "file name contained an unexpected NUL byte"
  | .system text number => text ++ " (os error " ++ toString number ++ ")"

/-- What keeps a command from giving a result. -/
inductive RunError where
  /-- The input called `name` cannot be read. -/
  | unreadable (name : String) (why : ReadFailure)
  /-- The output cannot be written in full. -/
  | outputCut
deriving DecidableEq

def RunError.message : RunError → String
  | .unreadable name why => "cannot read `" ++ name ++ "`: " ++ why.message
  | .outputCut => "cannot write output: failed to write whole buffer"

/-- The text that bytes encode, under a name. -/
def Source.ofBytes (name : String) (bytes : ByteArray) : Except RunError Source :=
  match String.fromUTF8? bytes with
  | some text => .ok ⟨text, some name⟩
  | none => .error (.unreadable name .notText)

/-- The source that an input stands for. -/
def Input.source (i : Input) (stdin : ByteArray)
    (readFile : String → Except ReadFailure ByteArray) : Except RunError Source :=
  match i with
  | .stdin => Source.ofBytes "<stdin>" stdin
  | .path p =>
    match readFile p with
    | .ok bytes => Source.ofBytes p bytes
    | .error why => .error (.unreadable p why)

/-! ## Results -/

/-- How a command ends that gives a result. -/
inductive Outcome where
  | clean | diagnostics
deriving DecidableEq

/-- What a command prints, and how it ends. -/
structure Output where
  listing : String
  /-- The diagnostics as they are shown. -/
  report : String
  outcome : Outcome
deriving DecidableEq

/-- The diagnostics about a source, as they are shown. -/
def Options.report (o : Options) (s : Source) (onTerminal : Bool) (ds : List Diagnostic) :
    String :=
  match o.format with
  | .human => TerminalStyle.render ⟨o.color.isOn onTerminal, s.name⟩ ds
  | .json => JsonEmitter.render ds

/-- The listing and the diagnostics of a command. -/
def Options.findings (o : Options) (s : Source) : String × List Diagnostic :=
  match o.command with
  | .lex =>
    let out := if o.significant then lexSignificant s o.errorLimit else lexRaw s o.errorLimit
    (Listing.tokens s out.tokens, out.diagnostics)
  | .parse =>
    let m := Module.ofSource s o.errorLimit o.triviaPolicy
    (Listing.module s m o.keepTrivia, m.diagnostics)
  | .check => ("", (Module.ofSource s o.errorLimit o.triviaPolicy).diagnostics)
  | .help | .version => ("", [])

/-- Carries out a command on a source. -/
def Options.run (o : Options) (s : Source) (onTerminal : Bool) : Output :=
  let (listing, ds) := o.findings s
  ⟨listing, o.report s onTerminal ds, if ds.isEmpty then .clean else .diagnostics⟩

/-! ## Output -/

/-- What was written, and how it ended. -/
structure Written where
  stdout : ByteArray
  stderr : String
  result : Except RunError Outcome

/-- The bytes of a text that fit into `room`, which is unlimited if it is `none`. -/
def fitting (room : Option Nat) (text : String) : ByteArray :=
  match room with
  | none => text.toUTF8
  | some n => text.toUTF8.extract 0 n

/-- Writes the output of a command into streams of which the standard output has so much room. A
listing that does not fit is a failure and leaves the diagnostics unreported; diagnostics that do
not fit are cut off. -/
def Output.write (out : Output) (toStdout : Bool) (room : Option Nat) : Written :=
  if room.any (· < out.listing.utf8ByteSize) then
    ⟨fitting room out.listing, "", .error .outputCut⟩
  else if toStdout then ⟨fitting room (out.listing ++ out.report), "", .ok out.outcome⟩
  else ⟨out.listing.toUTF8, out.report, .ok out.outcome⟩

/-- Reads the input of a command, carries it out and writes its output. -/
def Options.execute (o : Options) (stdin : ByteArray)
    (readFile : String → Except ReadFailure ByteArray) (onTerminal : Bool) (room : Option Nat) :
    Written :=
  match o.input.source stdin readFile with
  | .error e => ⟨.empty, "", .error e⟩
  | .ok s => (o.run s onTerminal).write o.diagnosticsToStdout room

end DeclFront
