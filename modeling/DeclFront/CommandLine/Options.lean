import DeclFront.Diagnostic.Sink
import DeclFront.Diagnostic.Terminal
import DeclFront.Lexical.Significant

/-!
# The command line

A command word comes first. The arguments behind it are options and at most one input, in any order;
where an option is repeated, the last one counts. The first argument that cannot be accepted is the
one complained about.
-/

namespace DeclFront

/-! ## What can be asked for -/

inductive Command where
  | lex | parse | check | help | version
deriving DecidableEq

namespace Command

/-- The command that a word names. -/
def parse? : String → Option Command
  | "lex" => some .lex
  | "parse" => some .parse
  | "check" => some .check
  | "help" | "--help" | "-h" => some .help
  | "version" | "--version" | "-V" => some .version
  | _ => none

/-- Whether the command is about an input. -/
def needsInput : Command → Bool
  | .lex | .parse | .check => true
  | .help | .version => false

end Command

/-- How diagnostics are written. -/
inductive Format where
  | human | json
deriving DecidableEq

/-- The format of this name, if there is one. -/
def Format.parse? : String → Option Format
  | "human" => some .human
  | "json" => some .json
  | _ => none

/-- Where the text comes from. -/
inductive Input where
  | stdin
  | path (path : String)
deriving DecidableEq

/-- A command with all its options. -/
structure Options where
  command : Command
  input : Input
  color : ColorMode
  format : Format
  /-- How many diagnostics are kept; zero keeps all. -/
  errorLimit : Nat
  keepTrivia : Bool
  significant : Bool
deriving DecidableEq

/-- Why a command line is not accepted. -/
inductive UsageError where
  | unknownCommand (word : String)
  | invalidColor (value : String)
  | invalidFormat (value : String)
  | invalidErrorLimit (value : String)
  /-- There is an input already. -/
  | unexpectedArgument (arg : String)
  | unknownOption (arg : String)
  /-- The command needs an input and there is none. -/
  | missingInput (word : String)
deriving DecidableEq

def UsageError.message : UsageError → String
  | .unknownCommand word => "unknown command `" ++ word ++ "`"
  | .invalidColor value => "invalid --color value `" ++ value ++ "`"
  | .invalidFormat value => "invalid --format value `" ++ value ++ "`"
  | .invalidErrorLimit value => "invalid --error-limit value `" ++ value ++ "`"
  | .unexpectedArgument arg => "unexpected argument `" ++ arg ++ "`"
  | .unknownOption arg => "unknown option `" ++ arg ++ "`"
  | .missingInput word => "`" ++ word ++ "` needs a file or `-`"

/-! ## One argument -/

/-- The number that decimal digits spell, read behind the number `n`. -/
def readDigits (n : Nat) : List Char → Nat
  | [] => n
  | d :: ds => readDigits (n * 10 + (d.toNat - '0'.toNat)) ds

/-- Counts are less than this number, which is 2⁶⁴. -/
def countBound : Nat := 18446744073709551616

/-- A count: decimal digits, perhaps behind a plus sign, that spell a number below the bound. -/
def parseCount? (text : List Char) : Option Nat :=
  let digits := if text.head? == some '+' then text.drop 1 else text
  if !digits.isEmpty && digits.all Char.isDigit && readDigits 0 digits < countBound then
    some (readDigits 0 digits)
  else none

/-- What one argument asks for. -/
inductive Argument where
  | color (mode : ColorMode)
  | format (format : Format)
  | errorLimit (limit : Nat)
  | keepTrivia
  | significant
  | input (input : Input)
deriving DecidableEq

namespace Argument

/-- The value of an argument that begins with the name of an option. -/
def valueOf? (name : String) (arg : String) : Option String :=
  if name.toList.isPrefixOf arg.toList then
    some (String.ofList (arg.toList.drop name.length))
  else none

/-- What an argument asks for. One that begins with no dash, and the dash alone, is an input. -/
def parse (arg : String) : Except UsageError Argument :=
  if let some value := valueOf? "--color=" arg then
    match ColorMode.parse? value with
    | some m => .ok (.color m)
    | none => .error (.invalidColor value)
  else if let some value := valueOf? "--format=" arg then
    match Format.parse? value with
    | some f => .ok (.format f)
    | none => .error (.invalidFormat value)
  else if let some value := valueOf? "--error-limit=" arg then
    match parseCount? value.toList with
    | some n => .ok (.errorLimit n)
    | none => .error (.invalidErrorLimit value)
  else if arg == "--keep-trivia" then .ok .keepTrivia
  else if arg == "--significant" then .ok .significant
  else if arg == "-" then .ok (.input .stdin)
  else if arg.toList.head? == some '-' then .error (.unknownOption arg)
  else .ok (.input (.path arg))

end Argument

/-! ## The whole command line -/

namespace Options

/-- A command without arguments. -/
def ofCommand (command : Command) : Options :=
  ⟨command, .stdin, .auto, .human, Sink.defaultLimit, false, false⟩

/-- The options with one more argument. -/
def set (o : Options) : Argument → Options
  | .color color => { o with color }
  | .format format => { o with format }
  | .errorLimit errorLimit => { o with errorLimit }
  | .keepTrivia => { o with keepTrivia := true }
  | .significant => { o with significant := true }
  | .input input => { o with input }

/-- Adds arguments in turn, and tells whether there is an input; `given` says whether there was one
before. -/
def addAll (o : Options) (given : Bool) : List String → Except UsageError (Options × Bool)
  | [] => .ok (o, given)
  | arg :: args =>
    match Argument.parse arg with
    | .error e => .error e
    | .ok (.input i) =>
      if given then .error (.unexpectedArgument arg) else addAll (o.set (.input i)) true args
    | .ok a => addAll (o.set a) given args

/-- The options of a command line, the name of the program left out. The empty one asks for help. -/
def parse : List String → Except UsageError Options
  | [] => .ok (ofCommand .help)
  | word :: args =>
    match Command.parse? word with
    | none => .error (.unknownCommand word)
    | some command =>
      match addAll (ofCommand command) false args with
      | .error e => .error e
      | .ok (o, given) =>
        if command.needsInput && !given then .error (.missingInput word) else .ok o

/-- A command that prints nothing else prints its diagnostics on the standard output. -/
def diagnosticsToStdout (o : Options) : Bool := o.command == .check

/-- What becomes of trivia. -/
def triviaPolicy (o : Options) : TriviaPolicy := if o.keepTrivia then .collect else .discard

end Options

end DeclFront
