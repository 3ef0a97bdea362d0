import DeclFront.CommandLine.Run

/-!
# The program

What the program does with a command line: a wrong one is answered with the usage, help and version
are answered at once, and every other command is carried out. The exit status is 0 when nothing was
found wrong, 1 when something was, and 2 when there is no result.
-/

namespace DeclFront

namespace Program

def version : String := "brim 0.1.0-alpha.1\n"

/-- The lines that help prints. -/
def usageLines : List String :=
  ["Usage: brim <command> <file|-> [options]",
   "",
   "Commands:",
   "  lex <file>      Print every token as `kind line:col \"text\"`",
   "  parse <file>    Print the module header and declaration list",
   "  check <file>    Print diagnostics only",
   "  help            Show this help message",
   "  version         Show version information",
   "",
   "Options:",
   "  --significant        lex: drop whitespace and comments",
   "  --keep-trivia        parse: report collected trivia",
   "  --color=<mode>       auto (default), always, never",
   "  --format=<format>    human (default), json",
   "  --error-limit=<n>    Stop recording after n diagnostics (0 = no limit)",
   "",
   "Use `-` as the file to read from stdin. Exit status is 0 when clean,",
   "1 when any diagnostic was reported and 2 on usage or I/O errors."]

def usage : String := Listing.lines usageLines

/-- The status of a program that gives no result. -/
def failureStatus : Nat := 2

/-- What the program leaves behind. -/
structure Exit where
  status : Nat
  stdout : ByteArray
  stderr : String

/-- The line about a failure. -/
def failureLine (message : String) : String := "error: " ++ message ++ "\n"

/-- What is to be done with a command line. -/
inductive Plan where
  /-- The answer is known. -/
  | answer (e : Exit)
  /-- A command is to be carried out. -/
  | execute (o : Options)

def plan (args : List String) : Plan :=
  match Options.parse args with
  | .error e => .answer ⟨failureStatus, .empty, failureLine e.message ++ "\n" ++ usage⟩
  | .ok o =>
    match o.command with
    | .help => .answer ⟨0, usage.toUTF8, ""⟩
    | .version => .answer ⟨0, version.toUTF8, ""⟩
    | .lex | .parse | .check => .execute o

/-- How the program ends when a command has written its output. -/
def conclude (w : Written) : Exit :=
  match w.result with
  | .ok .clean => ⟨0, w.stdout, w.stderr⟩
  | .ok .diagnostics => ⟨1, w.stdout, w.stderr⟩
  | .error e => ⟨failureStatus, w.stdout, w.stderr ++ failureLine e.message⟩

/-- The whole program, away from terminals. -/
def run (args : List String) (stdin : ByteArray)
    (readFile : String → Except ReadFailure ByteArray) : Exit :=
  match plan args with
  | .answer e => e
  | .execute o => conclude (o.execute stdin readFile false none)

end Program

end DeclFront
