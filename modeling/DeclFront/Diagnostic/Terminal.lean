import DeclFront.Diagnostic

/-!
# Diagnostics for people

Each diagnostic takes two lines: the headline, and the place with the code in brackets. The number
of errors follows at the end, if there are any. On a terminal the severity and the place are
coloured.
-/

namespace DeclFront

/-- When to colour. -/
inductive ColorMode where
  | auto | always | never
deriving DecidableEq

namespace ColorMode

/-- The mode of this name, if there is one. -/
def parse? : String → Option ColorMode
  | "auto" => some .auto
  | "always" => some .always
  | "never" => some .never
  | _ => none

/-- Whether to colour, on a terminal or elsewhere. -/
def isOn (m : ColorMode) (onTerminal : Bool) : Bool :=
  match m with
  | .auto => onTerminal
  | .always => true
  | .never => false

end ColorMode

/-- How diagnostics are shown to people. -/
structure TerminalStyle where
  colors : Bool
  /-- Stands in front of every place. -/
  path : Option String
deriving DecidableEq

namespace TerminalStyle

/-- A colour of the terminal, by its control sequence. -/
inductive Color where
  | red | yellow | blue
deriving DecidableEq

/-- The control sequence that starts bold text in this colour. -/
def Color.start : Color → String
  | .red => "\x1b[1;31m"
  | .yellow => "\x1b[1;33m"
  | .blue => "\x1b[1;34m"

/-- The control sequence that ends coloured text. -/
def reset : String := "\x1b[0m"

def paint (s : TerminalStyle) (c : Color) (text : String) : String :=
  if s.colors then c.start ++ text ++ reset else text

def severityColor : Severity → Color
  | .error => .red
  | .warning => .yellow

/-- Where the diagnostic points: the path, if there is one, the line and the column. -/
def location (s : TerminalStyle) (d : Diagnostic) : String :=
  (s.path.map (· ++ ":")).getD ""
    ++ toString d.position.line ++ ":" ++ toString d.position.column

/-- The two lines of one diagnostic. -/
def entry (s : TerminalStyle) (d : Diagnostic) : String :=
  s.paint (severityColor d.severity) d.severity.name
    ++ "[" ++ d.phase.name ++ "]: " ++ d.message ++ "\n"
    ++ "  --> " ++ s.paint .blue (s.location d) ++ " [" ++ d.code.id ++ "]\n"

/-- The lines of a list of diagnostics. -/
def entries (s : TerminalStyle) (ds : List Diagnostic) : String :=
  ds.foldl (fun text d => text ++ s.entry d) ""

/-- The last line: how many errors there were, or nothing when there were none. -/
def summary (s : TerminalStyle) (errors : Nat) : String :=
  if errors = 0 then ""
  else s.paint .red "error" ++ ": " ++ toString errors
    ++ (if errors = 1 then " error found\n" else " errors found\n")

/-- All lines for a list of diagnostics. -/
def render (s : TerminalStyle) (ds : List Diagnostic) : String :=
  s.entries ds ++ s.summary (ds.countP Diagnostic.isError)

end TerminalStyle

end DeclFront
