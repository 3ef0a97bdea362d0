import DeclFront.Diagnostic.Code
import DeclFront.Diagnostic.Expected
import DeclFront.Token

/-!
# Diagnostics

A diagnostic is one finding about a text: what was found, in which phase, where, and, for a
finding about a token, the kind that stood there and the kinds that would have been accepted. Its
message is made from these alone.
-/

namespace DeclFront

/-- A finding about the `length` bytes at `position`. -/
structure Diagnostic where
  code : DiagnosticCode
  severity : Severity
  phase : Phase
  position : Position
  length : Nat
  /-- The kind of the token found there, if the finding is about one. -/
  actual : Option TokenKind
  expected : ExpectedKinds
deriving DecidableEq

namespace Diagnostic

/-- A finding about a stretch of text, with the severity of its code. -/
def about (code : DiagnosticCode) (phase : Phase) (position : Position) (length : Nat) :
    Diagnostic :=
  ⟨code, code.defaultSeverity, phase, position, length, none, .empty⟩

/-- A finding about a token. -/
def aboutToken (code : DiagnosticCode) (phase : Phase) (t : Token) : Diagnostic :=
  { Diagnostic.about code phase t.position t.length with actual := some t.kind }

def withExpected (d : Diagnostic) (expected : ExpectedKinds) : Diagnostic :=
  { d with expected }

def withSeverity (d : Diagnostic) (severity : Severity) : Diagnostic := { d with severity }

/-- The byte offset of the first byte concerned. -/
def offset (d : Diagnostic) : Nat := d.position.offset

def span (d : Diagnostic) : Span := ⟨d.offset, d.offset + d.length⟩

def isError (d : Diagnostic) : Bool := d.severity == .error

/-! ## Messages -/

/-- The items of a list as alternatives: `a`, `a or b`, `a, b or c`. -/
def alternatives : List String → String
  | [] => ""
  | [a] => a
  | [a, b] => a ++ " or " ++ b
  | a :: b :: rest => a ++ ", " ++ alternatives (b :: rest)

/-- What the finding is, in words. -/
def message (d : Diagnostic) : String :=
  match d.code with
  | .unexpectedToken =>
    (match d.actual with
      | some k => "unexpected " ++ k.name
      | none => "unexpected token") ++
    (if d.expected.isEmpty then ""
      else ", expected " ++ alternatives (d.expected.kinds.map TokenKind.name))
  | .missingToken =>
    (match d.expected.first? with
      | some k => "missing " ++ k.name
      | none => "missing token") ++
    (match d.actual with
      | some k => " before " ++ k.name
      | none => "")
  | code => code.title

/-- The message with its severity and phase in front. -/
def headline (d : Diagnostic) : String :=
  d.severity.name ++ "[" ++ d.phase.name ++ "]: " ++ d.message

end Diagnostic

end DeclFront
