import DeclFront.Diagnostic
import DeclFront.Text.JsonString

/-!
# Diagnostics for tools

A batch of diagnostics is written as one JSON array, one object to a line. The array is opened,
filled by any number of steps and closed, and between the steps it is enough to know whether an
object has been written.
-/

namespace DeclFront

namespace Diagnostic

/-- The diagnostic as a JSON object. -/
def json (d : Diagnostic) : String :=
  "\x7b\"code\": \"" ++ d.code.id ++ "\", \"severity\": \"" ++ d.severity.name
    ++ "\", \"phase\": \"" ++ d.phase.name ++ "\", \"message\": " ++ JsonString.ofString d.message
    ++ ", \"offset\": " ++ toString d.offset ++ ", \"length\": " ++ toString d.length
    ++ ", \"line\": " ++ toString d.position.line ++ ", \"column\": " ++ toString d.position.column
    ++ ", \"actual\": " ++ (d.actual.map fun k => JsonString.ofString k.name).getD "null"
    ++ ", \"expected\": ["
    ++ ", ".intercalate (d.expected.kinds.map fun k => JsonString.ofString k.name) ++ "]\x7d"

end Diagnostic

/-- An array in the making. -/
structure JsonEmitter where
  /-- No object has been written yet. -/
  isFirst : Bool
deriving DecidableEq

namespace JsonEmitter

/-- The text that opens an array. -/
def opening : String := "["

/-- The state in which an array is opened. -/
def fresh : JsonEmitter := ⟨true⟩

/-- The text of one more object. -/
def entry (e : JsonEmitter) (d : Diagnostic) : String :=
  (if e.isFirst then "\n  " else ",\n  ") ++ d.json

/-- Writes one more object. -/
def emit (e : JsonEmitter) (d : Diagnostic) : String × JsonEmitter := (e.entry d, ⟨false⟩)

/-- Writes the objects of a list in turn. -/
def emitAll (e : JsonEmitter) (ds : List Diagnostic) : String × JsonEmitter :=
  ds.foldl (fun (text, e) d => let (more, e) := e.emit d; (text ++ more, e)) ("", e)

/-- The text that closes the array. -/
def closing (e : JsonEmitter) : String := if e.isFirst then "]\n" else "\n]\n"

/-- The whole array for a list of diagnostics. -/
def render (ds : List Diagnostic) : String :=
  let (text, e) := fresh.emitAll ds
  opening ++ text ++ e.closing

end JsonEmitter

end DeclFront
