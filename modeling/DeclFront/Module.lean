import DeclFront.Parser.Module
import DeclFront.Syntax.Node

/-!
# Parsing a whole text

Every text has a syntax tree; what is wrong with the text is told by diagnostics beside it. How many
diagnostics are kept, and whether the trivia is, has no influence on the tree.
-/

namespace DeclFront

/-- A text that has been parsed. -/
structure Module where
  header : ModuleHeader
  /-- The declarations, in the order of the text. -/
  members : List Declaration
  /-- What was found wrong, in the order of display. -/
  diagnostics : List Diagnostic
  /-- The trivia, in the order of the text, if it was asked for. -/
  trivia : List Token

namespace Module

/-- Parses a list of characters. At most `limit` diagnostics are kept, or all if it is zero. -/
def ofChars (cs : List Char) (limit : Nat) (policy : TriviaPolicy) : Module :=
  let ((header, members), c) := Parser.module.run (Cursor.ofChars cs)
  ⟨header, members, c.diagnostics limit, c.trivia policy⟩

/-- Parses a source. -/
def ofSource (s : Source) (limit : Nat) (policy : TriviaPolicy) : Module :=
  ofChars s.chars limit policy

def hasErrors (m : Module) : Bool := m.diagnostics.any Diagnostic.isError

/-- Whether nothing at all was found wrong. -/
def isClean (m : Module) : Bool := m.diagnostics.isEmpty

/-- The first declaration whose name reads `name` in the source. -/
def declaration? (m : Module) (s : Source) (name : String) : Option Declaration :=
  m.members.find? fun d => s.tokenText d.name == name

/-- All nodes of the declarations with their depths. -/
def outline (m : Module) : List (Nat × Node) :=
  m.members.flatMap fun d => (Node.declaration d).outline 0

end Module

end DeclFront
