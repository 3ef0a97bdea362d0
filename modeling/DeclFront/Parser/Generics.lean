import DeclFront.Parser.Recovery
import DeclFront.Syntax.Tree

/-!
# Generic parameters and arguments

`params = "[" IDENT ("," IDENT)* ","? "]"`

`args = "[" type ("," type)* ","? "]"`

An empty list is complained about as a whole. The parser of the types in a list of arguments is a
parameter here.
-/

namespace DeclFront

namespace Parser

/-- Consumes the comma behind an item of a list in brackets, and tells whether a further item
follows it. -/
def commaAndMore : Parser Bool := do
  match ← eat .comma with
  | none => return false
  | some _ => return !(← check .rightBracket)

/-- Consumes the bracket at the end of a list, and what is malformed in front of it. -/
def closeBracket : Parser Unit := do
  if (← eat .rightBracket).isNone then
    unexpected [.comma, .rightBracket]
    let _ ← synchronize .bracketStop
    let _ ← eat .rightBracket

/-- A list in brackets of the items that the rounds find. The opening bracket is the current token.
An empty list is complained about with the code `empty`. -/
def bracketed {α : Type} (empty : DiagnosticCode) (round : Parser (Round α)) :
    Parser (List α × Span) := do
  let bracket ← advance
  let items ← match ← eat .rightBracket with
    | some close =>
      report (.about empty .parsing bracket.position (close.stop - bracket.start))
      pure []
    | none =>
      let items ← collect round
      closeBracket
      pure items
  return (items, ⟨bracket.start, ← consumedTo⟩)

/-- One generic parameter. -/
def genericParam : Parser (Round Token) := do
  match ← eat .identifier with
  | some param => return ⟨some param, ← commaAndMore⟩
  | none =>
    unexpected [.identifier, .rightBracket]
    return .stop

/-- The parameters of a generic declaration. -/
def genericParams : Parser GenericParams := do
  let (params, span) ← bracketed .emptyGenericParams genericParam
  return ⟨params, span⟩

/-- One generic argument. -/
def genericArg (type : Parser TypeExpr) : Parser (Round TypeExpr) := do
  let arg ← type
  return ⟨some arg, ← commaAndMore⟩

/-- The arguments of a generic type. -/
def genericArgs (type : Parser TypeExpr) : Parser GenericArgs := do
  let (args, span) ← bracketed .emptyGenericArgs (genericArg type)
  return ⟨args, span⟩

end Parser

end DeclFront
