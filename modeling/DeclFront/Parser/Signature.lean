import DeclFront.Parser.Recovery
import DeclFront.Syntax.Tree

/-!
# Function types

`function = "async"? "(" (param ("," param)* ","?)? ")" "->" type`

`param = (IDENT ":")? type`

The parser of the types inside is a parameter here.
-/

namespace DeclFront

namespace Parser

/-- The name of a parameter with its colon, if there is one. -/
def paramName : Parser (Option Token) := do
  if ← check .identifier then
    if (← peekKind) == .colon then
      let name ← advance
      let _ ← advance
      return some name
    else return none
  else return none

def param (type : Parser TypeExpr) : Parser Param := do
  let start := (← current).start
  let name ← paramName
  let t ← type
  return ⟨name, t, ⟨start, max (← consumedTo) t.span.stop⟩⟩

/-- A parameter, unless the list is at its end. -/
def furtherParam (type : Parser TypeExpr) : Parser (Round Param) := do
  if (← check .rightParen) || (← isAtEnd) then return .stop
  else
    let p ← param type
    return ⟨some p, (← eat .comma).isSome⟩

/-- The parameters in parentheses, the opening one being consumed. -/
def params (type : Parser TypeExpr) : Parser (List Param) := do
  let found ← collect (furtherParam type)
  if (← eat .rightParen).isNone then
    unexpected [.comma, .rightParen]
    let _ ← synchronize .parenStop
    let _ ← eat .rightParen
  return found

/-- The arrow and the result; where there is no arrow, the complaint about it and a placeholder. -/
def result (type : Parser TypeExpr) : Parser TypeExpr := do
  match ← eat .arrow with
  | some _ => type
  | none =>
    missing .arrow
    return .missing (← current)

def function (type : Parser TypeExpr) : Parser FunctionType := do
  let start := (← current).start
  let isAsync := (← eat .async).isSome
  let found ← match ← expect .leftParen with
    | some _ => params type
    | none => pure []
  let t ← result type
  return ⟨isAsync, found, t, ⟨start, max (← consumedTo) t.span.stop⟩⟩

end Parser

end DeclFront
