import DeclFront.Parser.Body
import DeclFront.Parser.Generics
import DeclFront.Parser.Name

/-!
# Types

`type = reference | protocol | union | record | tuple | function`

`reference = ("own" | "borrow")? path args? "?"?`

The current token decides which of the shapes it is. Types contain types, so the parser of one layer
(`typeLayer`) is given the parser of the types inside, and `type` is the layer whose inside is
`type` again.

**Why this ends.** A type inside another begins behind a token that the outer one has consumed. The
recursion rests on that: inside, fewer tokens are left.
-/

namespace DeclFront

namespace Parser

def ownership : Parser Ownership := do
  if (← eat .own).isSome then return .own
  else if (← eat .borrow).isSome then return .borrow
  else return .unspecified

/-- A reference to a type by its name. -/
def reference (type : Parser TypeExpr) : Parser TypeRef := do
  let start := (← current).start
  let held ← ownership
  let name ← path
  let args ← if ← check .leftBracket then some <$> genericArgs type else pure none
  let optional := (← eat .question).isSome
  return ⟨held, name, args, optional, ⟨start, max (← consumedTo) name.span.stop⟩⟩

/-- A type whose inner types are parsed by `type`. Where no type begins, no token is consumed. -/
def typeLayer (type : Parser TypeExpr) : Parser TypeExpr := do
  match ← currentKind with
  | .caretBrace =>
    let (methods, span) ← braced (method type)
    return .protocol methods span
  | .pipeBrace =>
    let (variants, span) ← braced (variant type)
    return .union variants span
  | .percentBrace =>
    let (fields, span) ← braced (field type)
    return .record fields span
  | .hashBrace =>
    let (elements, span) ← braced (some <$> type)
    return .tuple elements span
  | .async | .leftParen => return .function (← function type)
  | .own | .borrow | .identifier => return .reference (← reference type)
  | _ =>
    unexpected [.identifier, .leftParen, .caretBrace, .pipeBrace]
    return .missing (← current)

/-- A type. -/
def type : Parser TypeExpr := fun c =>
  typeLayer (fun inner => if inner.left < c.left then type inner
    else (.missing inner.current, inner)) c
termination_by c => c.left

end Parser

end DeclFront
