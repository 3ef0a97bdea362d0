import DeclFront.Parser.Basic
import DeclFront.Syntax.Tree

/-!
# Names

`path = IDENT (("." | "::") IDENT)*`
-/

namespace DeclFront

namespace Parser

/-- A further segment of a path, if there is a separator. -/
def furtherSegment : Parser (Round Token) := do
  if (← check .dot) || (← check .colonColon) then
    let _ ← advance
    match ← eat .identifier with
    | some segment => return .more segment
    | none =>
      unexpected [.identifier]
      return .stop
  else return .stop

/-- A path; where none begins, the complaint about it and a placeholder. -/
def path : Parser Path := do
  match ← eat .identifier with
  | some first => return .ofSegments (first :: (← collect furtherSegment))
  | none =>
    unexpected [.identifier]
    return .missing (← current)

end Parser

end DeclFront
