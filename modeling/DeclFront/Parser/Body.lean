import DeclFront.Parser.Signature

/-!
# Bodies in braces

`protocol = "^{" (method sep)* "}"`  with  `method = IDENT ":" function`

`union = "|{" (variant sep)* "}"`  with  `variant = IDENT ("(" type ")")? ("=" INTEGER)?`

`record = "%{" (field sep)* "}"`  with  `field = IDENT ":" type ("=" literal)?`

`tuple = "#{" (type sep)* "}"`

Members are separated by any number of commas and terminators, and the last one needs none behind
it. A malformed member is left out, up to the next separator or the closing brace. The parser of the
types inside is a parameter here.
-/

namespace DeclFront

namespace Parser

/-- Skips the rest of a malformed member. -/
def recoverMember : Parser Unit := do
  let _ ← synchronize .memberStop

/-- Skips what does not belong between a member and the separator or the brace behind it. A member
that was not found has been complained about before. -/
def closeMember (found : Bool) : Parser Unit := do
  unless found do recoverMember
  unless (← checkSet .memberStop) || (← isAtEnd) do
    unexpected [.comma, .terminator, .rightBrace]
    recoverMember

/-- A member with the separators in front of it, unless the body is at its end. -/
def furtherMember {α : Type} (member : Parser (Option α)) : Parser (Round α) := do
  skipSet .separator
  if (← eat .rightBrace).isSome then return .stop
  else if ← isAtEnd then
    missing .rightBrace
    return .stop
  else
    let item ← member
    closeMember item.isSome
    return ⟨item, true⟩

/-- The members of a body and its span. The token that opens the body is the current one. -/
def braced {α : Type} (member : Parser (Option α)) : Parser (List α × Span) := do
  let start := (← advance).start
  let members ← collect (furtherMember member)
  return (members, ⟨start, ← consumedTo⟩)

/-- The name in front of a member; where there is none, the complaint about it. -/
def memberName : Parser (Option Token) := do
  let name ← eat .identifier
  if name.isNone then unexpected [.identifier, .rightBrace]
  return name

/-- The colon behind the name of a member. Where it is missing but the token at hand may follow it,
the complaint says so and the member goes on; otherwise the member ends here. -/
def memberColon (next : KindSet) : Parser Bool := do
  if (← eat .colon).isSome then return true
  else if ← checkSet next then
    missing .colon
    return true
  else
    unexpected [.colon]
    return false

def method (type : Parser TypeExpr) : Parser (Option Method) := do
  let some name ← memberName | return none
  if !(← memberColon .functionStart) then return none
  if ← checkSet .functionStart then
    let signature ← function type
    return some ⟨name, signature, name.span.merge signature.span⟩
  else
    unexpected [.leftParen, .async]
    return none

/-- The type in parentheses behind the tag of a variant, if there is one. -/
def payload (type : Parser TypeExpr) : Parser (Option TypeExpr) := do
  match ← eat .leftParen with
  | none => return none
  | some _ =>
    let t ← type
    if (← eat .rightParen).isNone then
      unexpected [.rightParen]
      let _ ← synchronize .payloadStop
      let _ ← eat .rightParen
    return some t

/-- What may stand behind the equals sign of a member. -/
inductive Assigned where
  /-- There is no equals sign. -/
  | nothing
  | value (t : Token)
  /-- There is an equals sign, and none of the tokens that may follow it. -/
  | malformed

/-- An equals sign and a token of one of the kinds `ks`, if there is one. -/
def assigned (ks : List TokenKind) : Parser Assigned := do
  match ← eat .equal with
  | none => return .nothing
  | some _ =>
    if ← checkSet (.ofList ks) then return .value (← advance)
    else
      unexpected ks
      return .malformed

def variant (type : Parser TypeExpr) : Parser (Option Variant) := do
  let some tag ← memberName | return none
  let content ← payload type
  match ← assigned [.integer] with
  | .malformed => return none
  | .nothing => return some ⟨tag, content, none, ⟨tag.start, ← consumedTo⟩⟩
  | .value t => return some ⟨tag, content, some t, ⟨tag.start, ← consumedTo⟩⟩

def field (type : Parser TypeExpr) : Parser (Option Field) := do
  let some name ← memberName | return none
  if !(← memberColon .typeStart) then return none
  let t ← type
  match ← assigned [.integer, .decimal, .string, .rune] with
  | .malformed => return none
  | .nothing => return some ⟨name, t, none, ⟨name.start, max (← consumedTo) t.span.stop⟩⟩
  | .value v => return some ⟨name, t, some v, ⟨name.start, max (← consumedTo) t.span.stop⟩⟩

end Parser

end DeclFront
