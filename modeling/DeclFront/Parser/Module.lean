import DeclFront.Parser.TypeExpr

/-!
# Modules

`module = terminator* header terminator* declaration*`

`header = "[" "[" path "]" "]"`

`declaration = IDENT params? ":=" type (TERMINATOR | end)`

A mistake in a declaration ends at the next terminator, or where another declaration or a body
begins on the same line.
-/

namespace DeclFront

namespace Parser

/-- The closing brackets of a header; the first that is missing is complained about. -/
def closeHeader : Parser Unit := do
  if (← expect .rightBracket).isSome then
    let _ ← expect .rightBracket

/-- The header; where there is none, the complaint about it and a placeholder. -/
def header : Parser ModuleHeader := do
  let t ← current
  let opens ← if ← check .leftBracket then do pure ((← peekKind) == .leftBracket) else pure false
  if opens then
    let _ ← advance
    let _ ← advance
    let name ← path
    closeHeader
    return ⟨name, ⟨t.start, ← consumedTo⟩, false⟩
  else
    report (.aboutToken .missingHeader .parsing t)
    return ⟨.missing t, .point t.start, true⟩

/-- The end of a declaration: a terminator, or the end of the text. Another declaration that follows
at once is left alone. -/
def closeDeclaration : Parser Unit := do
  match ← currentKind with
  | .terminator =>
    let _ ← advance
  | .endOfInput => pure ()
  | .identifier =>
    if ← namesDeclaration then missing .terminator
    else
      unexpected [.terminator]
      recoverDeclaration
  | _ =>
    unexpected [.terminator]
    recoverDeclaration

/-- The type of a declaration with the `:=` in front of it. A type without `:=` is complained about
and taken; where there is no type either, there is none to take. -/
def definedType (isGeneric : Bool) : Parser (Option TypeExpr) := do
  if (← eat .colonEqual).isSome then return some (← type)
  else if isGeneric && (← checkSet .bodyStart) then
    report (.aboutToken .unexpectedGenericBody .parsing (← current))
    return some (← type)
  else if ← checkSet .typeStart then
    missing .colonEqual
    return some (← type)
  else return none

/-- The declaration of a name with generic parameters, from its type on, and whether there is a
type; where there is none, the complaint about it and a placeholder. -/
def declarationOf (name : Token) (generics : Option GenericParams) :
    Parser (Declaration × Bool) := do
  match ← definedType generics.isSome with
  | some t => return (⟨name, generics, t, ⟨name.start, max (← consumedTo) t.span.stop⟩⟩, true)
  | none =>
    let place ← current
    unexpected [.colonEqual, .leftBracket]
    return (⟨name, generics, .missing place, name.span.merge (.point place.start)⟩, false)

/-- A declaration up to the end of its type, and whether there is a type. The name is the current
token. -/
def declarationHead : Parser (Declaration × Bool) := do
  let name ← advance
  let generics ← if ← check .leftBracket then some <$> genericParams else pure none
  declarationOf name generics

/-- A declaration. Its name is the current token. -/
def declaration : Parser Declaration := do
  let (d, isComplete) ← declarationHead
  if isComplete then closeDeclaration else recoverDeclaration
  return d

/-- A declaration with the terminators behind it, or what stands in the place of one, unless the
module is at its end. -/
def furtherDeclaration : Parser (Round Declaration) := do
  if ← isAtEnd then return .stop
  else
    let item ← if ← check .identifier then some <$> declaration
      else if ← checkSet .bodyStart then do
        unexpected [.identifier]
        skipGroup
        pure none
      else do
        unexpected [.identifier]
        recoverDeclaration
        pure none
    skipTerminators
    return ⟨item, true⟩

/-- The header and the declarations of a module. -/
def module : Parser (ModuleHeader × List Declaration) := do
  skipTerminators
  let head ← header
  skipTerminators
  return (head, ← collect furtherDeclaration)

end Parser

end DeclFront
