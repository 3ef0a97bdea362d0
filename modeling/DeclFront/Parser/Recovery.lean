import DeclFront.Parser.Basic

/-!
# Skipping what cannot be parsed

Behind a mistake the parser skips tokens up to a place where it can go on. Groups in parentheses,
brackets and braces are skipped whole: a token stops the skipping only at depth zero, counted from
where the skipping began. A closer that closes no group skipped over leaves the depth at zero.
-/

namespace DeclFront

namespace Parser

/-- The depth behind a token of kind `k`. -/
def depthAfter (depth : Nat) (k : TokenKind) : Nat :=
  if KindSet.opener.contains k then depth + 1
  else if KindSet.closer.contains k then depth - 1
  else depth

/-- Skips one token, unless it is the last one or `stop` holds at it and it is at depth zero. The
state is the depth and the number of tokens skipped. -/
def skipUntilRound (stop : Parser Bool) (state : Nat × Nat) :
    Parser (ForInStep (Nat × Nat)) := do
  let (depth, skipped) := state
  let k ← currentKind
  if k == .endOfInput then return .done (depth, skipped)
  else
    let stops ← if depth == 0 then stop else pure false
    if stops then return .done (depth, skipped)
    else
      let _ ← advance
      return .yield (depthAfter depth k, skipped + 1)

/-- Skips tokens up to the first one outside all groups at which `stop` holds, or up to the end.
Gives the number of tokens skipped. -/
def skipUntil (stop : Parser Bool) : Parser Nat := do
  return (← loop (skipUntilRound stop) (0, 0)).2

/-- Skips up to a token whose kind is in `stop`. -/
def synchronize (stop : KindSet) : Parser Nat := skipUntil (checkSet stop)

/-- Whether the token behind the current one, an identifier, makes it begin a declaration. -/
def namesDeclaration : Parser Bool := do
  let k ← peekKind
  return k == .colonEqual || k == .leftBracket

/-- Whether skipping the rest of a malformed declaration stops here: at a terminator, at a body, or
at the beginning of a declaration. -/
def atDeclarationStop : Parser Bool := do
  match ← currentKind with
  | .terminator => return true
  | .identifier => namesDeclaration
  | k => return KindSet.bodyStart.contains k

/-- Skips the rest of a malformed declaration, its terminator included. -/
def recoverDeclaration : Parser Unit := do
  let _ ← skipUntil atDeclarationStop
  let _ ← eat .terminator

/-- Skips a group, from its opener, the current token, through its closer. -/
def skipGroup : Parser Unit := do
  let _ ← advance
  let _ ← synchronize .closer
  let _ ← advance

end Parser

end DeclFront
