import DeclFront.Parser.Cursor
import DeclFront.Parser.KindSet

/-!
# Parsers

A parser moves a cursor and gives a result. It never fails: what the text lacks is complained about,
and a placeholder stands in for it.

**Loops.** Every loop of the grammar and of recovery is `Parser.loop`: a round is repeated until it
says that it was the last, or until it consumes no token. The second never happens in a loop of this
library; it makes plain that every parser comes to an end.
-/

namespace DeclFront

/-- A step from one place in the tokens to another, with a result. -/
abbrev Parser := StateM Cursor

namespace Parser

/-! ## Looking -/

/-- The current token. -/
def current : Parser Token := do return (← get).current

/-- The token behind the current one. -/
def peek : Parser Token := modifyGet Cursor.peek

/-- The kind of the current token. -/
def currentKind : Parser TokenKind := do return (← current).kind

/-- The kind of the token behind the current one. -/
def peekKind : Parser TokenKind := do return (← peek).kind

/-- Whether the current token is of kind `k`. -/
def check (k : TokenKind) : Parser Bool := do return (← currentKind) == k

/-- Whether the kind of the current token is in `s`. -/
def checkSet (s : KindSet) : Parser Bool := do return s.contains (← currentKind)

def isAtEnd : Parser Bool := check .endOfInput

/-- Where the last consumed token ends. -/
def consumedTo : Parser Nat := do return (← get).consumedTo

/-! ## Consuming -/

/-- Consumes the current token and gives it; at the end, gives the end of input. -/
def advance : Parser Token := modifyGet fun c => (c.current, c.advance)

/-- Consumes the current token if it is of kind `k`. -/
def eat (k : TokenKind) : Parser (Option Token) := do
  if ← check k then return some (← advance) else return none

/-! ## Complaining -/

def report (d : Diagnostic) : Parser Unit := modify (·.report d)

/-- Complains that the current token is none of those that may stand here. An invalid token has been
complained about before. -/
def unexpected (expected : List TokenKind) : Parser Unit := do
  let t ← current
  unless t.kind == .invalid do
    report ((Diagnostic.aboutToken .unexpectedToken .parsing t).withExpected (.ofList expected))

/-- Complains that a token of kind `k` is missing before the current one. -/
def missing (k : TokenKind) : Parser Unit := do
  let t ← current
  report ((Diagnostic.aboutToken .missingToken .parsing t).withExpected (.singleton k))

/-- Consumes a token of kind `k`, or complains that it is missing. -/
def expect (k : TokenKind) : Parser (Option Token) := do
  let t ← eat k
  if t.isNone then missing k
  return t

/-! ## Loops -/

/-- Repeats a round, which carries a state along, until it is done. -/
def loop {σ : Type} (round : σ → Parser (ForInStep σ)) (s : σ) : Parser σ := fun c =>
  match round s c with
  | (.done s, c') => (s, c')
  | (.yield s, c') => if c'.left < c.left then loop round s c' else (s, c')
termination_by c => c.left

/-- Consumes the current token if its kind is in `s`, and is done otherwise. -/
def skipRound (s : KindSet) (_ : Unit) : Parser (ForInStep Unit) := do
  if ← checkSet s then
    let _ ← advance
    return .yield ()
  else return .done ()

/-- Consumes tokens as long as their kinds are in `s`. -/
def skipSet (s : KindSet) : Parser Unit := loop (skipRound s) ()

def skipTerminators : Parser Unit := skipSet (.ofList [.terminator])

/-- What one round of a list found. -/
structure Round (α : Type) where
  item : Option α
  /-- Another round is to follow. -/
  again : Bool

namespace Round

variable {α : Type}

/-- The list ends, and the round found nothing. -/
def stop : Round α := ⟨none, false⟩

/-- The list ends with `a`. -/
def last (a : α) : Round α := ⟨some a, false⟩

/-- The list goes on behind `a`. -/
def more (a : α) : Round α := ⟨some a, true⟩

end Round

/-- Adds what a round of a list finds to what was found before, the latest first. -/
def collectRound {α : Type} (round : Parser (Round α)) (found : List α) :
    Parser (ForInStep (List α)) := do
  let r ← round
  let found := r.item.toList ++ found
  return if r.again then .yield found else .done found

/-- The items that the rounds of a list find, in order. -/
def collect {α : Type} (round : Parser (Round α)) : Parser (List α) := do
  return (← loop (collectRound round) []).reverse

end Parser

end DeclFront
