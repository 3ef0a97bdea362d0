import DeclFront.Diagnostic

/-!
# Reading tokens one at a time

A **token source** answers each reading with a token until it is exhausted; then it answers with a
token that is not to be used any more, for ever. A reading may raise complaints, and may pass over
trivia on its way to the token.

A source can give only so many tokens: each one lowers the number that `remaining` bounds. So
reading on until the source is exhausted, or until the end of input has been read, comes to an end.
-/

namespace DeclFront

/-- What a source answers. -/
inductive Answer where
  /-- A token, the first end of input included. -/
  | token (t : Token)
  /-- There are no more tokens; `t` shows where. -/
  | exhausted (t : Token)
deriving DecidableEq

namespace Answer

/-- The token that comes with the answer. -/
def value : Answer → Token
  | .token t | .exhausted t => t

def hasToken : Answer → Bool
  | .token _ => true
  | .exhausted _ => false

/-- The token, if the answer is one. -/
def token? : Answer → Option Token
  | .token t => some t
  | .exhausted _ => none

end Answer

/-- What one reading brings. -/
structure Reading where
  answer : Answer
  /-- The complaints raised on the way. -/
  complaints : List Diagnostic
  /-- The trivia passed over on the way. -/
  passed : List Token
deriving DecidableEq

/-- Something that tokens can be read from. -/
class TokenSource (σ : Type) where
  read : σ → Reading × σ
  /-- A bound on the number of tokens still to come. -/
  remaining : σ → Nat
  remaining_lt : ∀ s t, (read s).1.answer = .token t → remaining (read s).2 < remaining s

namespace TokenSource

variable {σ : Type} [TokenSource σ]

/-- Reads on up to the end of input, or up to the first answer without a token; the readings made
before stand in reverse order in `made`. -/
def readOn (made : List Reading) (s : σ) : List Reading :=
  let r := read s
  match _h : r.1.answer with
  | .exhausted _ => (r.1 :: made).reverse
  | .token t =>
    if t.kind = .endOfInput then (r.1 :: made).reverse else readOn (r.1 :: made) r.2
termination_by remaining s
decreasing_by exact remaining_lt s t _h

/-- All readings up to the end of input, or up to the first answer without a token. -/
def readings (s : σ) : List Reading := readOn [] s

end TokenSource

end DeclFront
