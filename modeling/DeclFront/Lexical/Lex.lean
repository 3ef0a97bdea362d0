import DeclFront.Diagnostic.Sink
import DeclFront.Lexical.Reader
import DeclFront.Lexical.Significant

/-!
# Lexing a whole text

All tokens of a text with the diagnostics about them, either every token or the significant ones
alone. The trivia left out still has its complaints reported.
-/

namespace DeclFront

/-- The tokens of a text, which end with one end of input, and the diagnostics in the order of
display. -/
structure LexOutput where
  tokens : List Token
  diagnostics : List Diagnostic
deriving DecidableEq

namespace LexOutput

def hasErrors (o : LexOutput) : Bool := o.diagnostics.any Diagnostic.isError

end LexOutput

/-- Reads a source to its end and reports into a sink. -/
def TokenSource.collect {σ : Type} [TokenSource σ] (s : σ) (sink : Sink) : LexOutput :=
  let made := TokenSource.readings s
  ⟨made.filterMap (·.answer.token?), (sink.reportAll (made.flatMap (·.complaints))).sorted⟩

/-- Every token of a source. At most `limit` diagnostics are kept, or all if it is zero. -/
def lexRaw (s : Source) (limit : Nat) : LexOutput :=
  TokenSource.collect (Reader.ofSource s) (Sink.ofUserLimit limit)

/-- The tokens of a source without trivia. -/
def lexSignificant (s : Source) (limit : Nat) : LexOutput :=
  TokenSource.collect (Significant.ofSource (Reader.ofSource s)) (Sink.ofUserLimit limit)

end DeclFront
