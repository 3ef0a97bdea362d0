import DeclFront.Diagnostic.Sink
import DeclFront.Lexical.Reader
import DeclFront.Lexical.Significant

/-!
# A place in the tokens of a text

The parser stands before a **current** token and may look at the one behind it. Trivia is left out
of what it sees, and the current token at the end is the end of input.

**What was noticed.** A token brings along the complaints and the trivia that were met on the way to
it. They count as noticed from the moment the token is current or was looked at, so a look ahead
notices them early, and each of them is noticed once. The parser adds complaints of its own. All
complaints are kept in the order in which they were raised.

**One complaint to a token.** Of the complaints that a token is unexpected or missing, only the
first of those raised at one offset in succession is kept.
-/

namespace DeclFront

/-- A place in the tokens of a text, and what was noticed up to it. -/
structure Cursor where
  current : Token
  /-- The readings behind the current token. -/
  ahead : List Reading
  /-- The number of those readings. -/
  left : Nat
  left_eq : left = ahead.length
  /-- The complaints raised so far, the latest first. -/
  raised : List Diagnostic
  /-- The trivia passed so far, the latest first. -/
  passed : List Token
  /-- Where the last consumed token ends. -/
  consumedTo : Nat
  /-- The offset of the last complaint about a token. -/
  complainedAt : Option Nat
deriving DecidableEq

namespace Cursor

/-- The reading without what was met on the way to it. -/
def quiet (r : Reading) : Reading := { r with complaints := [], passed := [] }

/-- Before the first token of the readings of a text. -/
def ofReadings : List Reading → Cursor
  | [] => ⟨⟨.endOfInput, .origin, 0⟩, [], 0, rfl, [], [], 0, none⟩
  | r :: rs =>
    ⟨r.answer.value, rs, rs.length, rfl, r.complaints.reverse, r.passed.reverse, 0, none⟩

/-- Before the first token of a list of characters. -/
def ofChars (cs : List Char) : Cursor :=
  ofReadings (TokenSource.readings (Significant.ofSource (Reader.ofChars cs)))

/-- Looks at the token behind the current one; at the end that is the current one again. -/
def peek (c : Cursor) : Token × Cursor :=
  match h : c.ahead with
  | [] => (c.current, c)
  | r :: rs =>
    (r.answer.value,
      { c with
        ahead := quiet r :: rs
        left_eq := by simp [c.left_eq, h]
        raised := r.complaints.reverse ++ c.raised
        passed := r.passed.reverse ++ c.passed })

/-- Consumes the current token; at the end, stays. -/
def advance (c : Cursor) : Cursor :=
  match h : c.ahead with
  | [] => c
  | r :: rs =>
    { c with
      current := r.answer.value
      ahead := rs
      left := c.left - 1
      left_eq := by simp [c.left_eq, h]
      raised := r.complaints.reverse ++ c.raised
      passed := r.passed.reverse ++ c.passed
      consumedTo := c.current.stop }

/-- Raises a complaint, unless it is about a token and one about the same token was just raised. -/
def report (c : Cursor) (d : Diagnostic) : Cursor :=
  if d.code.isTokenComplaint then
    if c.complainedAt = some d.offset then c
    else { c with raised := d :: c.raised, complainedAt := some d.offset }
  else { c with raised := d :: c.raised }

/-- The diagnostics, in the order of display; at most `limit`, or all if it is zero. -/
def diagnostics (c : Cursor) (limit : Nat) : List Diagnostic :=
  ((Sink.ofUserLimit limit).reportAll c.raised.reverse).sorted

/-- The trivia passed so far, if it is collected. -/
def trivia (c : Cursor) : TriviaPolicy → List Token
  | .discard => []
  | .collect => c.passed.reverse

/-! ## Progress -/

@[simp] theorem left_peek (c : Cursor) : c.peek.2.left = c.left := by
  unfold peek; split <;> rfl

@[simp] theorem left_report (c : Cursor) (d : Diagnostic) : (c.report d).left = c.left := by
  unfold report; split <;> (try split) <;> rfl

theorem left_advance (c : Cursor) : c.advance.left = c.left - 1 := by
  unfold advance
  split
  · rename_i h; simp [c.left_eq, h]
  · rfl

end Cursor

end DeclFront
