import DeclFront.Lexical.Segment
import DeclFront.Lexical.TokenSource
import DeclFront.Source

/-!
# Reading every token of a text

The reader gives the tokens of a text one by one, trivia included, and then one end of input. A
blank that is not allowed yields no token: its complaint is raised with the token behind it.
-/

namespace DeclFront

/-- A reader that stands between two segments of a text. -/
structure Reader where
  /-- The segments still to be read. -/
  ahead : List Segment
  /-- Where the text ends. -/
  stop : Position
  /-- The end of input has been given. -/
  finished : Bool
deriving DecidableEq

namespace Reader

/-- The reader of a list of characters. -/
def ofChars (cs : List Char) : Reader :=
  ⟨Segment.ofText .origin cs, Position.origin.after cs, false⟩

/-- The reader of a source. -/
def ofSource (s : Source) : Reader := ofChars s.chars

/-- Goes on to the next token. The complaints raised before stand in reverse order in `raised`. -/
def next (stop : Position) (finished : Bool) (raised : List Diagnostic) :
    List Segment → Reading × Reader
  | [] =>
    let t : Token := ⟨.endOfInput, stop, 0⟩
    (⟨if finished then .exhausted t else .token t, raised.reverse, []⟩, ⟨[], stop, true⟩)
  | s :: ahead =>
    let raised := s.diagnostic?.toList ++ raised
    match s.token? with
    | some t => (⟨.token t, raised.reverse, []⟩, ⟨ahead, stop, finished⟩)
    | none => next stop finished raised ahead

/-- Gives the next token. -/
def read (r : Reader) : Reading × Reader := next r.stop r.finished [] r.ahead

/-- How many tokens can still come. -/
def remaining (r : Reader) : Nat := r.ahead.length + if r.finished then 0 else 1

theorem remaining_next_lt (stop : Position) (finished : Bool) (raised : List Diagnostic)
    (ahead : List Segment) (t : Token)
    (h : (next stop finished raised ahead).1.answer = .token t) :
    (next stop finished raised ahead).2.remaining < (Reader.mk ahead stop finished).remaining := by
  induction ahead generalizing raised with
  | nil => cases finished <;> simp_all [next, remaining]
  | cons s ahead ih =>
    unfold next at h ⊢
    cases hs : s.token? with
    | some t => simp [remaining]
    | none =>
      simp only [hs] at h ⊢
      have := ih _ h
      simp only [remaining, List.length_cons] at this ⊢
      omega

instance : TokenSource Reader where
  read := read
  remaining := remaining
  remaining_lt r t h := remaining_next_lt r.stop r.finished [] r.ahead t h

end Reader

end DeclFront
