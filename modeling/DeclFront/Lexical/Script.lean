import DeclFront.Lexical.TokenSource

/-!
# A source that follows a script

A source that gives the answers of a list in order. Behind the list it is exhausted, at the token
of the last answer.
-/

namespace DeclFront

/-- The answers still to be given, and how many readings have been made. -/
structure Script where
  ahead : List Answer
  /-- The token to show when the list is used up. -/
  last : Token
  reads : Nat
deriving DecidableEq

namespace Script

/-- The script of a first answer and those behind it. -/
def ofList (a : Answer) (as : List Answer) : Script :=
  ⟨a :: as, ((a :: as).getLast (List.cons_ne_nil a as)).value, 0⟩

def read (s : Script) : Reading × Script :=
  match s.ahead with
  | [] => (⟨.exhausted s.last, [], []⟩, { s with reads := s.reads + 1 })
  | a :: as => (⟨a, [], []⟩, { s with ahead := as, reads := s.reads + 1 })

instance : TokenSource Script where
  read := read
  remaining s := s.ahead.length
  remaining_lt s t h := by
    cases hs : s.ahead <;> simp_all [read]

end Script

end DeclFront
