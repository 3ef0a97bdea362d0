import DeclFront.Lexical.TokenSource

/-!
# Leaving trivia out

A stage over any token source that gives the source's answers without the trivia. What it passes
over it drops or, if asked to, holds until it is taken. An answer that the source is exhausted goes
through unchanged, whatever the kind of its token.
-/

namespace DeclFront

/-- What becomes of the trivia that is passed over. -/
inductive TriviaPolicy where
  | discard | collect
deriving DecidableEq

/-- The stage over a source. -/
structure Significant (σ : Type) where
  inner : σ
  policy : TriviaPolicy
  /-- The trivia held, in the order of the text. -/
  held : List Token
deriving DecidableEq

namespace Significant

variable {σ : Type} [TokenSource σ]

/-- The stage over `inner`, at its start. -/
def ofSource (inner : σ) (policy : TriviaPolicy := .discard) : Significant σ := ⟨inner, policy, []⟩

/-- The next answer of a source that is no trivia, with all that was raised and passed over on the
way to it; what the source passes over itself is not among it. Complaints and trivia from before
stand in `raised` and `passed`. -/
def pass (raised : List Diagnostic) (passed : List Token) (s : σ) : Reading × σ :=
  let r := TokenSource.read s
  let raised := raised ++ r.1.complaints
  match _h : r.1.answer with
  | .exhausted t => (⟨.exhausted t, raised, passed⟩, r.2)
  | .token t =>
    if t.kind.isTrivia then pass raised (passed ++ [t]) r.2
    else (⟨.token t, raised, passed⟩, r.2)
termination_by TokenSource.remaining s
decreasing_by exact TokenSource.remaining_lt s t _h

theorem remaining_pass_lt (raised : List Diagnostic) (passed : List Token) (s : σ) (t : Token)
    (h : (pass raised passed s).1.answer = .token t) :
    TokenSource.remaining (pass raised passed s).2 < TokenSource.remaining s := by
  fun_induction pass raised passed s with
  | case1 => simp at h
  | case2 _ _ s _ _ u hu _ ih => exact Nat.lt_trans (ih h) (TokenSource.remaining_lt s u hu)
  | case3 _ _ s _ _ u hu => exact TokenSource.remaining_lt s u hu

/-- Gives the next answer that is no trivia, and holds the trivia before it if asked to. -/
def read (s : Significant σ) : Reading × Significant σ :=
  let (reading, inner) := pass [] [] s.inner
  (reading, { s with
    inner
    held := match s.policy with
      | .discard => s.held
      | .collect => s.held ++ reading.passed })

/-- Hands out the trivia held. -/
def takeTrivia (s : Significant σ) : List Token × Significant σ := (s.held, { s with held := [] })

instance : TokenSource (Significant σ) where
  read := read
  remaining s := TokenSource.remaining s.inner
  remaining_lt s t h := remaining_pass_lt [] [] s.inner t h

end Significant

end DeclFront
