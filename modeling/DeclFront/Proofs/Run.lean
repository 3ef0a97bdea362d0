import DeclFront.Proofs.Steps

/-!
# Running a parser on a cursor

What the primitive parsers do to a cursor, as equations, and the two rules by which larger parsers
are taken apart: a sequence runs its second part where the first one stopped (`Parser.bind_apply`),
and a property of a loop follows from three cases of its rounds (`Parser.loop_induction`).
-/

namespace DeclFront

namespace Parser

variable {α β σ : Type} {c : Cursor}

@[simp] theorem bind_apply (p : Parser α) (k : α → Parser β) (c : Cursor) :
    (p >>= k) c = k (p c).1 (p c).2 := (rfl)

@[simp] theorem pure_apply (a : α) (c : Cursor) : (pure a : Parser α) c = (a, c) := (rfl)

@[simp] theorem map_apply (f : α → β) (p : Parser α) (c : Cursor) :
    (f <$> p) c = (f (p c).1, (p c).2) := (rfl)

/-! ## Looking and consuming -/

@[simp] theorem current_apply (c : Cursor) : current c = (c.current, c) := (rfl)

@[simp] theorem currentKind_apply (c : Cursor) : currentKind c = (c.current.kind, c) := (rfl)

@[simp] theorem check_apply (k : TokenKind) (c : Cursor) :
    check k c = (c.current.kind == k, c) := (rfl)

@[simp] theorem checkSet_apply (s : KindSet) (c : Cursor) :
    checkSet s c = (s.contains c.current.kind, c) := (rfl)

@[simp] theorem isAtEnd_apply (c : Cursor) : isAtEnd c = (c.current.kind == .endOfInput, c) := (rfl)

@[simp] theorem consumedTo_apply (c : Cursor) : consumedTo c = (c.consumedTo, c) := (rfl)

@[simp] theorem peekKind_apply (c : Cursor) : peekKind c = (c.peek.1.kind, c.peek.2) := (rfl)

@[simp] theorem advance_apply (c : Cursor) : advance c = (c.current, c.advance) := (rfl)

theorem eat_of_eq {k : TokenKind} (h : c.current.kind = k) :
    eat k c = (some c.current, c.advance) := by
  simp [eat, h]

theorem eat_of_ne {k : TokenKind} (h : c.current.kind ≠ k) : eat k c = (none, c) := by
  simp [eat, h]

/-! ## Complaining -/

@[simp] theorem report_apply (d : Diagnostic) (c : Cursor) : report d c = ((), c.report d) := (rfl)

@[simp] theorem missing_apply (k : TokenKind) (c : Cursor) :
    missing k c = ((), c.report (Cursor.complaint .missingToken (.singleton k) c.current)) := (rfl)

theorem unexpected_of_invalid {ks : List TokenKind} (h : c.current.kind = .invalid) :
    unexpected ks c = ((), c) := by
  simp [unexpected, h]

theorem unexpected_of_valid {ks : List TokenKind} (h : c.current.kind ≠ .invalid) :
    unexpected ks c =
      ((), c.report (Cursor.complaint .unexpectedToken (.ofList ks) c.current)) := by
  simp [unexpected, h, Cursor.complaint]

theorem tokens_unexpected (ks : List TokenKind) (c : Cursor) :
    (unexpected ks c).2.tokens = c.tokens := by
  by_cases hk : c.current.kind = .invalid
  · rw [unexpected_of_invalid hk]
  · simp [unexpected_of_valid hk]

theorem current_unexpected (ks : List TokenKind) (c : Cursor) :
    (unexpected ks c).2.current = c.current :=
  (List.cons.inj (tokens_unexpected ks c)).1

theorem expect_of_eq {k : TokenKind} (h : c.current.kind = k) :
    expect k c = (some c.current, c.advance) := by
  simp [expect, eat_of_eq h]

theorem expect_of_ne {k : TokenKind} (h : c.current.kind ≠ k) :
    expect k c = (none, c.report (Cursor.complaint .missingToken (.singleton k) c.current)) := by
  simp [expect, eat_of_ne h]

/-! ## Lists in brackets -/

theorem bracketed_of_empty {empty : DiagnosticCode} {round : Parser (Round α)}
    (h : c.advance.current.kind = .rightBracket) :
    bracketed empty round c =
      (([], ⟨c.current.start, (c.skipEmpty empty).consumedTo⟩), c.skipEmpty empty) := by
  simp [bracketed, eat_of_eq h, Cursor.skipEmpty, Cursor.emptyComplaint]

theorem bracketed_of_ne {empty : DiagnosticCode} {round : Parser (Round α)}
    (h : c.advance.current.kind ≠ .rightBracket) :
    bracketed empty round c =
      (do
        let items ← collect round
        closeBracket
        return (items, ⟨c.current.start, ← consumedTo⟩) : Parser (List α × Span)) c.advance := by
  simp [bracketed, eat_of_ne h]

/-! ## Loops -/

/-- One turn of a loop. -/
theorem loop_apply (round : σ → Parser (ForInStep σ)) (s : σ) (c : Cursor) :
    loop round s c =
      match (round s c).1 with
      | .done t => (t, (round s c).2)
      | .yield t =>
        if (round s c).2.left < c.left then loop round t (round s c).2 else (t, (round s c).2) := by
  rw [loop]
  generalize round s c = r
  obtain ⟨step, d⟩ := r
  cases step <;> rfl

/-- What holds behind the last round, and before a round when it holds behind it, holds of the whole
loop. -/
theorem loop_induction {round : σ → Parser (ForInStep σ)} {P : σ → Cursor → σ × Cursor → Prop}
    (hdone : ∀ s c t, (round s c).1 = .done t → P s c (t, (round s c).2))
    (hstop : ∀ s c t, (round s c).1 = .yield t → ¬ (round s c).2.left < c.left →
      P s c (t, (round s c).2))
    (hyield : ∀ s c t r, (round s c).1 = .yield t → (round s c).2.left < c.left →
      P t (round s c).2 r → P s c r)
    (s : σ) (c : Cursor) : P s c (loop round s c) := by
  induction hn : c.left using Nat.strongRecOn generalizing s c with
  | ind n ih =>
    subst hn
    rw [loop_apply]
    cases hr : (round s c).1 with
    | done t => exact hdone s c t hr
    | yield t =>
      by_cases hlt : (round s c).2.left < c.left
      · simpa [hlt] using hyield s c t _ hr hlt (ih _ hlt t _ rfl)
      · simpa [hlt] using hstop s c t hr hlt

/-- The last round of a list. -/
theorem collectRound_eq_done_iff {round : Parser (Round α)} {found as : List α} :
    (collectRound round found c).1 = .done as ↔
      (round c).1.again = false ∧ (round c).1.item.toList ++ found = as := by
  cases hagain : (round c).1.again <;> simp [collectRound, hagain]

/-- A round of a list behind which another one follows. -/
theorem collectRound_eq_yield_iff {round : Parser (Round α)} {found as : List α} :
    (collectRound round found c).1 = .yield as ↔
      (round c).1.again = true ∧ (round c).1.item.toList ++ found = as := by
  cases hagain : (round c).1.again <;> simp [collectRound, hagain]

/-- The last round of skipping the kinds of a set. -/
theorem skipRound_of_done {s : KindSet} {u t : Unit} (h : (skipRound s u c).1 = .done t) :
    s.contains c.current.kind = false ∧ (skipRound s u c).2 = c := by
  cases hk : s.contains c.current.kind with
  | true => simp [skipRound, hk] at h
  | false => simp [skipRound, hk]

/-- A round of skipping the kinds of a set behind which another one follows. -/
theorem skipRound_of_yield {s : KindSet} {u t : Unit} (h : (skipRound s u c).1 = .yield t) :
    s.contains c.current.kind = true ∧ (skipRound s u c).2 = c.advance := by
  cases hk : s.contains c.current.kind with
  | true => simp [skipRound, hk]
  | false => simp [skipRound, hk] at h

/-- One turn of skipping the kinds of a set. -/
theorem skipSet_apply (s : KindSet) (c : Cursor) : skipSet s c =
    if s.contains c.current.kind then
      if c.advance.left < c.left then skipSet s c.advance else ((), c.advance)
    else ((), c) := by
  rw [skipSet, loop_apply]
  by_cases hk : s.contains c.current.kind = true
  · simp [skipRound, hk]
  · simp [skipRound, hk]

end Parser

end DeclFront
