import DeclFront.Proofs.Whereabouts

/-!
# Along the tokens of a text

What the parser knows at each place on its way through a text (`Cursor.Along`): the tokens that were
consumed end where it was consumed to, and every token that it may be silent about has been answered
for. It is silent about an invalid token, of which the lexer complains, and about a token that it
complained about just before.

**Answers.** An offset is answered for (`Cursor.Answers`) if an error about a missing or unexpected
token, a missing header or an invalid character at this offset was raised or is about to be. Once
answered for, an offset stays so (`Cursor.Reaches.answers`).
-/

namespace DeclFront

open DeclFront.Parser

namespace Cursor

variable {c d : Cursor} {ts : List Token}

/-! ## Answers -/

/-- The complaints that answer for a token that is lacking. -/
def answering : List DiagnosticCode :=
  [.unexpectedToken, .missingToken, .missingHeader, .invalidCharacter]

theorem mem_answering {code : DiagnosticCode} (h : code.isTokenComplaint = true) :
    code ∈ answering := by
  revert h
  cases code <;> decide

/-- There is an error at the offset `n` that answers for a token that is lacking there. -/
def Answers (c : Cursor) (n : Nat) : Prop :=
  ∃ x ∈ c.findings, x.offset = n ∧ x.isError ∧ x.code ∈ answering

theorem Step.answers {n : Nat} (hs : Step c d) (h : c.Answers n) : d.Answers n := by
  obtain ⟨x, hx, h⟩ := h
  exact ⟨x, hs.mem_findings hx, h⟩

theorem Reaches.answers {n : Nat} (hr : c.Reaches d) (h : c.Answers n) : d.Answers n :=
  hr.keeps Step.answers h

/-! ## Cursors along a text -/

/-- Before the tokens `ts` of a text or behind some of them; and where the parser is silent about a
token, it is answered for. -/
structure Along (ts : List Token) (c : Cursor) : Prop where
  closed : c.Closed
  ordered : Ordered ts
  passed : ∃ before, ts = before ++ c.tokens ∧ c.consumedTo = lastStop 0 before
  answers_invalid : ∀ t ∈ c.tokens, t.kind = .invalid → c.Answers t.start
  answers_complained : ∀ n, c.complainedAt = some n → c.Answers n

/-- A complaint of the parser that is raised about the current token answers for its offset. One
that is muted does not need to. -/
theorem Along.answers_report (h : c.Along ts) {code : DiagnosticCode} (expected : ExpectedKinds)
    (hcode : code ∈ answering) : (c.report (complaint code expected c.current)).Answers
      c.current.start := by
  rcases raised_report c (complaint code expected c.current) with hr | ⟨hat, hr⟩
  · exact ⟨complaint code expected c.current, by simp [findings, hr], rfl, rfl, hcode⟩
  · obtain ⟨x, hx, hanswer⟩ := h.answers_complained _ hat
    exact ⟨x, mem_findings_report hx, hanswer⟩

theorem Along.report (h : c.Along ts) (x : Diagnostic)
    (hx : x.code.isTokenComplaint = true → (c.report x).Answers x.offset) :
    (c.report x).Along ts := by
  have hkeep {n : Nat} (hn : c.Answers n) : (c.report x).Answers n := by
    obtain ⟨y, hy, hanswer⟩ := hn
    exact ⟨y, mem_findings_report hy, hanswer⟩
  refine ⟨by simpa [Closed] using h.closed, h.ordered, by simpa using h.passed, ?_, ?_⟩
  · rw [tokens_report]
    exact fun t ht hk => hkeep (h.answers_invalid t ht hk)
  · intro n hn
    rcases complainedAt_report c x with heq | ⟨hcode, heq⟩
    · exact hkeep (h.answers_complained n (heq ▸ hn))
    · exact Option.some.inj (heq.symm.trans hn) ▸ hx hcode

theorem Along.advance (h : c.Along ts) : c.advance.Along ts := by
  have hs : Step c c.advance := .advance
  refine ⟨closed_advance h.closed, h.ordered, ?_, fun t ht hk => ?_, fun n hn => ?_⟩
  · obtain ⟨before, hts, hto⟩ := h.passed
    by_cases hk : c.current.kind = .endOfInput
    · rw [h.closed.advance_of_end hk]
      exact ⟨before, hts, hto⟩
    · refine ⟨before ++ [c.current], ?_, ?_⟩
      · rw [hts, h.closed.tokens_advance hk, List.append_assoc, List.singleton_append]
      · rw [h.closed.consumedTo_advance hk, lastStop_append]
        rfl
  · exact hs.answers (h.answers_invalid t ((tokens_advance_suffix c).subset ht) hk)
  · exact hs.answers (h.answers_complained n (complainedAt_advance c ▸ hn))

theorem Step.along (hs : Step c d) (h : c.Along ts) : d.Along ts := by
  cases hs with
  | peek hk =>
    have hs : Step c c.peek.2 := .peek hk
    refine ⟨hs.closed h.closed, h.ordered, by simpa using h.passed, ?_, ?_⟩
    · exact fun t ht hk => hs.answers (h.answers_invalid t (tokens_peek c ▸ ht) hk)
    · exact fun n hn => hs.answers (h.answers_complained n (complainedAt_peek c ▸ hn))
  | advance => exact h.advance
  | @complain code expected =>
    exact h.report _ fun htoken => h.answers_report expected (mem_answering htoken)
  | skipEmpty hcode =>
    refine h.advance.advance.report _ fun htoken => ?_
    rcases hcode with rfl | rfl <;> exact absurd htoken Bool.false_ne_true

theorem Reaches.along (hr : c.Reaches d) (h : c.Along ts) : d.Along ts := hr.keeps Step.along h

/-- The beginning of a text. -/
theorem along_ofChars (cs : List Char) : (ofChars cs).Along (ofChars cs).tokens := by
  have hstart : (ofChars cs).complainedAt = none ∧ (ofChars cs).consumedTo = 0 := by
    rw [ofReadings_eq]
    cases Segment.readings TokenKind.isTrivia cs <;> exact ⟨rfl, rfl⟩
  refine ⟨closed_ofChars cs, (timely_ofChars cs).ordered, ⟨[], rfl, hstart.2⟩, ?_, ?_⟩
  · intro t ht hk
    rw [tokens_ofChars] at ht
    rcases List.mem_append.1 ht with ht | ht
    · obtain ⟨s, hs, hts⟩ := List.mem_filterMap.1 (List.mem_filter.1 ht).1
      obtain ⟨k, hkind, rfl⟩ := Option.map_eq_some_iff.1 hts
      have hcode := Segment.complaint_of_invalid hs (hkind.trans (congrArg some hk))
      refine ⟨.about .invalidCharacter .lexing s.position s.length, ?_, rfl, rfl,
        (by decide : DiagnosticCode.invalidCharacter ∈ answering)⟩
      rw [findings_ofChars]
      exact List.mem_filterMap.2 ⟨s, hs, congrArg (Option.map _) hcode⟩
    · rw [List.mem_singleton.1 ht] at hk
      exact absurd hk (by simp [endOfInput])
  · simp [hstart.1]

/-! ## Places along a text -/

theorem lastStop_le {n m : Nat} {ts : List Token} (hn : n ≤ m) (h : ∀ t ∈ ts, t.stop ≤ m) :
    lastStop n ts ≤ m := by
  induction ts generalizing n with
  | nil => exact hn
  | cons t ts ih =>
    exact ih (h t List.mem_cons_self) fun u hu => h u (List.mem_cons_of_mem t hu)

theorem stop_le_lastStop_of_mem {ts : List Token} (hts : Ordered ts) {t : Token} (ht : t ∈ ts)
    (n : Nat) : t.stop ≤ lastStop n ts := by
  have hne : [t] ≠ [] := by simp
  obtain ⟨before, behind, rfl⟩ := List.append_of_mem ht
  have := stop_ofTokens_le hts ⟨before, behind, by simp⟩ hne n
  exact this

namespace Along

variable (h : c.Along ts)

include h

/-- No token of the text stands across the place between what was consumed and the current token. -/
theorem apart : ∀ t ∈ ts, t.stop ≤ c.consumedTo ∨ c.current.start ≤ t.start := by
  obtain ⟨before, hts, hto⟩ := h.passed
  have hordered := h.ordered
  rw [hts] at hordered ⊢
  have hparts := List.pairwise_append.1 hordered
  intro t ht
  rcases List.mem_append.1 ht with ht | ht
  · exact .inl (hto ▸ stop_le_lastStop_of_mem hparts.1 ht 0)
  · rcases List.mem_cons.1 ht with rfl | ht
    · exact .inr (Nat.le_refl _)
    · exact .inr (Nat.le_trans (Nat.le_add_right _ _) (List.rel_of_pairwise_cons hparts.2.1 ht))

theorem consumedTo_le : c.consumedTo ≤ c.current.start := by
  obtain ⟨before, hts, hto⟩ := h.passed
  have hordered := h.ordered
  rw [hts] at hordered
  rw [hto]
  refine lastStop_le (Nat.zero_le _) fun t ht => ?_
  exact (List.pairwise_append.1 hordered).2.2 t ht c.current List.mem_cons_self

theorem mem_current : c.current ∈ ts := by
  obtain ⟨before, hts, -⟩ := h.passed
  rw [hts]
  exact List.mem_append_right _ List.mem_cons_self

theorem start_le : c.current.start ≤ lastStop 0 ts :=
  Nat.le_trans (Nat.le_add_right _ _) (stop_le_lastStop_of_mem h.ordered h.mem_current 0)

end Along

/-- A place that is consumed to, or at the current token, stays so. -/
theorem Step.reached (hs : Step c d) (hc : c.Along ts) : c.consumedTo ≤ d.consumedTo ∧
    (d.current = c.current ∨ c.current.start ≤ d.consumedTo) := by
  have hadvance {e : Cursor} (he : e.Along ts) : e.consumedTo ≤ e.advance.consumedTo ∧
      (e.advance.current = e.current ∨ e.current.start ≤ e.advance.consumedTo) := by
    by_cases hk : e.current.kind = .endOfInput
    · rw [he.closed.advance_of_end hk]
      exact ⟨Nat.le_refl _, .inl rfl⟩
    · rw [he.closed.consumedTo_advance hk]
      have hle : e.current.start ≤ e.current.stop := Nat.le_add_right _ _
      exact ⟨Nat.le_trans he.consumedTo_le hle, .inr hle⟩
  cases hs with
  | peek => simp
  | advance => exact hadvance hc
  | complain => simp
  | skipEmpty =>
    obtain ⟨hle, hcurrent⟩ := hadvance hc
    obtain ⟨hle', hcurrent'⟩ := hadvance hc.advance
    simp only [Cursor.skipEmpty, consumedTo_report, current_report]
    refine ⟨Nat.le_trans hle hle', ?_⟩
    rcases hcurrent with hcurrent | hcurrent
    · rwa [hcurrent] at hcurrent'
    · exact .inr (Nat.le_trans hcurrent hle')

theorem Reaches.reached (hr : c.Reaches d) (hc : c.Along ts) : c.consumedTo ≤ d.consumedTo ∧
    (d.current = c.current ∨ c.current.start ≤ d.consumedTo) := by
  refine (hr.keeps (P := fun e => e.Along ts ∧ c.consumedTo ≤ e.consumedTo ∧
    (e.current = c.current ∨ c.current.start ≤ e.consumedTo)) ?_
    ⟨hc, Nat.le_refl _, .inl rfl⟩).2
  intro e f hs ⟨he, hle, hcurrent⟩
  obtain ⟨hle', hcurrent'⟩ := hs.reached he
  refine ⟨hs.along he, Nat.le_trans hle hle', ?_⟩
  rcases hcurrent with hcurrent | hcurrent
  · rwa [hcurrent] at hcurrent'
  · exact .inr (Nat.le_trans hcurrent hle')

/-- The parser does not go back. -/
theorem Reaches.start_le (hr : c.Reaches d) (hc : c.Along ts) :
    c.current.start ≤ d.current.start := by
  rcases (hr.reached hc).2 with hcurrent | hle
  · rw [hcurrent]
  · exact Nat.le_trans hle (hr.along hc).consumedTo_le

end Cursor

end DeclFront
