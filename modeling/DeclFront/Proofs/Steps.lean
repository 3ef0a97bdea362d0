import DeclFront.Parser.Module
import Mathlib.Logic.Relation

/-!
# The moves of a parser

Whatever a parser does to a cursor is made of four moves: it looks behind the current token,
consumes the current token, complains about the current token, or consumes an empty pair of brackets
and complains about it (`Cursor.Step`). What every move keeps, every parser keeps, so that a
property of all parsers is proved by one case for each move (`Cursor.Reaches.keeps`).

**Closed cursors.** The tokens of a text end with the end of input, which stands nowhere else. On
such a cursor every token but the last can be consumed, and consuming it leaves fewer tokens.
-/

namespace DeclFront

/-! ## Tokens that end -/

/-- The last token, and no other, is the end of input. -/
inductive Terminated : List Token → Prop
  | last {t : Token} (h : t.kind = .endOfInput) : Terminated [t]
  | cons {t : Token} {ts : List Token} (h : t.kind ≠ .endOfInput) (hts : Terminated ts) :
    Terminated (t :: ts)

theorem Terminated.ne_nil {ts : List Token} (h : Terminated ts) : ts ≠ [] := by
  cases h <;> simp

theorem terminated_cons_iff {t : Token} {ts : List Token} : Terminated (t :: ts) ↔
    t.kind = .endOfInput ∧ ts = [] ∨ t.kind ≠ .endOfInput ∧ Terminated ts := by
  constructor
  · intro h
    cases h with
    | last h => exact .inl ⟨h, rfl⟩
    | cons h hts => exact .inr ⟨h, hts⟩
  · rintro (⟨h, rfl⟩ | ⟨h, hts⟩)
    · exact .last h
    · exact .cons h hts

/-- The end of input is behind the other tokens, and not in front of them. -/
theorem terminated_append_iff {ts us : List Token} (hne : us ≠ []) :
    Terminated (ts ++ us) ↔ (∀ t ∈ ts, t.kind ≠ .endOfInput) ∧ Terminated us := by
  induction ts with
  | nil => simp
  | cons t ts ih =>
    have hrest : ts ++ us ≠ [] := List.append_ne_nil_of_right_ne_nil ts hne
    rw [List.cons_append, terminated_cons_iff, ih, List.forall_mem_cons, and_assoc]
    exact or_iff_right fun h => hrest h.2

theorem Terminated.kind_ne {ts us : List Token} (h : Terminated (ts ++ us)) (hne : us ≠ []) :
    ∀ t ∈ ts, t.kind ≠ .endOfInput :=
  ((terminated_append_iff hne).1 h).1

/-- Nothing is behind the end of input. -/
theorem Terminated.le_of_end {ts : List Token} {t : Token} {n k : Nat} (h : Terminated ts)
    (ht : ts[n]? = some t) (hend : t.kind = .endOfInput) (hk : k < ts.length) : k ≤ n := by
  refine Nat.le_of_not_lt fun hlt => ?_
  rw [← List.take_append_drop (n + 1) ts] at h
  refine h.kind_ne ?_ t ?_ hend
  · rw [ne_eq, List.drop_eq_nil_iff]
    omega
  · rw [List.take_add_one, ht]
    exact List.mem_append_right _ List.mem_cons_self

namespace Cursor

variable {c d : Cursor}

/-- The tokens from the current one on. -/
def tokens (c : Cursor) : List Token := c.current :: c.ahead.map (·.answer.value)

theorem length_tokens (c : Cursor) : c.tokens.length = c.left + 1 := by
  simp [tokens, c.left_eq]

/-- The tokens end with the end of input, and have no other. -/
def Closed (c : Cursor) : Prop := Terminated c.tokens

/-! ## The moves -/

/-- A complaint of the parser about a token. -/
def complaint (code : DiagnosticCode) (expected : ExpectedKinds) (t : Token) : Diagnostic :=
  (Diagnostic.aboutToken code .parsing t).withExpected expected

/-- The complaint about an empty list in brackets. -/
def emptyComplaint (code : DiagnosticCode) (bracket close : Token) : Diagnostic :=
  .about code .parsing bracket.position (close.stop - bracket.start)

/-- The codes of complaints about an empty list. -/
def IsEmptyList (code : DiagnosticCode) : Prop :=
  code = .emptyGenericParams ∨ code = .emptyGenericArgs

/-- Consumes an empty list, which begins at the current token, and complains about it. -/
def skipEmpty (code : DiagnosticCode) (c : Cursor) : Cursor :=
  c.advance.advance.report (emptyComplaint code c.current c.advance.current)

/-- One move of a parser. -/
inductive Step : Cursor → Cursor → Prop
  /-- The token behind is looked at where two tokens tell what begins. -/
  | peek {c : Cursor} (h : c.current.kind = .identifier ∨ c.current.kind = .leftBracket) :
    Step c c.peek.2
  | advance {c : Cursor} : Step c c.advance
  | complain {c : Cursor} {code : DiagnosticCode} {expected : ExpectedKinds}
    (hcode : code.concern = .syntactic)
    (hinvalid : code = .unexpectedToken → c.current.kind ≠ .invalid) :
    Step c (c.report (complaint code expected c.current))
  | skipEmpty {c : Cursor} {code : DiagnosticCode} (hcode : IsEmptyList code)
    (hclose : c.advance.current.kind = .rightBracket) : Step c (c.skipEmpty code)

/-- Some moves lead from one cursor to the other. -/
def Reaches : Cursor → Cursor → Prop := Relation.ReflTransGen Step

theorem Reaches.refl (c : Cursor) : c.Reaches c := Relation.ReflTransGen.refl

theorem Reaches.trans {e : Cursor} (h : c.Reaches d) (h' : d.Reaches e) : c.Reaches e :=
  Relation.ReflTransGen.trans h h'

theorem Step.reaches (h : Step c d) : c.Reaches d := Relation.ReflTransGen.single h

/-- What every move keeps, every sequence of moves keeps. -/
theorem Reaches.keeps {P : Cursor → Prop} (hstep : ∀ {c d}, Step c d → P c → P d)
    (h : c.Reaches d) (hc : P c) : P d := by
  induction h with
  | refl => exact hc
  | tail _ hs ih => exact hstep hs ih

/-! ## What a move does to each part of a cursor -/

@[simp] theorem current_peek (c : Cursor) : c.peek.2.current = c.current := by
  unfold peek; split <;> rfl

@[simp] theorem tokens_peek (c : Cursor) : c.peek.2.tokens = c.tokens := by
  unfold peek; split <;> simp [tokens, quiet, *]

@[simp] theorem consumedTo_peek (c : Cursor) : c.peek.2.consumedTo = c.consumedTo := by
  unfold peek; split <;> rfl

@[simp] theorem complainedAt_peek (c : Cursor) : c.peek.2.complainedAt = c.complainedAt := by
  unfold peek; split <;> rfl

@[simp] theorem current_report (c : Cursor) (d : Diagnostic) :
    (c.report d).current = c.current := by
  unfold report; split <;> (try split) <;> rfl

@[simp] theorem ahead_report (c : Cursor) (d : Diagnostic) : (c.report d).ahead = c.ahead := by
  unfold report; split <;> (try split) <;> rfl

@[simp] theorem passed_report (c : Cursor) (d : Diagnostic) : (c.report d).passed = c.passed := by
  unfold report; split <;> (try split) <;> rfl

@[simp] theorem tokens_report (c : Cursor) (d : Diagnostic) : (c.report d).tokens = c.tokens := by
  simp [tokens]

@[simp] theorem consumedTo_report (c : Cursor) (d : Diagnostic) :
    (c.report d).consumedTo = c.consumedTo := by
  unfold report; split <;> (try split) <;> rfl

/-- Reporting raises the complaint or nothing. -/
theorem raised_report (c : Cursor) (d : Diagnostic) :
    (c.report d).raised = d :: c.raised ∨
      c.complainedAt = some d.offset ∧ (c.report d).raised = c.raised := by
  unfold report
  split
  · split
    · exact .inr ⟨‹_›, rfl⟩
    · exact .inl rfl
  · exact .inl rfl

theorem peek_of_ahead {r : Reading} {rs : List Reading} (h : c.ahead = r :: rs) :
    c.peek = (r.answer.value,
      { current := c.current
        ahead := quiet r :: rs
        left := c.left
        left_eq := by simp [c.left_eq, h]
        raised := r.complaints.reverse ++ c.raised
        passed := r.passed.reverse ++ c.passed
        consumedTo := c.consumedTo
        complainedAt := c.complainedAt }) := by
  unfold peek
  split
  · simp_all
  · rename_i r' rs' h'
    obtain ⟨rfl, rfl⟩ : r' = r ∧ rs' = rs := by simpa using h'.symm.trans h
    rfl

theorem peek_of_ahead_nil (h : c.ahead = []) : c.peek = (c.current, c) := by
  unfold peek
  split
  · rfl
  · simp_all

/-- The cursor behind the current token. -/
theorem advance_of_ahead {r : Reading} {rs : List Reading} (h : c.ahead = r :: rs) :
    c.advance =
      { current := r.answer.value
        ahead := rs
        left := rs.length
        left_eq := rfl
        raised := r.complaints.reverse ++ c.raised
        passed := r.passed.reverse ++ c.passed
        consumedTo := c.current.stop
        complainedAt := c.complainedAt } := by
  have hleft : c.left - 1 = rs.length := by simp [c.left_eq, h]
  unfold advance
  split
  · simp_all
  · rename_i r' rs' h'
    obtain ⟨rfl, rfl⟩ : r' = r ∧ rs' = rs := by simpa using h'.symm.trans h
    congr

theorem advance_of_ahead_nil (h : c.ahead = []) : c.advance = c := by
  unfold advance
  split
  · rfl
  · simp_all

/-- The token behind the current one. -/
theorem current_advance (c : Cursor) : c.advance.current = c.peek.1 := by
  unfold advance peek
  split <;> simp_all

theorem current_advance_peek (c : Cursor) : c.peek.2.advance.current = c.peek.1 := by
  cases hr : c.ahead with
  | nil => rw [peek_of_ahead_nil hr, advance_of_ahead_nil hr]
  | cons r rs =>
    have hahead : c.peek.2.ahead = quiet r :: rs := by rw [peek_of_ahead hr]
    rw [advance_of_ahead hahead, ← current_advance, advance_of_ahead hr]
    rfl

theorem tokens_advance_of_ne_nil (h : c.ahead ≠ []) : c.tokens = c.current :: c.advance.tokens := by
  obtain ⟨r, rs, hr⟩ := List.exists_cons_of_ne_nil h
  simp [advance_of_ahead hr, tokens, hr]

@[simp] theorem complainedAt_advance (c : Cursor) : c.advance.complainedAt = c.complainedAt := by
  unfold advance; split <;> rfl

/-! ## Closed cursors -/

theorem Closed.ahead_eq_nil_iff (h : c.Closed) : c.ahead = [] ↔ c.current.kind = .endOfInput := by
  unfold Closed tokens at h
  cases hc : c.ahead with
  | nil =>
    rw [hc] at h
    cases h with
    | last h => simp [h]
    | cons _ h => exact absurd rfl h.ne_nil
  | cons r rs =>
    rw [hc] at h
    cases h with
    | cons h _ => simp [h]

/-- Every token but the last can be consumed. -/
theorem Closed.tokens_advance (h : c.Closed) (hk : c.current.kind ≠ .endOfInput) :
    c.tokens = c.current :: c.advance.tokens :=
  tokens_advance_of_ne_nil (mt h.ahead_eq_nil_iff.1 hk)

theorem Closed.advance_of_end (h : c.Closed) (hk : c.current.kind = .endOfInput) :
    c.advance = c :=
  advance_of_ahead_nil (h.ahead_eq_nil_iff.2 hk)

/-- Consuming a token leaves fewer. -/
theorem Closed.left_advance (h : c.Closed) (hk : c.current.kind ≠ .endOfInput) :
    c.advance.left + 1 = c.left := by
  have := congrArg List.length (h.tokens_advance hk)
  simp only [List.length_cons, length_tokens] at this
  omega

theorem Closed.left_advance_lt (h : c.Closed) (hk : c.current.kind ≠ .endOfInput) :
    c.advance.left < c.left := by
  have := h.left_advance hk
  omega

theorem Closed.consumedTo_advance (h : c.Closed) (hk : c.current.kind ≠ .endOfInput) :
    c.advance.consumedTo = c.current.stop := by
  obtain ⟨r, rs, hr⟩ := List.exists_cons_of_ne_nil (mt h.ahead_eq_nil_iff.1 hk)
  rw [advance_of_ahead hr]

theorem closed_advance (h : c.Closed) : c.advance.Closed := by
  by_cases hk : c.current.kind = .endOfInput
  · rwa [h.advance_of_end hk]
  · have ht := h
    rw [Closed, h.tokens_advance hk] at ht
    cases ht with
    | cons _ h' => exact h'

theorem Step.closed (hs : Step c d) (h : c.Closed) : d.Closed := by
  cases hs with
  | peek => simpa [Closed] using h
  | advance => exact closed_advance h
  | complain => simpa [Closed] using h
  | skipEmpty => simpa [Closed, Cursor.skipEmpty] using closed_advance (closed_advance h)

theorem Reaches.closed (hr : c.Reaches d) (h : c.Closed) : d.Closed := hr.keeps Step.closed h

theorem Step.left_le (hs : Step c d) : d.left ≤ c.left := by
  cases hs with
  | peek => simp
  | advance => simp [Cursor.left_advance]
  | complain => simp
  | skipEmpty => simp [Cursor.skipEmpty, Cursor.left_advance]; omega

/-- No move brings tokens back. -/
theorem Reaches.left_le (hr : c.Reaches d) : d.left ≤ c.left :=
  hr.keeps (P := fun e => e.left ≤ c.left) (fun hs h => Nat.le_trans hs.left_le h) (Nat.le_refl _)

end Cursor

end DeclFront
