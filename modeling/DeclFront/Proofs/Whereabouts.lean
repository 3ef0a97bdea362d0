import DeclFront.Proofs.Consumption
import DeclFront.Proofs.Passage

/-!
# Where the diagnostics stand

No parser complains about a place that no token of the text and no complaint of the lexer has
(`Cursor.Located`), so the diagnostics of a text stand inside it. The last complaint about a token
is about the current one or one in front of it.
-/

namespace DeclFront

open DeclFront.Parser

namespace Cursor

variable {c d : Cursor} {P : Nat → Prop}

/-- Whatever was noticed or is still to come stands at an offset of which `P` holds. -/
structure Located (P : Nat → Prop) (c : Cursor) : Prop where
  raised : ∀ x ∈ c.raised, Sink.isMarker x = false ∧ P x.offset
  tokens : ∀ t ∈ c.tokens, P t.start
  complaints : ∀ r ∈ c.ahead, ∀ x ∈ r.complaints, Sink.isMarker x = false ∧ P x.offset

theorem Located.advance (h : c.Located P) : c.advance.Located P := by
  cases hr : c.ahead with
  | nil => rwa [advance_of_ahead_nil hr]
  | cons r rs =>
    have hraised :
        ∀ x ∈ r.complaints.reverse ++ c.raised, Sink.isMarker x = false ∧ P x.offset := by
      intro x hx
      rcases List.mem_append.1 hx with hx | hx
      · exact h.complaints r (by simp [hr]) x (List.mem_reverse.1 hx)
      · exact h.raised x hx
    refine ⟨?_, fun t ht => h.tokens t ((tokens_advance_suffix c).subset ht), ?_⟩
    · rwa [advance_of_ahead hr]
    · rw [advance_of_ahead hr]
      exact fun r' hr' => h.complaints r' (by simp [hr, hr'])

theorem Located.peek (h : c.Located P) : c.peek.2.Located P := by
  cases hr : c.ahead with
  | nil => rwa [peek_of_ahead_nil hr]
  | cons r rs =>
    have hadvance := h.advance.raised
    refine ⟨?_, by simpa using h.tokens, ?_⟩
    · rw [advance_of_ahead hr] at hadvance
      rwa [peek_of_ahead hr]
    · rw [peek_of_ahead hr]
      intro r' hr' x hx
      rcases List.mem_cons.1 hr' with rfl | hr'
      · simp [quiet] at hx
      · exact h.complaints r' (by simp [hr, hr']) x hx

theorem Located.report (h : c.Located P) {x : Diagnostic} (hx : Sink.isMarker x = false)
    (hP : P x.offset) : (c.report x).Located P := by
  refine ⟨fun y hy => ?_, by simpa using h.tokens, by simpa using h.complaints⟩
  rcases raised_report c x with hr | ⟨-, hr⟩
  · rw [hr] at hy
    rcases List.mem_cons.1 hy with rfl | hy
    · exact ⟨hx, hP⟩
    · exact h.raised y hy
  · exact h.raised y (hr ▸ hy)

theorem isMarker_of_syntactic {code : DiagnosticCode} (h : code.concern = .syntactic) :
    (code == .tooManyErrors) = false := by
  cases code <;> first | rfl | exact absurd h (by decide)

theorem Step.located (hs : Step c d) (h : c.Located P) : d.Located P := by
  cases hs with
  | peek => exact h.peek
  | advance => exact h.advance
  | complain hcode =>
    exact h.report (isMarker_of_syntactic hcode) (h.tokens _ List.mem_cons_self)
  | skipEmpty hcode =>
    refine h.advance.advance.report (isMarker_of_syntactic ?_) (h.tokens _ List.mem_cons_self)
    rcases hcode with rfl | rfl <;> rfl

theorem Reaches.located (hr : c.Reaches d) (h : c.Located P) : d.Located P :=
  hr.keeps Step.located h

/-! ## The last complaint about a token -/

/-- Before tokens that stand in order, with no complaint about a token behind the current one. -/
structure Timely (c : Cursor) : Prop where
  closed : c.Closed
  ordered : Ordered c.tokens
  complainedAt_le : ∀ x, c.complainedAt = some x → x ≤ c.current.start

theorem Timely.advance (h : c.Timely) : c.advance.Timely := by
  refine ⟨closed_advance h.closed, h.ordered.sublist (tokens_advance_suffix c).sublist, ?_⟩
  rw [complainedAt_advance]
  intro x hx
  by_cases hk : c.current.kind = .endOfInput
  · rw [h.closed.advance_of_end hk]
    exact h.complainedAt_le x hx
  · have hordered := h.ordered
    rw [h.closed.tokens_advance hk] at hordered
    calc x ≤ c.current.start := h.complainedAt_le x hx
      _ ≤ c.current.stop := Nat.le_add_right _ _
      _ ≤ c.advance.current.start := (List.pairwise_cons.1 hordered).1 _ List.mem_cons_self

theorem complainedAt_report (c : Cursor) (x : Diagnostic) :
    (c.report x).complainedAt = c.complainedAt ∨
      x.code.isTokenComplaint = true ∧ (c.report x).complainedAt = some x.offset := by
  unfold report
  split
  · split
    · exact .inl rfl
    · exact .inr ⟨‹_›, rfl⟩
  · exact .inl rfl

theorem Timely.report (h : c.Timely) {x : Diagnostic}
    (hx : x.code.isTokenComplaint = true → x.offset ≤ c.current.start) : (c.report x).Timely := by
  refine ⟨by simpa [Closed] using h.closed, by simpa using h.ordered, fun y hy => ?_⟩
  rw [current_report]
  rcases complainedAt_report c x with heq | ⟨hcode, heq⟩
  · exact h.complainedAt_le y (heq ▸ hy)
  · exact Option.some.inj (heq.symm.trans hy) ▸ hx hcode

theorem Step.timely (hs : Step c d) (h : c.Timely) : d.Timely := by
  cases hs with
  | peek => exact ⟨by simpa [Closed] using h.closed, by simpa using h.ordered,
      by simpa using h.complainedAt_le⟩
  | advance => exact h.advance
  | complain => exact h.report fun _ => Nat.le_refl _
  | skipEmpty hcode =>
    refine h.advance.advance.report fun htoken => ?_
    rcases hcode with rfl | rfl <;> exact absurd htoken Bool.false_ne_true

theorem Reaches.timely (hr : c.Reaches d) (h : c.Timely) : d.Timely := hr.keeps Step.timely h

theorem timely_ofChars (cs : List Char) : (ofChars cs).Timely := by
  refine ⟨closed_ofChars cs, ?_, ?_⟩
  · rw [tokens_ofChars]
    exact ordered_tokens cs
  · rw [ofReadings_eq]
    cases Segment.readings TokenKind.isTrivia cs <;> simp [ofReadings]

end Cursor

/-! ## The diagnostics of a text -/

namespace Segment

variable {p : Position} {cs : List Char} {s : Segment}

/-- The tokens and the complaints of the segments of a text stand between its ends. -/
theorem offset_of_token? {t : Token} (hs : s ∈ ofText p cs) (h : s.token? = some t) :
    p.offset ≤ t.start ∧ t.start ≤ (p.after cs).offset := by
  rw [(stop_of_token? h).1]
  exact ⟨offset_le_of_mem hs, Nat.le_trans (offset_le_stop s) (stop_le_of_mem hs)⟩

theorem offset_of_diagnostic? {x : Diagnostic} (hs : s ∈ ofText p cs) (h : s.diagnostic? = some x) :
    p.offset ≤ x.offset ∧ x.offset ≤ (p.after cs).offset := by
  obtain ⟨code, -, rfl⟩ := diagnostic?_eq_some h
  exact ⟨offset_le_of_mem hs, Nat.le_trans (offset_le_stop s) (stop_le_of_mem hs)⟩

end Segment

/-- The cursor before the readings of a text that begins at `p`. -/
theorem Cursor.located_gather {P : Nat → Prop} {p : Position} {cs : List Char} {c : Cursor}
    {skips : TokenKind → Bool} (hP : ∀ n, p.offset ≤ n → n ≤ (p.after cs).offset → P n)
    (htokens : c.tokens = (gather skips (p.after cs) (Segment.ofText p cs)).map (·.answer.value))
    (hcomplaints : c.raised.reverse ++ c.ahead.flatMap (·.complaints) =
      (gather skips (p.after cs) (Segment.ofText p cs)).flatMap (·.complaints)) :
    c.Located P := by
  rw [map_value_gather] at htokens
  rw [flatMap_complaints_gather] at hcomplaints
  have hmem {x : Diagnostic} (hx : x ∈ c.raised.reverse ++ c.ahead.flatMap (·.complaints)) :
      Sink.isMarker x = false ∧ P x.offset := by
    rw [hcomplaints] at hx
    obtain ⟨s, hs, hsx⟩ := List.mem_filterMap.1 hx
    obtain ⟨hle, hle'⟩ := Segment.offset_of_diagnostic? hs hsx
    exact ⟨Segment.isMarker_of_diagnostic? hs hsx, hP _ hle hle'⟩
  refine ⟨fun x hx => hmem (List.mem_append_left _ (List.mem_reverse.2 hx)), fun t ht => ?_,
    fun r hr x hx => hmem (List.mem_append_right _ (List.mem_flatMap.2 ⟨r, hr, hx⟩))⟩
  rw [htokens] at ht
  rcases List.mem_append.1 ht with ht | ht
  · obtain ⟨s, hs, hst⟩ := List.mem_filterMap.1 (List.mem_filter.1 ht).1
    obtain ⟨hle, hle'⟩ := Segment.offset_of_token? hs hst
    exact hP _ hle hle'
  · obtain rfl := List.mem_singleton.1 ht
    have hle : p.offset ≤ (p.after cs).offset := by
      rw [Position.offset_after]
      exact Nat.le_add_right _ _
    exact hP _ hle (Nat.le_refl _)

/-- The diagnostics of a text stand inside it. -/
theorem Module.offset_of_mem_raised {cs : List Char} {x : Diagnostic}
    (h : x ∈ (lastCursor cs).raised) : Sink.isMarker x = false ∧ x.offset ≤ byteLength cs := by
  have hstop : (Position.origin.after cs).offset = byteLength cs := by
    rw [Position.offset_after]
    exact Nat.zero_add _
  have hlocated : (Cursor.ofChars cs).Located (· ≤ byteLength cs) := by
    rw [Cursor.ofReadings_eq]
    exact Cursor.located_gather (fun n _ hn => hstop ▸ hn)
      (Cursor.tokens_ofReadings (gather_ne_nil _ _ _)) (Cursor.complaints_ofReadings _)
  exact ((reaches_lastCursor cs).located hlocated).raised x h

end DeclFront
