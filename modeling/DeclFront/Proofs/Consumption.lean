import DeclFront.Module
import DeclFront.Proofs.Display
import DeclFront.Proofs.Readings
import DeclFront.Proofs.Termination

/-!
# A text is read to its end, once

Parsing a module stops at the end of input with nothing left to read. On the way every complaint of
the lexer and every piece of trivia is noticed once and in order: a move passes them on from the
readings ahead to what was noticed (`Cursor.Reaches.lexical_eq`, `Cursor.Reaches.noticed_eq`).

**Theorem (`Module.consumes_text`).** No loop stands still, no type asks for itself, and parsing
stops at the end of input. The diagnostics of the lexer among those of the module, and the trivia of
the module, are what the raw reader gives.
-/

namespace DeclFront

open DeclFront.Parser

namespace Cursor

variable {c d : Cursor}

/-! ## Nothing is noticed twice -/

def isLexical (d : Diagnostic) : Bool := d.phase == .lexing

/-- The complaints of the lexer, those that were noticed and those to come. -/
def lexical (c : Cursor) : List Diagnostic :=
  (c.raised.reverse ++ c.ahead.flatMap (·.complaints)).filter isLexical

/-- The trivia, what was noticed and what is to come. -/
def noticed (c : Cursor) : List Token := c.passed.reverse ++ c.ahead.flatMap (·.passed)

theorem lexical_peek (c : Cursor) : c.peek.2.lexical = c.lexical := by
  unfold peek
  split
  · rfl
  · simp [lexical, quiet, *]

theorem noticed_peek (c : Cursor) : c.peek.2.noticed = c.noticed := by
  unfold peek
  split
  · rfl
  · simp [noticed, quiet, *]

theorem lexical_advance (c : Cursor) : c.advance.lexical = c.lexical := by
  unfold advance
  split
  · rfl
  · simp [lexical, *]

theorem noticed_advance (c : Cursor) : c.advance.noticed = c.noticed := by
  unfold advance
  split
  · rfl
  · simp [noticed, *]

theorem lexical_report (c : Cursor) {d : Diagnostic} (h : d.phase = .parsing) :
    (c.report d).lexical = c.lexical := by
  rcases raised_report c d with hr | ⟨-, hr⟩ <;> simp [lexical, hr, isLexical, h]

theorem noticed_report (c : Cursor) (d : Diagnostic) : (c.report d).noticed = c.noticed := by
  simp [noticed]

theorem Step.lexical_eq (h : Step c d) : d.lexical = c.lexical := by
  cases h with
  | peek => exact lexical_peek c
  | advance => exact lexical_advance c
  | complain => exact lexical_report c rfl
  | skipEmpty =>
    rw [Cursor.skipEmpty, lexical_report _ rfl, lexical_advance, lexical_advance]

theorem Step.noticed_eq (h : Step c d) : d.noticed = c.noticed := by
  cases h with
  | peek => exact noticed_peek c
  | advance => exact noticed_advance c
  | complain => exact noticed_report c _
  | skipEmpty => rw [Cursor.skipEmpty, noticed_report, noticed_advance, noticed_advance]

theorem Reaches.lexical_eq (h : c.Reaches d) : d.lexical = c.lexical :=
  h.keeps (P := fun e => e.lexical = c.lexical) (fun hs he => hs.lexical_eq.trans he) rfl

theorem Reaches.noticed_eq (h : c.Reaches d) : d.noticed = c.noticed :=
  h.keeps (P := fun e => e.noticed = c.noticed) (fun hs he => hs.noticed_eq.trans he) rfl

/-- All complaints, those that were raised and those of the lexer that are to come. -/
def findings (c : Cursor) : List Diagnostic := c.raised.reverse ++ c.ahead.flatMap (·.complaints)

theorem findings_peek (c : Cursor) : c.peek.2.findings = c.findings := by
  unfold peek
  split
  · rfl
  · simp [findings, quiet, *]

theorem findings_advance (c : Cursor) : c.advance.findings = c.findings := by
  unfold advance
  split
  · rfl
  · simp [findings, *]

theorem mem_findings_report {x y : Diagnostic} (h : y ∈ c.findings) :
    y ∈ (c.report x).findings := by
  rw [findings, ahead_report]
  rcases List.mem_append.1 h with hy | hy
  · refine List.mem_append_left _ ?_
    rcases raised_report c x with hr | ⟨-, hr⟩
    · simpa [hr] using Or.inl (List.mem_reverse.1 hy)
    · rwa [hr]
  · exact List.mem_append_right _ hy

theorem forall_findings_report {P : Diagnostic → Prop} {x : Diagnostic} (hx : P x)
    (h : ∀ y ∈ c.findings, P y) : ∀ y ∈ (c.report x).findings, P y := by
  intro y hy
  rw [findings, ahead_report] at hy
  rcases List.mem_append.1 hy with hy | hy
  · have hy := List.mem_reverse.1 hy
    rcases raised_report c x with hr | ⟨-, hr⟩
    · rcases List.mem_cons.1 (hr ▸ hy) with rfl | hy
      · exact hx
      · exact h y (List.mem_append_left _ (List.mem_reverse.2 hy))
    · exact h y (List.mem_append_left _ (List.mem_reverse.2 (hr ▸ hy)))
  · exact h y (List.mem_append_right _ hy)

theorem Step.mem_findings {x : Diagnostic} (hs : Step c d) (h : x ∈ c.findings) :
    x ∈ d.findings := by
  cases hs with
  | peek => exact (findings_peek c).symm ▸ h
  | advance => exact (findings_advance c).symm ▸ h
  | complain => exact mem_findings_report h
  | skipEmpty =>
    refine mem_findings_report ?_
    rwa [findings_advance, findings_advance]

/-- The parser only raises errors. -/
theorem Step.isError (hs : Step c d) (h : ∀ x ∈ c.findings, x.isError) :
    ∀ x ∈ d.findings, x.isError := by
  cases hs with
  | peek => exact (findings_peek c).symm ▸ h
  | advance => exact (findings_advance c).symm ▸ h
  | complain => exact forall_findings_report rfl h
  | skipEmpty =>
    refine forall_findings_report rfl ?_
    rwa [findings_advance, findings_advance]

/-- The trivia at the beginning of a text is all to come. -/
theorem noticed_ofChars (cs : List Char) :
    (ofChars cs).noticed = (Segment.tokens cs).filter (·.kind.isTrivia) := by
  rw [noticed, ofReadings_eq, passed_ofReadings, Segment.readings, flatMap_passed_gather]
  rfl

/-- The findings at the beginning of a text are those of the lexer. -/
theorem findings_ofChars (cs : List Char) : (ofChars cs).findings = Segment.complaints cs := by
  rw [findings, ofReadings_eq, complaints_ofReadings, Segment.readings, flatMap_complaints_gather]
  rfl

/-- The last token is the end of input that the text had at first. -/
theorem Reaches.getLast_tokens (h : c.Reaches d) : d.tokens.getLast? = c.tokens.getLast? := by
  refine h.keeps (P := fun e => e.tokens.getLast? = c.tokens.getLast?) ?_ rfl
  have hadvance (e : Cursor) : e.advance.tokens.getLast? = e.tokens.getLast? := by
    by_cases hne : e.ahead = []
    · rw [advance_of_ahead_nil hne]
    · rw [tokens_advance_of_ne_nil hne, tokens, List.getLast?_cons_cons]
  intro e f hs he
  cases hs with
  | peek => simpa using he
  | advance => exact (hadvance e).trans he
  | complain => simpa using he
  | skipEmpty => simpa [Cursor.skipEmpty, hadvance] using he

end Cursor

namespace Parser

variable {c : Cursor}

theorem again_furtherDeclaration (hk : c.current.kind ≠ .endOfInput) :
    (furtherDeclaration c).1.again = true := by
  simp only [furtherDeclaration, bind_apply, isAtEnd_apply, beq_iff_eq, hk, if_false]
  split
  · rfl
  · split <;> rfl

theorem furtherDeclaration_of_end (hk : c.current.kind = .endOfInput) :
    furtherDeclaration c = (.stop, c) := by
  simp [furtherDeclaration, hk]

/-- The declarations of a module are at an end only where the text is. -/
theorem current_collect_furtherDeclaration (hc : c.Closed) :
    (collect furtherDeclaration c).2.current.kind = .endOfInput := by
  have hloop : (loop (collectRound furtherDeclaration) [] c).2.current.kind = .endOfInput := by
    refine (productive_of_isLoop .declarations).loop_induction (I := fun _ c => c.Closed)
      (P := fun _ _ r => r.2.current.kind = .endOfInput) (fun _ _ hc => hc) ?_ ?_ hc
    · intro found c t _ hdone
      by_cases hk : c.current.kind = .endOfInput
      · simp [collectRound, furtherDeclaration_of_end hk, hk]
      · exact absurd (again_furtherDeclaration hk)
          (Bool.eq_false_iff.1 (collectRound_eq_done_iff.1 hdone).1)
    · intro found c t hc _ _
      have hmoves : Moves furtherDeclaration :=
        moves_of_carries fun _ => Translation.carries_furtherDeclaration
      exact ⟨hmoves.closed hc, fun _ h => h⟩
  exact hloop

/-- Parsing a module stops at the end of the text. -/
theorem current_module (hc : c.Closed) : (module c).2.current.kind = .endOfInput := by
  have hterminators : Moves skipTerminators := moves_skipSet _
  have hheader : Moves header := moves_of_carries fun _ => Translation.carries_header
  exact current_collect_furtherDeclaration
    (hterminators.closed (hheader.closed (hterminators.closed hc)))

end Parser

/-! ## The complaints of the lexer -/

namespace Segment

variable {s : Segment} {d : Diagnostic}

theorem diagnostic?_eq_some (h : s.diagnostic? = some d) :
    ∃ code, s.complaint = some code ∧ d = .about code .lexing s.position s.length := by
  obtain ⟨code, hcode, rfl⟩ := Option.map_eq_some_iff.1 h
  exact ⟨code, hcode, rfl⟩

theorem isLexical_of_mem_complaints {cs : List Char} (h : d ∈ complaints cs) :
    Cursor.isLexical d = true := by
  obtain ⟨s, -, hs⟩ := List.mem_filterMap.1 h
  obtain ⟨code, -, rfl⟩ := diagnostic?_eq_some hs
  rfl

/-- No complaint of the lexer is the marker of a limit. -/
theorem isMarker_of_diagnostic? {p : Position} {cs : List Char} (hs : s ∈ ofText p cs)
    (h : s.diagnostic? = some d) : Sink.isMarker d = false := by
  obtain ⟨code, hcode, rfl⟩ := diagnostic?_eq_some h
  have hlexical := (lawful_of_mem hs).lexical code hcode
  cases code <;> simp_all [DiagnosticCode.concern, Sink.isMarker, Diagnostic.about]

theorem isMarker_of_mem_complaints {cs : List Char} (h : d ∈ complaints cs) :
    Sink.isMarker d = false := by
  obtain ⟨s, hmem, hs⟩ := List.mem_filterMap.1 h
  exact isMarker_of_diagnostic? hmem hs

/-- The complaints of the lexer are raised in the order of display. -/
theorem pairwise_complaints (cs : List Char) :
    (complaints cs).Pairwise (Sink.precedes · ·) := by
  have hoffset : (complaints cs).Pairwise fun d e => d.offset ≤ e.offset := by
    refine List.Pairwise.filterMap _ (fun s t hst d hd e he => ?_) (pairwise_ofText .origin cs)
    obtain ⟨_, -, rfl⟩ := diagnostic?_eq_some hd
    obtain ⟨_, -, rfl⟩ := diagnostic?_eq_some he
    exact Nat.le_trans (offset_le_stop s) hst
  refine hoffset.imp_of_mem fun hd he hle => Sink.precedes_iff.2 (.inl ⟨?_, hle⟩)
  rw [isMarker_of_mem_complaints hd, isMarker_of_mem_complaints he]

end Segment

namespace Module

variable (s : Source)

theorem diagnostics_lexRaw_zero : (lexRaw s 0).diagnostics = Segment.complaints s.chars := by
  rw [diagnostics_lexRaw, Sink.sorted_eq_mergeSort, Sink.toList_reportAll,
    List.mergeSort_of_pairwise (Segment.pairwise_complaints s.chars)]

/-- The cursor at which parsing a text stops. -/
def lastCursor (cs : List Char) : Cursor := (Parser.module (Cursor.ofChars cs)).2

theorem reaches_lastCursor (cs : List Char) : (Cursor.ofChars cs).Reaches (lastCursor cs) :=
  reaches_module (Cursor.closed_ofChars cs)

theorem ahead_lastCursor (cs : List Char) : (lastCursor cs).ahead = [] :=
  ((reaches_lastCursor cs).closed (Cursor.closed_ofChars cs)).ahead_eq_nil_iff.2
    (current_module (Cursor.closed_ofChars cs))

theorem current_lastCursor (cs : List Char) : (lastCursor cs).current = endOfInput cs := by
  have h := (reaches_lastCursor cs).getLast_tokens
  rw [Cursor.tokens_ofChars, List.getLast?_concat, Cursor.tokens, ahead_lastCursor] at h
  simpa using h

theorem lexical_raised_lastCursor (cs : List Char) :
    (lastCursor cs).raised.reverse.filter Cursor.isLexical = Segment.complaints cs := by
  have h := (reaches_lastCursor cs).lexical_eq
  rw [Cursor.lexical, Cursor.lexical, ahead_lastCursor, Cursor.ofReadings_eq,
    Cursor.complaints_ofReadings, Segment.readings, flatMap_complaints_gather] at h
  rw [← Segment.complaints, List.filter_eq_self.2 fun _ => Segment.isLexical_of_mem_complaints] at h
  simpa using h

theorem passed_lastCursor (cs : List Char) :
    (lastCursor cs).passed.reverse = (Segment.tokens cs).filter (·.kind.isTrivia) := by
  have h := (reaches_lastCursor cs).noticed_eq
  rw [Cursor.noticed, ahead_lastCursor, Cursor.noticed_ofChars] at h
  simpa using h

/-- Every finding about a text is an error. -/
theorem isError_of_mem_raised {cs : List Char} {x : Diagnostic} (h : x ∈ (lastCursor cs).raised) :
    x.isError := by
  have hall := (reaches_lastCursor cs).keeps Cursor.Step.isError fun x hx => by
    obtain ⟨s, -, hx⟩ := List.mem_filterMap.1 (Cursor.findings_ofChars cs ▸ hx)
    obtain ⟨code, -, rfl⟩ := Segment.diagnostic?_eq_some hx
    rfl
  exact hall x (List.mem_append_left _ (List.mem_reverse.2 h))

/-- Under any limit, a module has errors as soon as anything was found wrong. -/
theorem hasErrors_of_mem_raised {limit : Nat} (policy : TriviaPolicy) {x : Diagnostic}
    (h : x ∈ (lastCursor s.chars).raised) : (ofSource s limit policy).hasErrors := by
  have hne : (ofSource s limit policy).diagnostics ≠ [] := fun hnil =>
    List.ne_nil_of_mem h (((lastCursor s.chars).diagnostics_eq_nil_iff limit).1 hnil)
  obtain ⟨d, hd⟩ := List.exists_mem_of_ne_nil _ hne
  refine List.any_eq_true.2 ⟨d, hd, ?_⟩
  have hd : d ∈ (lastCursor s.chars).diagnostics limit := hd
  rw [Cursor.diagnostics, Sink.sorted_eq_mergeSort, List.mem_mergeSort] at hd
  refine Sink.forall_reportAll (P := fun d => d.isError) (fun _ _ => rfl) ?_ ?_ d hd
  · by_cases hlimit : limit = 0 <;>
      simp [Sink.ofUserLimit, hlimit, Sink.unlimited, Sink.withLimit, Sink.toList]
  · exact fun y hy => isError_of_mem_raised (List.mem_reverse.1 hy)

theorem lexical_diagnostics (policy : TriviaPolicy) :
    (ofSource s 0 policy).diagnostics.filter Cursor.isLexical = (lexRaw s 0).diagnostics := by
  show ((lastCursor s.chars).diagnostics 0).filter Cursor.isLexical = _
  have hlexical := lexical_raised_lastCursor s.chars
  rw [Cursor.diagnostics_zero, Sink.filter_mergeSort, hlexical, diagnostics_lexRaw_zero]
  rw [hlexical]
  exact Segment.pairwise_complaints s.chars

theorem trivia_collect (limit limit' : Nat) :
    (ofSource s limit .collect).trivia = (lexRaw s limit').tokens.filter (·.kind.isTrivia) := by
  show (lastCursor s.chars).passed.reverse = _
  rw [passed_lastCursor, tokens_lexRaw, List.filter_append]
  simp [endOfInput, show TokenKind.endOfInput.isTrivia = false from rfl]

/-- **A text is read to its end, once.** From every cursor that the parser can come to, a round of a
loop that is followed by another one leaves fewer tokens, and the types inside a type are asked for
with fewer tokens left. Parsing begins with all tokens ahead and stops at the end of input, with no
reading left. The diagnostics of the lexer and the trivia are those of the raw reader. -/
theorem consumes_text :
    (∀ {σ : Type} {round : σ → Parser (ForInStep σ)}, IsLoop round → ∀ (a b : σ) (c : Cursor),
      (Cursor.ofChars s.chars).Reaches c → (round a c).1 = .yield b →
        (round a c).2.left < c.left) ∧
    (∀ (inner : Parser TypeExpr) (c : Cursor), (Cursor.ofChars s.chars).Reaches c →
      (∀ d : Cursor, d.Closed → d.left < c.left → inner d = type d) →
        typeLayer inner c = type c) ∧
    ((Cursor.ofChars s.chars).tokens = (lexRaw s 0).tokens.filter (!·.kind.isTrivia) ∧
      (Cursor.ofChars s.chars).Reaches (lastCursor s.chars) ∧
      (lastCursor s.chars).current = endOfInput s.chars ∧ (lastCursor s.chars).ahead = []) ∧
    (∀ policy, (ofSource s 0 policy).diagnostics.filter (·.phase == .lexing) =
      (lexRaw s 0).diagnostics) ∧
    ∀ limit limit', (ofSource s limit .collect).trivia =
      (lexRaw s limit').tokens.filter (·.kind.isTrivia) := by
  have hclosed {c : Cursor} (h : (Cursor.ofChars s.chars).Reaches c) : c.Closed :=
    h.closed (Cursor.closed_ofChars s.chars)
  refine ⟨?_, ?_, ?_, lexical_diagnostics s, trivia_collect s⟩
  · exact fun h a b c hr hyield => productive_of_isLoop h a c b (hclosed hr) hyield
  · exact fun inner c hr hinner => typeLayer_eq_type (hclosed hr) hinner
  · refine ⟨?_, reaches_lastCursor _, current_lastCursor _, ahead_lastCursor _⟩
    rw [Cursor.tokens_ofChars, tokens_lexRaw, List.filter_append]
    rfl

end Module

end DeclFront
