import DeclFront.Proofs.Whereabouts

/-!
# Complaints about tokens

The parser says at a token that it is unexpected, or that another is missing in front of it. Such
complaints are muted by the offset of the latest one alone, and yet no two of them stand at one
offset, whatever recovery does in between.

**Theorem (`Module.increasing_objections`).** In the order in which they were raised, the complaints
about tokens stand at strictly increasing offsets, and they are shown in this order. Each of them is
about a significant token of the text or the end of input and records its kind, and none says of an
invalid token that it is unexpected.

The invariant is `Cursor.Disciplined`: the complaints about tokens stand in order, the latest of
them is the one that mutes, and it is not behind the current token. A complaint that is raised is
about the current token. So it stands behind the latest one or at its offset, and there it is muted.
-/

namespace DeclFront

namespace Cursor

variable {c d : Cursor} {ts : List Token}

/-- The complaints about tokens that were raised, the latest first. -/
def objections (c : Cursor) : List Diagnostic := c.raised.filter (·.code.isTokenComplaint)

/-- The complaints about tokens are about tokens of `ts` that were passed, and stand in order. -/
structure Disciplined (ts : List Token) (c : Cursor) : Prop extends c.Timely where
  suffix : c.tokens <:+ ts
  /-- What is still to come is not about tokens. -/
  lexical : ∀ r ∈ c.ahead, ∀ x ∈ r.complaints, x.code.isTokenComplaint = false
  descending : c.objections.Pairwise fun x y => y.offset < x.offset
  /-- The latest complaint is the one that mutes. -/
  latest : c.objections.head?.map Diagnostic.offset = c.complainedAt
  about : ∀ x ∈ c.objections, ∃ t ∈ ts, ∃ expected, x = complaint x.code expected t ∧
    (x.code = .unexpectedToken → t.kind ≠ .invalid)

theorem filter_reverse_append {xs ys : List Diagnostic}
    (h : ∀ x ∈ xs, x.code.isTokenComplaint = false) :
    (xs.reverse ++ ys).filter (·.code.isTokenComplaint) = ys.filter (·.code.isTokenComplaint) := by
  rw [List.filter_append, List.filter_eq_nil_iff.2, List.nil_append]
  simpa using h

namespace Disciplined

theorem objections_peek (h : c.Disciplined ts) : c.peek.2.objections = c.objections := by
  cases hr : c.ahead with
  | nil => rw [peek_of_ahead_nil hr]
  | cons r rs =>
    rw [peek_of_ahead hr]
    exact filter_reverse_append (h.lexical r (by simp [hr]))

theorem objections_advance (h : c.Disciplined ts) : c.advance.objections = c.objections := by
  cases hr : c.ahead with
  | nil => rw [advance_of_ahead_nil hr]
  | cons r rs =>
    rw [advance_of_ahead hr]
    exact filter_reverse_append (h.lexical r (by simp [hr]))

theorem peek (h : c.Disciplined ts) (hs : c.Step c.peek.2) : c.peek.2.Disciplined ts where
  toTimely := hs.timely h.toTimely
  suffix := by simpa using h.suffix
  lexical := by
    unfold Cursor.peek
    split
    · exact h.lexical
    · rename_i r rs hr
      intro r' hr' x hx
      rcases List.mem_cons.1 hr' with rfl | hr'
      · exact absurd hx List.not_mem_nil
      · exact h.lexical r' (by simp [hr, hr']) x hx
  descending := h.objections_peek ▸ h.descending
  latest := by rw [h.objections_peek, h.latest, complainedAt_peek]
  about := h.objections_peek ▸ h.about

theorem advance (h : c.Disciplined ts) : c.advance.Disciplined ts where
  toTimely := h.toTimely.advance
  suffix := (tokens_advance_suffix c).trans h.suffix
  lexical := by
    unfold Cursor.advance
    split
    · exact h.lexical
    · rename_i r rs hr
      exact fun r' hr' => h.lexical r' (by simp [hr, hr'])
  descending := h.objections_advance ▸ h.descending
  latest := by rw [h.objections_advance, h.latest, complainedAt_advance]
  about := h.objections_advance ▸ h.about

/-- A complaint that is not about a token changes nothing. -/
theorem report_of_not (h : c.Disciplined ts) {x : Diagnostic}
    (hx : x.code.isTokenComplaint = false) : (c.report x).Disciplined ts := by
  have hreport : c.report x = { c with raised := x :: c.raised } := by simp [report, hx]
  have hobjections : (c.report x).objections = c.objections := by
    simp [hreport, objections, hx]
  refine ⟨h.toTimely.report fun htoken => ?_, by simpa using h.suffix, by simpa using h.lexical,
    hobjections ▸ h.descending, ?_, hobjections ▸ h.about⟩
  · simp [hx] at htoken
  · rw [hobjections, h.latest, hreport]

/-- A complaint about the current token stands behind all earlier ones, or is muted. -/
theorem complain (h : c.Disciplined ts) {code : DiagnosticCode} {expected : ExpectedKinds}
    (hcode : code.isTokenComplaint = true)
    (hinvalid : code = .unexpectedToken → c.current.kind ≠ .invalid) :
    (c.report (complaint code expected c.current)).Disciplined ts := by
  by_cases hat : c.complainedAt = some c.current.start
  · have hmuted : c.report (complaint code expected c.current) = c := by
      simp [report, complaint, Diagnostic.withExpected, Diagnostic.aboutToken, Diagnostic.about,
        Diagnostic.offset, hcode, ← Token.start.eq_1, hat]
    rwa [hmuted]
  have hreport : c.report (complaint code expected c.current) =
      { c with
        raised := complaint code expected c.current :: c.raised
        complainedAt := some c.current.start } := by
    simp [report, complaint, Diagnostic.withExpected, Diagnostic.aboutToken, Diagnostic.about,
      Diagnostic.offset, hcode, ← Token.start.eq_1, hat]
  have hobjections : (c.report (complaint code expected c.current)).objections =
      complaint code expected c.current :: c.objections := by
    rw [hreport]
    exact List.filter_cons_of_pos hcode
  have hlt : ∀ y ∈ c.objections, y.offset < c.current.start := by
    intro y hy
    cases hlist : c.objections with
    | nil => simp [hlist] at hy
    | cons z zs =>
      have hlatest : c.complainedAt = some z.offset := by rw [← h.latest, hlist]; rfl
      have hz : z.offset < c.current.start :=
        Nat.lt_of_le_of_ne (h.complainedAt_le _ hlatest) fun heq => hat (heq ▸ hlatest)
      have hdescending := h.descending
      rw [hlist] at hy hdescending
      rcases List.mem_cons.1 hy with rfl | hy
      · exact hz
      · exact Nat.lt_trans (List.rel_of_pairwise_cons hdescending hy) hz
  refine ⟨h.toTimely.report fun _ => Nat.le_refl _, by simpa using h.suffix,
    by simpa using h.lexical, ?_, ?_, ?_⟩
  · rw [hobjections]
    exact List.pairwise_cons.2 ⟨hlt, h.descending⟩
  · rw [hobjections, hreport]
    rfl
  · rw [hobjections]
    refine List.forall_mem_cons.2 ⟨⟨c.current, h.suffix.subset List.mem_cons_self, expected, rfl,
      hinvalid⟩, h.about⟩

end Disciplined

theorem Step.disciplined (hs : Step c d) (h : c.Disciplined ts) : d.Disciplined ts := by
  cases hs with
  | peek hk => exact h.peek (.peek hk)
  | advance => exact h.advance
  | @complain code _ _ hinvalid =>
    cases hcode : code.isTokenComplaint with
    | true => exact h.complain hcode hinvalid
    | false => exact h.report_of_not hcode
  | skipEmpty hcode =>
    refine h.advance.advance.report_of_not ?_
    rcases hcode with rfl | rfl <;> rfl

theorem Reaches.disciplined (hr : c.Reaches d) (h : c.Disciplined ts) : d.Disciplined ts :=
  hr.keeps Step.disciplined h

end Cursor

/-! ## The complaints of a text -/

/-- The lexer has no complaint about tokens. -/
theorem Segment.isTokenComplaint_of_mem_complaints {cs : List Char} {x : Diagnostic}
    (h : x ∈ complaints cs) : x.code.isTokenComplaint = false := by
  obtain ⟨s, hs, hx⟩ := List.mem_filterMap.1 h
  obtain ⟨code, hcode, rfl⟩ := diagnostic?_eq_some hx
  have hlexical := (lawful_of_mem hs).lexical code hcode
  cases code <;> first | rfl | exact absurd hlexical (by decide)

theorem Cursor.disciplined_ofChars (cs : List Char) :
    (ofChars cs).Disciplined (ofChars cs).tokens := by
  have hlexical {x : Diagnostic} (hx : x ∈ (ofChars cs).findings) :
      x.code.isTokenComplaint = false :=
    Segment.isTokenComplaint_of_mem_complaints (findings_ofChars cs ▸ hx)
  have hnil : (ofChars cs).objections = [] := by
    refine List.filter_eq_nil_iff.2 fun x hx => ?_
    simp [hlexical (List.mem_append_left _ (List.mem_reverse.2 hx))]
  refine ⟨timely_ofChars cs, List.suffix_refl _, fun r hr x hx => ?_, ?_, ?_, ?_⟩
  · exact hlexical (List.mem_append_right _ (List.mem_flatMap.2 ⟨r, hr, hx⟩))
  · rw [hnil]
    exact .nil
  · rw [hnil, ofReadings_eq]
    cases Segment.readings TokenKind.isTrivia cs <;> rfl
  · simp [hnil]

namespace Module

theorem disciplined_lastCursor (cs : List Char) :
    (lastCursor cs).Disciplined (Cursor.ofChars cs).tokens :=
  (reaches_lastCursor cs).disciplined (Cursor.disciplined_ofChars cs)

/-- The complaints about tokens are shown as they were raised. -/
theorem objections_diagnostics (s : Source) (policy : TriviaPolicy) :
    (ofSource s 0 policy).diagnostics.filter (·.code.isTokenComplaint) =
      (lastCursor s.chars).objections.reverse := by
  show ((lastCursor s.chars).diagnostics 0).filter _ = _
  have hdescending := (disciplined_lastCursor s.chars).descending
  rw [Cursor.diagnostics_zero, Sink.filter_mergeSort, List.filter_reverse]
  · rfl
  rw [List.filter_reverse, List.pairwise_reverse]
  refine hdescending.imp_of_mem fun {x y} hx hy hlt => Sink.precedes_iff.2 (.inl ⟨?_, ?_⟩)
  · have hraised {z : Diagnostic} (hz : z ∈ (lastCursor s.chars).objections) :=
      (offset_of_mem_raised (List.mem_filter.1 hz).1).1
    rw [hraised hx, hraised hy]
  · exact Nat.le_of_lt hlt

/-- **One complaint about a token to an offset.** The complaints that a token is unexpected or
missing are shown in the order in which they were raised, at strictly increasing offsets. Each is
about a significant token or the end of input, with the kind of that token, and none says of an
invalid token that it is unexpected. -/
theorem increasing_objections (s : Source) (policy : TriviaPolicy) :
    let diagnostics := (ofSource s 0 policy).diagnostics
    let objects (d : Diagnostic) : Bool := d.code == .unexpectedToken || d.code == .missingToken
    diagnostics.filter objects = (lastCursor s.chars).raised.reverse.filter objects ∧
    (diagnostics.filter objects).Pairwise (fun d e => d.offset < e.offset) ∧
    ∀ d ∈ diagnostics, objects d → ∃ t ∈ (lexSignificant s 0).tokens,
      d.position = t.position ∧ d.length = t.length ∧ d.actual = some t.kind ∧
        (d.code = .unexpectedToken → t.kind ≠ .invalid) := by
  intro diagnostics objects
  have hobjects : objects = fun d => d.code.isTokenComplaint := by
    funext d
    simp only [objects]
    cases d.code <;> rfl
  have hshown := objections_diagnostics s policy
  have hlast := disciplined_lastCursor s.chars
  refine ⟨?_, ?_, fun d hd hobject => ?_⟩
  · rw [hobjects, hshown, List.filter_reverse]
    rfl
  · rw [hobjects, hshown, List.pairwise_reverse]
    exact hlast.descending
  · have hmem : d ∈ (lastCursor s.chars).objections := by
      rw [← List.mem_reverse, ← hshown]
      exact List.mem_filter.2 ⟨hd, by rwa [hobjects] at hobject⟩
    obtain ⟨t, ht, expected, heq, hinvalid⟩ := hlast.about d hmem
    rw [Cursor.tokens_ofChars, ← tokens_lexSignificant s 0] at ht
    exact ⟨t, ht, by rw [heq]; rfl, by rw [heq]; rfl, by rw [heq]; rfl, hinvalid⟩

end Module

end DeclFront
