import DeclFront.Proofs.Slices

/-!
# Slices that are lexed alone

**Theorem (`relexes_slices`).** Between two boundaries of a text, lexing gives what it gives of that
stretch of text alone, but for the places, which are counted from the beginning of the stretch.

A boundary has some segments of the text in front of it and the others behind it
(`Segment.exists_append_of_isBoundary`). Two boundaries have a run of segments between them, which
is what the slice is cut into (`Segment.ofText_slice`), and no other segment lies between the two,
as none is empty (`Segment.filter_covers_span`).
-/

namespace DeclFront

/-! ## Boundaries -/

/-- A token, or a blank that is not allowed, begins or ends at the offset. -/
def Source.IsBoundary (s : Source) (n : Nat) : Prop :=
  (∃ t ∈ (lexRaw s 0).tokens, n = t.start ∨ n = t.stop) ∨
    ∃ x ∈ (lexRaw s 0).diagnostics, x.code = .unsupportedWhitespace ∧
      (n = x.span.start ∨ n = x.span.stop)

instance (s : Source) (n : Nat) : Decidable (s.IsBoundary n) :=
  inferInstanceAs (Decidable (_ ∨ _))

namespace LexOutput

/-- The tokens in a span, without the end of input. -/
def tokensIn (o : LexOutput) (r : Span) : List Token :=
  o.tokens.filter fun t => t.kind != .endOfInput && r.Covers t.span

def diagnosticsIn (o : LexOutput) (r : Span) : List Diagnostic :=
  o.diagnostics.filter fun x => r.Covers x.span

end LexOutput

namespace Segment

variable {cs : List Char} {ss ss' front mid rest : List Segment}

theorem stop_eq_after {p : Position} {s : Segment} (h : ofText p cs = ss ++ s :: ss') :
    s.stop = p.after ((ss ++ [s]).flatMap text) := by
  rw [stop, position_eq_after h, ← Position.after_append, List.flatMap_append,
    List.flatMap_singleton]

/-- Where a segment begins or ends, there are some segments in front and the others behind. -/
theorem exists_append_of_mem {s : Segment} {n : Nat} (hs : s ∈ ofText .origin cs)
    (hn : n = s.span.start ∨ n = s.span.stop) :
    ∃ ss ss', ofText .origin cs = ss ++ ss' ∧ n = byteLength (ss.flatMap text) := by
  obtain ⟨ss, ss', hss⟩ := List.append_of_mem hs
  rcases hn with rfl | rfl
  · exact ⟨ss, s :: ss', hss, by
      rw [span, position_eq_after hss, Position.offset_after_origin]⟩
  · exact ⟨ss ++ [s], ss', by simp [hss], by
      rw [span, stop_eq_after hss, Position.offset_after_origin]⟩

theorem exists_append_of_isBoundary {s : Source} {n : Nat} (h : s.IsBoundary n) :
    ∃ ss ss', ofText .origin s.chars = ss ++ ss' ∧ n = byteLength (ss.flatMap text) := by
  rcases h with ⟨t, ht, hn⟩ | ⟨x, hx, -, hn⟩
  · rw [tokens_lexRaw] at ht
    rcases List.mem_append.1 ht with ht | ht
    · obtain ⟨piece, hpiece, htoken⟩ := List.mem_filterMap.1 ht
      refine exists_append_of_mem hpiece ?_
      rwa [← span_of_token? htoken]
    · rw [List.mem_singleton.1 ht] at hn
      refine ⟨ofText .origin s.chars, [], (List.append_nil _).symm, ?_⟩
      rw [flatMap_text, ← Position.offset_after_origin]
      exact hn.elim id id
  · rw [Module.diagnostics_lexRaw_zero] at hx
    obtain ⟨piece, hpiece, hdiagnostic⟩ := List.mem_filterMap.1 hx
    refine exists_append_of_mem hpiece ?_
    rwa [← span_of_diagnostic? hdiagnostic]

theorem offset_lt_stop_of_mem {p : Position} {s : Segment} (h : s ∈ ofText p cs) :
    s.position.offset < s.stop.offset := by
  obtain ⟨q, c, cs, rfl⟩ := exists_first_of_mem h
  exact offset_lt_stop_first q c cs

/-- Between two boundaries there is a run of segments. -/
theorem exists_append_of_le (h : ofText .origin cs = ss ++ rest)
    (h' : ofText .origin cs = ss' ++ rest')
    (hle : byteLength (ss.flatMap text) ≤ byteLength (ss'.flatMap text)) :
    ∃ mid, ss' = ss ++ mid := by
  rcases List.append_eq_append_iff.1 (h.symm.trans h') with ⟨mid, hmid, -⟩ | ⟨mid, hmid, -⟩
  · exact ⟨mid, hmid⟩
  cases mid with
  | nil => exact ⟨[], by simp [hmid]⟩
  | cons s mid =>
    -- The segment between the two is not empty, so they are in the other order.
    have hsplit : ofText .origin cs = ss' ++ s :: (mid ++ rest) := by rw [h, hmid]; simp
    have hlt := offset_lt_stop_of_mem (hsplit ▸ List.mem_append_right ss' List.mem_cons_self)
    rw [position_eq_after hsplit, stop_eq_after hsplit, Position.offset_after_origin,
      Position.offset_after_origin] at hlt
    simp only [hmid, List.flatMap_append, List.flatMap_cons, byteLength_append, List.flatMap_nil,
      byteLength_nil] at hle hlt
    omega

/-- What stands in front of a boundary ends there at the latest, and what stands behind it begins
there at the earliest. -/
theorem span_of_append (h : ofText .origin cs = ss ++ ss') :
    (∀ s ∈ ss, s.span.stop ≤ byteLength (ss.flatMap text)) ∧
      ∀ s ∈ ss', byteLength (ss.flatMap text) ≤ s.span.start := by
  refine ⟨fun s hs => ?_, fun s hs => ?_⟩
  · obtain ⟨before, behind, rfl⟩ := List.append_of_mem hs
    have hsplit : ofText .origin cs = before ++ s :: (behind ++ ss') := by rw [h]; simp
    rw [span, stop_eq_after hsplit, Position.offset_after_origin]
    simp only [List.flatMap_append, List.flatMap_cons, byteLength_append, List.flatMap_nil,
      byteLength_nil]
    omega
  · obtain ⟨before, behind, rfl⟩ := List.append_of_mem hs
    rw [← List.append_assoc] at h
    rw [span, position_eq_after h, Position.offset_after_origin, List.flatMap_append,
      byteLength_append]
    exact Nat.le_add_right _ _

/-- The segments in the span of a run are those of the run. -/
theorem filter_covers_span (h : ofText .origin cs = front ++ mid ++ rest) :
    (ofText .origin cs).filter (fun s => Span.Covers
      ⟨byteLength (front.flatMap text), byteLength ((front ++ mid).flatMap text)⟩ s.span) =
        mid := by
  have hpos : ∀ s ∈ ofText .origin cs, s.span.start < s.span.stop := fun s => offset_lt_stop_of_mem
  obtain ⟨hfront, hmid⟩ := span_of_append (h.trans (List.append_assoc front mid rest))
  obtain ⟨hmid', hrest⟩ := span_of_append h
  rw [h] at hpos ⊢
  rw [List.filter_append, List.filter_append, List.filter_eq_nil_iff.2, List.filter_eq_self.2,
    List.filter_eq_nil_iff.2, List.nil_append, List.append_nil]
  · intro s hs hcovers
    have := hpos s (List.mem_append_right _ hs)
    have := hrest s hs
    exact absurd (of_decide_eq_true hcovers).2 (by dsimp only; omega)
  · exact fun s hs => decide_eq_true
      ⟨hmid s (List.mem_append_left _ hs), hmid' s (List.mem_append_right _ hs)⟩
  · intro s hs hcovers
    have := hpos s (List.mem_append_left _ (List.mem_append_left _ hs))
    have := hfront s hs
    exact absurd (of_decide_eq_true hcovers).1 (by dsimp only; omega)

end Segment

/-! ## What stands in a span -/

/-- What is kept of the values of a partial function comes from what is kept of its arguments. -/
theorem filter_filterMap_of_forall {α β : Type} {f : α → Option β} {p : α → Bool} {q : β → Bool}
    {as : List α} (h : ∀ a ∈ as, ∀ b, f a = some b → q b = p a) :
    (as.filterMap f).filter q = (as.filter p).filterMap f := by
  rw [List.filter_filterMap, List.filterMap_filter]
  refine List.filterMap_congr fun a ha => ?_
  cases hb : f a with
  | none => simp
  | some b => simp [Option.filter, h a ha b hb]

namespace LexOutput

theorem tokensIn_lexRaw (s : Source) (r : Span) : (lexRaw s 0).tokensIn r =
    ((Segment.ofText .origin s.chars).filter fun x => r.Covers x.span).filterMap
      Segment.token? := by
  have hend :
      [endOfInput s.chars].filter (fun t => t.kind != .endOfInput && r.Covers t.span) = [] := rfl
  rw [tokensIn, tokens_lexRaw, List.filter_append, hend, List.append_nil, Segment.tokens]
  refine filter_filterMap_of_forall fun x hx t ht => ?_
  have hkind := Cursor.kind_ne_endOfInput (List.mem_filterMap.2 ⟨x, hx, ht⟩)
  rw [bne_iff_ne.2 hkind, Bool.true_and, Segment.span_of_token? ht]

theorem diagnosticsIn_lexRaw (s : Source) (r : Span) : (lexRaw s 0).diagnosticsIn r =
    ((Segment.ofText .origin s.chars).filter fun x => r.Covers x.span).filterMap
      Segment.diagnostic? := by
  rw [diagnosticsIn, Module.diagnostics_lexRaw_zero, Segment.complaints]
  exact filter_filterMap_of_forall fun x _ d hd => by rw [Segment.span_of_diagnostic? hd]

end LexOutput

/-! ## Slices -/

/-- The text of a run of segments is cut into the same segments when it stands alone. -/
theorem Segment.lexRaw_run {s : Source} {front mid rest : List Segment}
    (h : ofText .origin s.chars = front ++ mid ++ rest) {r : Span}
    (hr : r = ⟨byteLength (front.flatMap text), byteLength ((front ++ mid).flatMap text)⟩)
    (name : Option String) : s.spanText r = String.ofList (mid.flatMap text) ∧
    (lexRaw ⟨s.spanText r, name⟩ 0).tokens =
      (mid.filterMap token?).map (.rebase (.recount (front.flatMap text)) .origin) ++
        [⟨.endOfInput, .recount (mid.flatMap text), 0⟩] ∧
    (lexRaw ⟨s.spanText r, name⟩ 0).diagnostics =
      (mid.filterMap diagnostic?).map (.rebase (.recount (front.flatMap text)) .origin) := by
  have hsource : s.chars = front.flatMap text ++ mid.flatMap text ++ rest.flatMap text := by
    rw [← flatMap_text .origin s.chars, h, List.flatMap_append, List.flatMap_append]
  have htext : s.spanText r = String.ofList (mid.flatMap text) := by
    rw [hr, List.flatMap_append, Source.spanText_eq hsource]
  have hchars : Source.chars ⟨s.spanText r, name⟩ = mid.flatMap text := by
    rw [Source.chars, htext, String.toList_ofList]
  have hbehind := eq_ofText_of_append (h.trans (List.append_assoc front mid rest))
  rw [List.flatMap_append] at hbehind
  have hsegments : ofText .origin (mid.flatMap text) =
      mid.map (rebase (.recount (front.flatMap text)) .origin) := by
    rw [ofText_rebase (.recount (front.flatMap text)), ← Position.after_origin,
      ofText_slice hbehind.symm rfl]
  rw [tokens_lexRaw, Module.diagnostics_lexRaw_zero, tokens, complaints, hchars, hsegments,
    List.filterMap_map, List.map_filterMap, List.filterMap_map, List.map_filterMap, endOfInput,
    Position.after_origin]
  exact ⟨htext, congrArg (· ++ _) (List.filterMap_congr fun x _ => token?_rebase _ _ x),
    List.filterMap_congr fun x _ => diagnostic?_rebase _ _ x⟩

/-- Between two boundaries stands a run of segments. -/
theorem Source.exists_run {s : Source} {a b : Nat} (ha : s.IsBoundary a) (hb : s.IsBoundary b)
    (hle : a ≤ b) : ∃ front mid rest, Segment.ofText .origin s.chars = front ++ mid ++ rest ∧
      a = byteLength (front.flatMap Segment.text) ∧
      b = byteLength ((front ++ mid).flatMap Segment.text) := by
  obtain ⟨front, back, hfront, rfl⟩ := Segment.exists_append_of_isBoundary ha
  obtain ⟨front', rest, hrest, rfl⟩ := Segment.exists_append_of_isBoundary hb
  obtain ⟨mid, rfl⟩ := Segment.exists_append_of_le hfront hrest hle
  exact ⟨front, mid, rest, hrest, rfl, rfl⟩

/-- What a text gives between two boundaries is what the slice gives. -/
theorem lexRaw_slice {s : Source} {a b : Nat} (ha : s.IsBoundary a) (hb : s.IsBoundary b)
    (hle : a ≤ b) (name : Option String) : ∃ before slice,
      before ++ slice <+: s.chars ∧ byteLength before = a ∧ byteLength (before ++ slice) = b ∧
      s.spanText ⟨a, b⟩ = String.ofList slice ∧
      (lexRaw ⟨s.spanText ⟨a, b⟩, name⟩ 0).tokens =
        ((lexRaw s 0).tokensIn ⟨a, b⟩).map (.rebase (.recount before) .origin) ++
          [⟨.endOfInput, .recount slice, 0⟩] ∧
      (lexRaw ⟨s.spanText ⟨a, b⟩, name⟩ 0).diagnostics =
        ((lexRaw s 0).diagnosticsIn ⟨a, b⟩).map (.rebase (.recount before) .origin) := by
  obtain ⟨front, mid, rest, h, rfl, rfl⟩ := Source.exists_run ha hb hle
  obtain ⟨htext, htokens, hdiagnostics⟩ := Segment.lexRaw_run h rfl name
  refine ⟨front.flatMap Segment.text, mid.flatMap Segment.text, ⟨rest.flatMap Segment.text, ?_⟩,
    rfl, by rw [List.flatMap_append], htext, ?_, ?_⟩
  · rw [← List.flatMap_append, ← List.flatMap_append, ← h, Segment.flatMap_text]
  · rw [htokens, LexOutput.tokensIn_lexRaw, Segment.filter_covers_span h]
  · rw [hdiagnostics, LexOutput.diagnosticsIn_lexRaw, Segment.filter_covers_span h]

/-- The text of a token gives the token. -/
theorem lexRaw_tokenText {s : Source} {t : Token} (ht : t ∈ (lexRaw s 0).tokens)
    (hkind : t.kind ≠ .endOfInput) (name : Option String) :
    (lexRaw ⟨s.tokenText t, name⟩ 0).tokens =
      [⟨t.kind, .origin, t.length⟩, ⟨.endOfInput, .recount (s.tokenText t).toList, 0⟩] := by
  rw [tokens_lexRaw] at ht
  rcases List.mem_append.1 ht with ht | ht
  · obtain ⟨piece, hpiece, htoken⟩ := List.mem_filterMap.1 ht
    obtain ⟨front, rest, hsplit⟩ := List.append_of_mem hpiece
    have hposition : t.position = .recount (front.flatMap Segment.text) := by
      obtain ⟨k, -, rfl⟩ := Option.map_eq_some_iff.1 htoken
      exact (Segment.position_eq_after hsplit).trans (Position.after_origin _)
    have hspan : t.span = ⟨byteLength (front.flatMap Segment.text),
        byteLength ((front ++ [piece]).flatMap Segment.text)⟩ := by
      rw [Segment.span_of_token? htoken, Segment.span, Segment.position_eq_after hsplit,
        Segment.stop_eq_after hsplit, Position.offset_after_origin, Position.offset_after_origin]
    have hmiddle : Segment.ofText .origin s.chars = front ++ [piece] ++ rest :=
      hsplit.trans (List.append_cons front piece rest)
    obtain ⟨htext, htokens, -⟩ := Segment.lexRaw_run hmiddle hspan name
    have hrebase : t.rebase t.position .origin = ⟨t.kind, .origin, t.length⟩ :=
      congrArg (Token.mk t.kind · t.length) (Position.rebase_after t.position .origin [])
    rw [Source.spanText_span] at htext htokens
    rw [htokens, ← hposition, List.filterMap_cons_some htoken, List.filterMap_nil,
      List.map_singleton, hrebase, htext, String.toList_ofList]
    rfl
  · exact absurd (congrArg Token.kind (List.mem_singleton.1 ht)) hkind

/-- **Slices are lexed alone.** Read without a limit, the text between two boundaries gives the
tokens and the diagnostics of the whole text that lie there, and the end of input behind them. Their
places are counted from the beginning of the slice. The text of a token alone gives that token. -/
theorem relexes_slices (s : Source) (name : Option String) :
    (∀ a b, s.IsBoundary a → s.IsBoundary b → a ≤ b → ∃ before slice,
      before ++ slice <+: s.chars ∧ byteLength before = a ∧ byteLength (before ++ slice) = b ∧
      s.spanText ⟨a, b⟩ = String.ofList slice ∧
      (lexRaw ⟨s.spanText ⟨a, b⟩, name⟩ 0).tokens =
        ((lexRaw s 0).tokensIn ⟨a, b⟩).map (.rebase (.recount before) .origin) ++
          [⟨.endOfInput, .recount slice, 0⟩] ∧
      (lexRaw ⟨s.spanText ⟨a, b⟩, name⟩ 0).diagnostics =
        ((lexRaw s 0).diagnosticsIn ⟨a, b⟩).map (.rebase (.recount before) .origin)) ∧
    ∀ t ∈ (lexRaw s 0).tokens, t.kind ≠ .endOfInput → (lexRaw ⟨s.tokenText t, name⟩ 0).tokens =
      [⟨t.kind, .origin, t.length⟩, ⟨.endOfInput, .recount (s.tokenText t).toList, 0⟩] :=
  ⟨fun _ _ ha hb hle => lexRaw_slice ha hb hle name,
    fun _ ht hkind => lexRaw_tokenText ht hkind name⟩

/-- A blank that is not allowed, an open string and its line break, cut out of a text; and the
string alone. -/
theorem relexes_slices_openString :
    let s : Source := ⟨"x\u00a0\"y\r\nz", none⟩
    let t : Token := ⟨.string, ⟨3, 1, 3⟩, 2⟩
    (s.IsBoundary 1 ∧ s.IsBoundary 7 ∧ t ∈ (lexRaw s 0).tokens) ∧
    (∃ before slice, before ++ slice <+: s.chars ∧ byteLength before = 1 ∧
      byteLength (before ++ slice) = 7 ∧ s.spanText ⟨1, 7⟩ = String.ofList slice ∧
      (lexRaw ⟨s.spanText ⟨1, 7⟩, none⟩ 0).tokens =
        ((lexRaw s 0).tokensIn ⟨1, 7⟩).map (.rebase (.recount before) .origin) ++
          [⟨.endOfInput, .recount slice, 0⟩] ∧
      (lexRaw ⟨s.spanText ⟨1, 7⟩, none⟩ 0).diagnostics =
        ((lexRaw s 0).diagnosticsIn ⟨1, 7⟩).map (.rebase (.recount before) .origin)) ∧
    (lexRaw ⟨s.tokenText t, none⟩ 0).tokens = [⟨.string, .origin, 2⟩,
      ⟨.endOfInput, .recount (s.tokenText t).toList, 0⟩] := by
  intro s t
  have ha : s.IsBoundary 1 := by decide +kernel
  have hb : s.IsBoundary 7 := by decide +kernel
  have ht : t ∈ (lexRaw s 0).tokens := by decide +kernel
  obtain ⟨hslice, htoken⟩ := relexes_slices s none
  exact ⟨⟨ha, hb, ht⟩, hslice 1 7 ha hb (by decide), htoken t ht (by decide)⟩

end DeclFront
