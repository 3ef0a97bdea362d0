import DeclFront.Proofs.Grammar
import DeclFront.Proofs.Readings
import DeclFront.Proofs.Run

/-!
# What a parser passes

A parser **passes** the tokens that it consumes: they stand in front of what is left, and the place
that was consumed to is where the last of them ends (`Cursor.Passes`).

**Sound cursors.** The tokens of a text about which the lexer has no complaint stand in order, and
none of them is invalid. From such a cursor a complaint is never muted while nothing has been raised
(`Cursor.Sound.raised_report`), so a parser that raises nothing has come across no mistake.
-/

namespace DeclFront

/-! ## Tokens in order -/

/-- Each token ends before every later one begins. -/
def Ordered (ts : List Token) : Prop := ts.Pairwise fun t u => t.stop ≤ u.start

theorem lastStop_append (n : Nat) (ts us : List Token) :
    lastStop n (ts ++ us) = lastStop (lastStop n ts) us := by
  induction ts generalizing n with
  | nil => rfl
  | cons t ts ih => exact ih t.stop

/-- Of two tokens that stand in order one ends before the other begins. -/
theorem Ordered.apart {ts : List Token} (h : Ordered ts) {t u : Token} (ht : t ∈ ts) (hu : u ∈ ts)
    (hne : t ≠ u) : t.stop ≤ u.start ∨ u.stop ≤ t.start := by
  induction h with
  | nil => exact absurd ht List.not_mem_nil
  | cons hbefore _ ih =>
    rcases List.mem_cons.1 ht with rfl | ht' <;> rcases List.mem_cons.1 hu with rfl | hu'
    · exact absurd rfl hne
    · exact .inl (hbefore u hu')
    · exact .inr (hbefore t ht')
    · exact ih ht' hu'

theorem le_lastStop {n : Nat} {ts : List Token} (h : ∀ t ∈ ts, n ≤ t.start) (hts : Ordered ts) :
    n ≤ lastStop n ts := by
  induction ts generalizing n with
  | nil => exact Nat.le_refl n
  | cons t ts ih =>
    obtain ⟨ht, hts⟩ := List.pairwise_cons.1 hts
    calc n ≤ t.start := h t List.mem_cons_self
      _ ≤ t.stop := Nat.le_add_right _ _
      _ ≤ lastStop t.stop ts := ih ht hts

/-- No token ends behind the last one. -/
theorem stop_le_lastStop {n : Nat} {ts us : List Token} (h : Ordered (ts ++ us)) (hne : ts ≠ []) :
    lastStop n ts ≤ lastStop n (ts ++ us) := by
  rw [lastStop_append]
  refine le_lastStop (fun u hu => ?_) (List.pairwise_append.1 h).2.1
  have hlast : lastStop n ts = (ts.getLast hne).stop :=
    calc lastStop n ts = lastStop n (ts.dropLast ++ [ts.getLast hne]) := by
          rw [List.dropLast_concat_getLast hne]
      _ = (ts.getLast hne).stop := lastStop_append n _ _
  rw [hlast]
  exact (List.pairwise_append.1 h).2.2 _ (List.getLast_mem hne) u hu

theorem Span.stop_ofTokens {ts : List Token} (h : ts ≠ []) (n : Nat) :
    (Span.ofTokens ts).stop = lastStop n ts := by
  cases ts with
  | nil => exact absurd rfl h
  | cons t ts => rfl

/-- Tokens are spanned from the first one to the last one. -/
theorem Span.ofTokens_eq {ts : List Token} {t u : Token} (ht : ts.head? = some t)
    (hu : ts.getLast? = some u) : Span.ofTokens ts = ⟨t.start, u.stop⟩ := by
  cases ts with
  | nil => exact absurd ht (by simp)
  | cons t' ts =>
    obtain rfl : t' = t := Option.some.inj ht
    obtain ⟨vs, hvs⟩ := List.getLast?_eq_some_iff.1 hu
    have hlast : lastStop 0 (t' :: ts) = u.stop := by
      rw [hvs, lastStop_append]
      rfl
    exact congrArg (Span.mk t'.start) hlast

/-- Tokens inside others end before the last of those. -/
theorem stop_ofTokens_le {ts us : List Token} (h : Ordered ts) (hus : us <:+: ts) (hne : us ≠ [])
    (n : Nat) : (Span.ofTokens us).stop ≤ lastStop n ts := by
  obtain ⟨before, behind, rfl⟩ := hus
  have h := h.sublist (List.append_assoc before us behind ▸
    List.sublist_append_right before (us ++ behind))
  rw [Span.stop_ofTokens hne (lastStop n before), List.append_assoc, lastStop_append _ before]
  exact stop_le_lastStop h hne

/-- The span of tokens that end with, or behind, the tokens `us`. -/
theorem span_max {ts us : List Token} (h : Ordered ts) (hus : us <:+: ts) (hne : us ≠ [])
    {t : Token} {vs : List Token} (ht : ts = t :: vs) (n : Nat) :
    (⟨t.start, max (lastStop n ts) (Span.ofTokens us).stop⟩ : Span) = .ofTokens ts := by
  rw [Nat.max_eq_left (stop_ofTokens_le h hus hne n), ht]
  rfl

/-- The span of a token and of tokens behind it. -/
theorem merge_ofTokens {t : Token} {ts us : List Token} (h : Ordered (t :: ts ++ us))
    (hne : us ≠ []) : t.span.merge (.ofTokens us) = .ofTokens (t :: ts ++ us) := by
  cases us with
  | nil => exact absurd rfl hne
  | cons u us =>
    have hstart : t.stop ≤ u.start :=
      (List.pairwise_append.1 h).2.2 t List.mem_cons_self u List.mem_cons_self
    have hus := List.pairwise_cons.1 (List.pairwise_append.1 h).2.1
    have hstop : t.stop ≤ lastStop u.stop us :=
      calc t.stop ≤ u.start := hstart
        _ ≤ u.stop := Nat.le_add_right _ _
        _ ≤ lastStop u.stop us := le_lastStop hus.1 hus.2
    have hlast : lastStop t.stop (ts ++ u :: us) = lastStop u.stop us := lastStop_append _ _ _
    simp only [Span.merge, Span.ofTokens, Token.span, List.cons_append, hlast,
      Nat.max_eq_right hstop, Nat.min_eq_left (Nat.le_trans (Nat.le_add_right _ _) hstart)]

namespace Cursor

variable {c d e : Cursor} {ts us : List Token}

/-! ## Sound cursors -/

/-- Before tokens that stand in order and without complaints about them. -/
structure Sound (c : Cursor) : Prop where
  closed : c.Closed
  ordered : Ordered c.tokens
  valid : ∀ t ∈ c.tokens, t.kind ≠ .invalid
  quiet : ∀ r ∈ c.ahead, r.complaints = []
  heard : c.raised = [] → c.complainedAt = none

theorem Sound.of_tokens (h : c.Sound) (hd : d.Closed) (hsuffix : d.tokens <:+ c.tokens)
    (hquiet : ∀ r ∈ d.ahead, r.complaints = []) (hheard : d.raised = [] → d.complainedAt = none) :
    d.Sound where
  closed := hd
  ordered := h.ordered.sublist hsuffix.sublist
  valid := fun t ht => h.valid t (hsuffix.subset ht)
  quiet := hquiet
  heard := hheard

theorem tokens_advance_suffix (c : Cursor) : c.advance.tokens <:+ c.tokens := by
  by_cases hne : c.ahead = []
  · have htokens : c.advance.tokens = c.tokens := by rw [advance_of_ahead_nil hne]
    exact htokens ▸ List.suffix_refl _
  · rw [tokens_advance_of_ne_nil hne]
    exact List.suffix_cons _ _

theorem Sound.raised_advance (h : c.Sound) : c.advance.raised = c.raised := by
  cases hr : c.ahead with
  | nil => rw [advance_of_ahead_nil hr]
  | cons r rs => simp [advance_of_ahead hr, h.quiet r (by simp [hr])]

theorem Sound.raised_peek (h : c.Sound) : c.peek.2.raised = c.raised := by
  unfold peek
  split
  · rfl
  · rename_i r rs hr
    simp [h.quiet r (by simp [hr])]

theorem Sound.sound_advance (h : c.Sound) : c.advance.Sound := by
  refine h.of_tokens (closed_advance h.closed) (tokens_advance_suffix c) ?_ ?_
  · unfold advance
    split
    · exact h.quiet
    · rename_i r rs hr
      exact fun r' hr' => h.quiet r' (by simp [hr, hr'])
  · rw [h.raised_advance, complainedAt_advance]
    exact h.heard

theorem Sound.sound_peek (h : c.Sound) : c.peek.2.Sound := by
  refine h.of_tokens (by simpa [Closed] using h.closed) (by simp) ?_ ?_
  · unfold peek
    split
    · exact h.quiet
    · rename_i r rs hr
      intro r' hr'
      rcases List.mem_cons.1 hr' with rfl | hr'
      · rfl
      · exact h.quiet r' (by simp [hr, hr'])
  · rw [h.raised_peek, complainedAt_peek]
    exact h.heard

/-- **No complaint is muted.** While nothing has been raised, a report raises something. -/
theorem Sound.raised_report (h : c.Sound) (x : Diagnostic) : (c.report x).raised ≠ [] := by
  rcases Cursor.raised_report c x with hr | ⟨hat, hr⟩
  · simp [hr]
  · rw [hr]
    exact fun hnil => by simp [h.heard hnil] at hat

theorem Sound.sound_report (h : c.Sound) (x : Diagnostic) : (c.report x).Sound :=
  h.of_tokens (by simpa [Closed] using h.closed) (by simp) (by simpa using h.quiet)
    fun hr => absurd hr (h.raised_report x)

theorem Step.sound (hs : Step c d) (h : c.Sound) : d.Sound := by
  cases hs with
  | peek => exact h.sound_peek
  | advance => exact h.sound_advance
  | complain => exact h.sound_report _
  | skipEmpty => exact h.sound_advance.sound_advance.sound_report _

theorem Reaches.sound (hr : c.Reaches d) (h : c.Sound) : d.Sound := hr.keeps Step.sound h

theorem Step.raised_ne_nil (hs : Step c d) (h : c.raised ≠ []) : d.raised ≠ [] := by
  have hadvance {e : Cursor} (h : e.raised ≠ []) : e.advance.raised ≠ [] := by
    unfold Cursor.advance
    split <;> simp [h]
  have hreport {e : Cursor} (x : Diagnostic) (h : e.raised ≠ []) : (e.report x).raised ≠ [] := by
    rcases Cursor.raised_report e x with hr | ⟨-, hr⟩ <;> simp [hr, h]
  cases hs with
  | peek =>
    unfold Cursor.peek
    split <;> simp [h]
  | advance => exact hadvance h
  | complain => exact hreport _ h
  | skipEmpty => exact hreport _ (hadvance (hadvance h))

/-- What was raised is never taken back. -/
theorem Reaches.raised_ne_nil (hr : c.Reaches d) (h : c.raised ≠ []) : d.raised ≠ [] :=
  hr.keeps Step.raised_ne_nil h

theorem Reaches.raised_eq_nil (hr : c.Reaches d) (h : d.raised = []) : c.raised = [] :=
  Decidable.byContradiction fun hne => hr.raised_ne_nil hne h

/-! ## Passing tokens -/

/-- The tokens `ts` are consumed from `c` to `d`. -/
structure Passes (c : Cursor) (ts : List Token) (d : Cursor) : Prop where
  tokens : c.tokens = ts ++ d.tokens
  consumedTo : d.consumedTo = lastStop c.consumedTo ts

theorem Passes.refl (c : Cursor) : c.Passes [] c := ⟨rfl, rfl⟩

theorem Passes.trans (h : c.Passes ts d) (h' : d.Passes us e) : c.Passes (ts ++ us) e where
  tokens := by rw [h.tokens, h'.tokens, List.append_assoc]
  consumedTo := by rw [h'.consumedTo, h.consumedTo, lastStop_append]

theorem Closed.passes_advance (h : c.Closed) (hk : c.current.kind ≠ .endOfInput) :
    c.Passes [c.current] c.advance :=
  ⟨h.tokens_advance hk, h.consumedTo_advance hk⟩

theorem passes_peek (c : Cursor) : c.Passes [] c.peek.2 := ⟨by simp, by simp [lastStop]⟩

/-- A sequence of moves passes some tokens. -/
theorem Reaches.passes (hr : c.Reaches d) (hc : c.Closed) : ∃ ts, c.Passes ts d := by
  have hadvance {e : Cursor} (he : e.Closed) : ∃ ts, e.Passes ts e.advance := by
    by_cases hk : e.current.kind = .endOfInput
    · exact ⟨[], by rw [he.advance_of_end hk]; exact .refl e⟩
    · exact ⟨_, he.passes_advance hk⟩
  have hreport (e : Cursor) (x : Diagnostic) : e.Passes [] (e.report x) :=
    ⟨by simp, by simp [lastStop]⟩
  refine (hr.keeps (P := fun e => e.Closed ∧ ∃ ts, c.Passes ts e) ?_ ⟨hc, [], .refl c⟩).2
  rintro e f hs ⟨he, ts, hpass⟩
  refine ⟨hs.closed he, ?_⟩
  cases hs with
  | peek => exact ⟨ts ++ [], hpass.trans (passes_peek e)⟩
  | complain => exact ⟨ts ++ [], hpass.trans (hreport e _)⟩
  | advance =>
    obtain ⟨us, hus⟩ := hadvance he
    exact ⟨ts ++ us, hpass.trans hus⟩
  | skipEmpty =>
    obtain ⟨us, hus⟩ := hadvance he
    obtain ⟨vs, hvs⟩ := hadvance (closed_advance he)
    exact ⟨ts ++ us ++ vs ++ [], ((hpass.trans hus).trans hvs).trans (hreport _ _)⟩

theorem Passes.left_eq (h : c.Passes ts d) : c.left = ts.length + d.left := by
  have := congrArg List.length h.tokens
  simp only [List.length_append, length_tokens] at this
  omega

/-- Moves that leave as many tokens as stand behind a token come to that token. -/
theorem Reaches.current_eq {mark : Token} (hr : c.Reaches d) (hc : c.Closed)
    (htokens : c.tokens = ts ++ mark :: us) (hleft : d.left = us.length) : d.current = mark := by
  obtain ⟨vs, hpass⟩ := hr.passes hc
  have happend : ts ++ mark :: us = vs ++ d.tokens := htokens.symm.trans hpass.tokens
  have hlength : (mark :: us).length = d.tokens.length := by
    rw [length_tokens, hleft, List.length_cons]
  exact (List.cons.inj (List.append_inj_right' happend hlength)).1.symm

/-- Tokens that were passed stand in order. -/
theorem Passes.ordered (h : c.Passes ts d) (hc : c.Sound) : Ordered ts := by
  have := hc.ordered
  rw [h.tokens] at this
  exact (List.pairwise_append.1 this).1

/-- The span of the tokens that were passed. -/
theorem Passes.span_eq (h : c.Passes ts d) (hne : ts ≠ []) :
    Span.ofTokens ts = ⟨c.current.start, d.consumedTo⟩ := by
  cases ts with
  | nil => exact absurd rfl hne
  | cons t ts =>
    have hcurrent : c.current = t := (List.cons.inj h.tokens).1
    rw [h.consumedTo, hcurrent]
    rfl

/-- Tokens that were passed end before the place that was consumed to. -/
theorem Passes.stop_le (h : c.Passes ts d) (hc : c.Sound) (hus : us <:+: ts) (hne : us ≠ []) :
    (Span.ofTokens us).stop ≤ d.consumedTo := by
  rw [h.consumedTo]
  exact stop_ofTokens_le (h.ordered hc) hus hne _

end Cursor

/-! ## The tokens of a text -/

theorem stop_of_token? {s : Segment} {t : Token} (h : s.token? = some t) :
    t.start = s.position.offset ∧ t.stop = s.stop.offset := by
  obtain ⟨k, -, rfl⟩ := Option.map_eq_some_iff.1 h
  refine ⟨rfl, ?_⟩
  rw [Segment.stop, Position.offset_after]
  rfl

/-- The tokens of a text stand in order, with the end of input behind them. -/
theorem Segment.ordered_tokens (cs : List Char) : Ordered (tokens cs ++ [endOfInput cs]) := by
  refine List.pairwise_append.2 ⟨?_, List.pairwise_singleton _ _, ?_⟩
  · refine List.Pairwise.filterMap _ (fun s t hst u hu v hv => ?_) (pairwise_ofText .origin cs)
    rw [(stop_of_token? hu).2, (stop_of_token? hv).1]
    exact hst
  · intro t ht u hu
    obtain rfl := List.mem_singleton.1 hu
    obtain ⟨s, hs, hts⟩ := List.mem_filterMap.1 ht
    rw [(stop_of_token? hts).2]
    exact stop_le_of_mem hs

theorem ordered_tokens (cs : List Char) :
    Ordered ((Segment.tokens cs).filter (!·.kind.isTrivia) ++ [endOfInput cs]) :=
  (Segment.ordered_tokens cs).sublist ((List.filter_sublist).append_right _)

/-- A text without complaints of the lexer has no invalid token. -/
theorem valid_of_complaints {cs : List Char} (h : Segment.complaints cs = []) {t : Token}
    (ht : t ∈ Segment.tokens cs) : t.kind ≠ .invalid := by
  intro hk
  obtain ⟨s, hs, hts⟩ := List.mem_filterMap.1 ht
  obtain ⟨k, hkind, rfl⟩ := Option.map_eq_some_iff.1 hts
  have hcomplaint := (Segment.lawful_of_mem hs).complaint_of_invalid
    (hkind.trans (congrArg some hk))
  obtain ⟨code, hcode⟩ := Option.isSome_iff_exists.1 hcomplaint
  have hmem : Diagnostic.about code .lexing s.position s.length ∈ Segment.complaints cs :=
    List.mem_filterMap.2 ⟨s, hs, congrArg (Option.map _) hcode⟩
  rw [h] at hmem
  exact List.not_mem_nil hmem

namespace Cursor

/-- The cursor before the first token of a text without complaints of the lexer. -/
theorem sound_ofChars {cs : List Char} (h : Segment.complaints cs = []) :
    (ofChars cs).Sound ∧ (ofChars cs).raised = [] := by
  have hcomplaints : (ofChars cs).raised.reverse ++ (ofChars cs).ahead.flatMap (·.complaints) =
      [] := by
    rw [ofReadings_eq, complaints_ofReadings, Segment.readings, flatMap_complaints_gather]
    exact h
  rw [List.append_eq_nil_iff, List.reverse_eq_nil_iff, List.flatMap_eq_nil_iff] at hcomplaints
  refine ⟨⟨closed_ofChars cs, ?_, ?_, hcomplaints.2, fun _ => ?_⟩, hcomplaints.1⟩
  · rw [tokens_ofChars]
    exact ordered_tokens cs
  · rw [tokens_ofChars]
    intro t ht
    rcases List.mem_append.1 ht with ht | ht
    · exact valid_of_complaints h (List.mem_filter.1 ht).1
    · simp [List.mem_singleton.1 ht, endOfInput]
  · rw [ofReadings_eq]
    cases Segment.readings TokenKind.isTrivia cs <;> rfl

end Cursor

end DeclFront
