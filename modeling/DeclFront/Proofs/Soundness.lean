import DeclFront.Proofs.Consumption
import DeclFront.Proofs.Passage

/-!
# What is parsed without a complaint is in the grammar

A parser **yields** a phrase (`YieldsAt`) if it raises something or the tokens it passes are the
phrase, with its result as the tree. No complaint can be muted on the way, since the parser starts
from a sound cursor: where it complains, something has been raised for good, and nothing is left to
show (`YieldsAt.unexpected`).

The parsers of the grammar are taken one by one, over types with fewer tokens left, and types by
induction on the number of tokens left.
-/

namespace DeclFront

open DeclFront.Parser DeclFront.Grammar

variable {α β : Type} {n : Nat} {c : Cursor} {p : Parser α} {Q : List Token → α → Prop}

/-! ## Yielding a phrase -/

/-- From a sound cursor, `p` raises something or passes tokens that are, with its result, as `Q`
says. -/
def YieldsAt (c : Cursor) (p : Parser α) (Q : List Token → α → Prop) : Prop :=
  c.Sound → c.Reaches (p c).2 ∧ ((p c).2.raised = [] → ∃ ts, c.Passes ts (p c).2 ∧ Q ts (p c).1)

namespace YieldsAt

theorem congr {q : Parser α} (h : p c = q c) (hq : YieldsAt c q Q) : YieldsAt c p Q := by
  unfold YieldsAt at *
  rwa [h]

theorem mono {R : List Token → α → Prop} (hp : YieldsAt c p Q)
    (h : ∀ ts, c.Passes ts (p c).2 → Q ts (p c).1 → R ts (p c).1) : YieldsAt c p R := by
  refine fun hc => ⟨(hp hc).1, fun hraised => ?_⟩
  obtain ⟨ts, hpass, hq⟩ := (hp hc).2 hraised
  exact ⟨ts, hpass, h ts hpass hq⟩

/-- The cursor may be taken to be sound. -/
theorem sound (h : c.Sound → YieldsAt c p Q) : YieldsAt c p Q := fun hc => h hc hc

theorem pure {a : α} (h : Q [] a) : YieldsAt c (pure a) Q :=
  fun _ => ⟨.refl c, fun _ => ⟨[], .refl c, h⟩⟩

/-- Where something has been raised, there is nothing to show. -/
theorem of_raised (h : c.raised ≠ []) (hp : Moves p) : YieldsAt c p Q :=
  fun hc => ⟨hp c hc.closed, fun hraised => absurd hraised ((hp c hc.closed).raised_ne_nil h)⟩

theorem of_moves (hp : Moves p) : YieldsAt c p fun _ _ => True := by
  refine fun hc => ⟨hp c hc.closed, fun _ => ?_⟩
  obtain ⟨ts, hpass⟩ := (hp c hc.closed).passes hc.closed
  exact ⟨ts, hpass, trivial⟩

theorem bind {k : α → Parser β} {R : List Token → β → Prop} (hp : YieldsAt c p Q)
    (hk : ∀ a d, c.Reaches d → YieldsAt d (k a) fun us b =>
      ∀ ts, c.Passes ts d → Q ts a → R (ts ++ us) b) : YieldsAt c (p >>= k) R := by
  intro hc
  obtain ⟨hr, hyield⟩ := hp hc
  obtain ⟨hr', hyield'⟩ := hk (p c).1 (p c).2 hr (hr.sound hc)
  refine ⟨hr.trans hr', fun hraised => ?_⟩
  obtain ⟨ts, hpass, hq⟩ := hyield (hr'.raised_eq_nil hraised)
  obtain ⟨us, hpass', hq'⟩ := hyield' hraised
  exact ⟨ts ++ us, hpass.trans hpass', hq' ts hpass hq⟩

/-- A parser that only looks. -/
theorem look {a : α} {k : α → Parser β} {R : List Token → β → Prop} (h : p c = (a, c))
    (hk : YieldsAt c (k a) R) : YieldsAt c (p >>= k) R := by
  refine congr ?_ hk
  rw [bind_apply, h]

theorem ite {b : Prop} [Decidable b] {q : Parser α} (hp : b → YieldsAt c p Q)
    (hq : ¬ b → YieldsAt c q Q) : YieldsAt c (if b then p else q) Q := by
  split
  · exact hp ‹_›
  · exact hq ‹_›

theorem map {f : α → β} {R : List Token → β → Prop} (hp : YieldsAt c p Q)
    (h : ∀ ts a, Q ts a → R ts (f a)) : YieldsAt c (f <$> p) R := by
  refine fun hc => ⟨(hp hc).1, fun hraised => ?_⟩
  obtain ⟨ts, hpass, hq⟩ := (hp hc).2 hraised
  exact ⟨ts, hpass, h ts _ hq⟩

theorem advance {k : Token → Parser β} {R : List Token → β → Prop}
    (hne : c.current.kind ≠ .endOfInput)
    (h : c.Passes [c.current] c.advance → YieldsAt c.advance (k c.current) fun us b =>
      R (c.current :: us) b) : YieldsAt c (Parser.advance >>= k) R := by
  intro hc
  have hpass := hc.closed.passes_advance hne
  obtain ⟨hr, hyield⟩ := h hpass hc.sound_advance
  refine ⟨Cursor.Step.advance.reaches.trans hr, fun hraised => ?_⟩
  obtain ⟨us, hpass', hq⟩ := hyield hraised
  exact ⟨c.current :: us, hpass.trans hpass', hq⟩

/-- Looking behind the current token. -/
theorem peekKind {k : TokenKind → Parser β} {R : List Token → β → Prop}
    (h : c.current.kind = .identifier ∨ c.current.kind = .leftBracket)
    (hk : YieldsAt c.peek.2 (k c.peek.1.kind) R) : YieldsAt c (Parser.peekKind >>= k) R := by
  intro hc
  obtain ⟨hr, hyield⟩ := hk hc.sound_peek
  refine ⟨(Cursor.Step.peek h).reaches.trans hr, fun hraised => ?_⟩
  obtain ⟨ts, hpass, hq⟩ := hyield hraised
  exact ⟨ts, (Cursor.passes_peek c).trans hpass, hq⟩

theorem eatThen {k : TokenKind} (hk : k ≠ .endOfInput) {f : Option Token → Parser β}
    {R : List Token → β → Prop}
    (hsome : c.current.kind = k → c.Passes [c.current] c.advance →
      YieldsAt c.advance (f (some c.current)) fun us b => R (c.current :: us) b)
    (hnone : c.current.kind ≠ k → YieldsAt c (f none) R) : YieldsAt c (eat k >>= f) R := by
  by_cases h : c.current.kind = k
  · refine congr ?_ (advance (k := fun t => f (some t)) (by rwa [h]) (hsome h))
    rw [bind_apply, eat_of_eq h]
    rfl
  · exact look (eat_of_ne h) (hnone h)

/-! ## Complaints -/

/-- A complaint about the current token is never muted. -/
theorem complain {code : DiagnosticCode} {expected : ExpectedKinds}
    (hcode : code.concern = .syntactic)
    (hinvalid : code = .unexpectedToken → c.current.kind ≠ .invalid) {k : Unit → Parser β}
    {R : List Token → β → Prop} (hk : Moves (k ())) :
    YieldsAt c (report (Cursor.complaint code expected c.current) >>= k) R := by
  intro hc
  have hs : c.Step (c.report (Cursor.complaint code expected c.current)) :=
    .complain hcode hinvalid
  obtain ⟨hr, hyield⟩ := of_raised (Q := R) (hc.raised_report _) hk (hs.sound hc)
  refine ⟨hs.reaches.trans hr, fun hraised => ?_⟩
  exact absurd hraised (hr.raised_ne_nil (hc.raised_report _))

theorem unexpected {ks : List TokenKind} {k : Unit → Parser β} {R : List Token → β → Prop}
    (hk : Moves (k ())) : YieldsAt c (Parser.unexpected ks >>= k) R := by
  intro hc
  have hvalid := hc.valid c.current List.mem_cons_self
  refine congr (q := report (Cursor.complaint .unexpectedToken (.ofList ks) c.current) >>= k) ?_
    (complain rfl (fun _ => hvalid) hk) hc
  rw [bind_apply, unexpected_of_valid hvalid]
  rfl

theorem missing {k' : TokenKind} {k : Unit → Parser β} {R : List Token → β → Prop}
    (hk : Moves (k ())) : YieldsAt c (Parser.missing k' >>= k) R :=
  complain (c := c) rfl (fun h => absurd h (by decide)) hk

theorem eatMark {k : TokenKind} (hk : k ≠ .endOfInput) :
    YieldsAt c (eat k) fun ts t => IsMark k ts t.isSome := by
  by_cases h : c.current.kind = k
  · intro hc
    rw [eat_of_eq h]
    exact ⟨Cursor.Step.advance.reaches, fun _ =>
      ⟨_, hc.closed.passes_advance (by rwa [h]), .present h⟩⟩
  · exact congr (eat_of_ne h) (pure .absent)

theorem expectThen {k : TokenKind} (hk : k ≠ .endOfInput) {f : Option Token → Parser β}
    {R : List Token → β → Prop}
    (hsome : c.current.kind = k → c.Passes [c.current] c.advance →
      YieldsAt c.advance (f (some c.current)) fun us b => R (c.current :: us) b)
    (hnone : Moves (f none)) : YieldsAt c (expect k >>= f) R := by
  by_cases h : c.current.kind = k
  · refine congr ?_ (advance (k := fun t => f (some t)) (by rwa [h]) (hsome h))
    rw [bind_apply, expect_of_eq h]
    rfl
  · refine congr (q := Parser.missing k >>= fun _ => f none) ?_ (missing hnone)
    rw [bind_apply, expect_of_ne h]
    rfl

/-! ## Lists -/

/-- The rounds of a list yield the list that `M` says, if its last round does, and every other one
does in front of the list of the rest. -/
theorem collect {round : Parser (Round α)} {Q : Cursor → List Token → Round α → Prop}
    {M : Cursor → List Token → List α → Prop}
    (hround : ∀ c, c.left < n → YieldsAt c round (Q c))
    (hproductive : ∀ c : Cursor, c.Closed → (round c).1.again = true →
      (round c).2.left < c.left)
    (hstop : ∀ c ts item, Q c ts ⟨item, false⟩ → M c ts item.toList)
    (hmore : ∀ c d e ts us item as, c.Passes ts d → d.Passes us e → Q c ts ⟨item, true⟩ →
      M d us as → M c (ts ++ us) (item.toList ++ as))
    (hn : c.left < n) : YieldsAt c (collect round) (M c) := by
  intro hc
  have hloop : c.Reaches (loop (collectRound round) [] c).2 ∧
      ((loop (collectRound round) [] c).2.raised = [] → ∃ ts as,
        c.Passes ts (loop (collectRound round) [] c).2 ∧ M c ts as ∧
          (loop (collectRound round) [] c).1 = as.reverse ++ []) := by
    refine (productive_collectRound hproductive).loop_induction
      (I := fun _ c => c.left < n ∧ c.Sound) (P := fun found c r => c.Reaches r.2 ∧
        (r.2.raised = [] → ∃ ts as, c.Passes ts r.2 ∧ M c ts as ∧ r.1 = as.reverse ++ found))
      (fun _ _ h => h.2.closed) ?_ ?_ ⟨hn, hc⟩
    · intro found c t ⟨hn, hc⟩ hdone
      obtain ⟨hr, hyield⟩ := hround c hn hc
      obtain ⟨hagain, rfl⟩ := collectRound_eq_done_iff.1 hdone
      refine ⟨hr, fun hraised => ?_⟩
      obtain ⟨ts, hpass, hq⟩ := hyield hraised
      refine ⟨ts, (round c).1.item.toList, hpass, hstop c ts _ (hagain ▸ hq), ?_⟩
      rw [reverse_toList]
    · intro found c t ⟨hn, hc⟩ ht hlt
      obtain ⟨hr, hyield⟩ := hround c hn hc
      obtain ⟨hagain, rfl⟩ := collectRound_eq_yield_iff.1 ht
      refine ⟨⟨Nat.lt_trans hlt hn, hr.sound hc⟩, fun r ⟨hr', hyield'⟩ =>
        ⟨hr.trans hr', fun hraised => ?_⟩⟩
      obtain ⟨us, as, hpass', hm, has⟩ := hyield' hraised
      obtain ⟨ts, hpass, hq⟩ := hyield (hr'.raised_eq_nil hraised)
      refine ⟨ts ++ us, (round c).1.item.toList ++ as, hpass.trans hpass',
        hmore c _ _ ts us _ as hpass hpass' (hagain ▸ hq) hm, ?_⟩
      rw [has, List.reverse_append, reverse_toList, List.append_assoc]
  obtain ⟨hr, hyield⟩ := hloop
  refine ⟨hr, fun hraised => ?_⟩
  obtain ⟨ts, as, hpass, hm, has⟩ := hyield hraised
  refine ⟨ts, hpass, ?_⟩
  show M c ts (loop (collectRound round) [] c).1.reverse
  rwa [has, List.append_nil, List.reverse_reverse]

end YieldsAt

/-! ## Names -/

theorem getLastD_segments {ts segments : List Token} (h : Segments ts segments) (t : Token) :
    segments.getLastD t = ts.getLastD t := by
  induction h generalizing t with
  | nil => rfl
  | cons _ _ _ ih =>
    rw [List.getLastD_cons, List.getLastD_cons, List.getLastD_cons]
    exact ih _

theorem lastStop_eq_getLastD (t : Token) (ts : List Token) :
    lastStop t.stop ts = (ts.getLastD t).stop := by
  induction ts generalizing t with
  | nil => rfl
  | cons u ts ih =>
    rw [List.getLastD_cons]
    exact ih u

theorem spanOf_eq {ts : List Token} (h : Ordered ts) : Path.spanOf ts = .ofTokens ts := by
  cases ts with
  | nil => rfl
  | cons t ts =>
    have hle : t.start ≤ (ts.getLastD t).start ∧ t.stop ≤ (ts.getLastD t).stop := by
      cases ts with
      | nil => exact ⟨Nat.le_refl _, Nat.le_refl _⟩
      | cons u us =>
        have hmem : (u :: us).getLastD t ∈ u :: us := by
          rw [List.getLastD_cons]
          exact List.getLastD_mem_cons
        have hstop := List.rel_of_pairwise_cons h hmem
        exact ⟨Nat.le_trans (Nat.le_add_right _ _) hstop,
          Nat.le_trans hstop (Nat.le_add_right _ _)⟩
    rw [Path.spanOf_cons, Span.ofTokens, lastStop_eq_getLastD]
    simp only [Span.merge, Token.span, Nat.min_eq_left hle.1, Nat.max_eq_right hle.2]

/-- The span of a path in a tree is the span of its tokens. -/
theorem ofSegments_eq {t : Token} {ts segments : List Token} (h : Segments ts segments)
    (hts : Ordered (t :: ts)) :
    Path.ofSegments (t :: segments) = ⟨t :: segments, .ofTokens (t :: ts)⟩ := by
  rw [Path.ofSegments, ← spanOf_eq hts, Path.spanOf_cons, Path.spanOf_cons, getLastD_segments h]

theorem yieldsAt_furtherSegment : YieldsAt c furtherSegment fun ts r =>
    ts = [] ∧ r = .stop ∨ ∃ sep t, (sep.kind = .dot ∨ sep.kind = .colonColon) ∧
      t.kind = .identifier ∧ ts = [sep, t] ∧ r = .more t := by
  refine .look (check_apply _ _) (.look (check_apply _ _) (.ite (fun hk => ?_) fun _ => ?_))
  · have hk : c.current.kind = .dot ∨ c.current.kind = .colonColon := by simpa using hk
    refine .advance (by rcases hk with hk | hk <;> simp [hk]) fun _ => ?_
    refine .eatThen (by decide) (fun hident _ => ?_) fun _ => .unexpected (.pure _)
    exact .pure (.inr ⟨_, _, hk, hident, rfl, rfl⟩)
  · exact .pure (.inl ⟨rfl, rfl⟩)

theorem yieldsAt_path : YieldsAt c path IsPath := by
  refine .sound fun hc => .eatThen (by decide) (fun hk hpass => ?_) fun _ => ?_
  · refine .bind (.collect (M := fun _ => Segments) (fun _ _ => yieldsAt_furtherSegment)
      (fun _ => left_furtherSegment_lt) ?_ ?_ (Nat.lt_succ_self _)) fun segments d _ => .pure ?_
    · rintro _ ts item (⟨rfl, ⟨⟩⟩ | ⟨_, _, _, _, _, ⟨⟩⟩)
      exact .nil
    · rintro _ _ _ ts us item as - - (⟨_, ⟨⟩⟩ | ⟨sep, t, hsep, ht, rfl, ⟨⟩⟩) hrest
      exact .cons hsep ht hrest
    · intro ts hpass' hsegments
      rw [List.append_nil, ofSegments_eq hsegments ((hpass.trans hpass').ordered hc)]
      exact .mk hk hsegments
  · exact .unexpected fun c _ => .refl c

/-! ## Lists in brackets -/

theorem yieldsAt_commaAndMore : YieldsAt c commaAndMore fun ts again =>
    ts = [] ∧ again = false ∨ ∃ t, t.kind = .comma ∧ ts = [t] := by
  refine .eatThen (by decide) (fun hk _ => ?_) fun _ => .pure (.inl ⟨rfl, rfl⟩)
  exact .look (check_apply _ _) (.pure (.inr ⟨_, hk, rfl⟩))

/-- What a round of a list in brackets yields: an item, and a comma where another one follows. -/
def ItemRound (item : Phrase α) (ts : List Token) (r : Round α) : Prop :=
  ∃ us a, item us a ∧ r.item = some a ∧
    (ts = us ∧ r.again = false ∨ ∃ comma, comma.kind = .comma ∧ ts = us ++ [comma])

theorem yieldsAt_commaList {round : Parser (Round α)} {item : Phrase α}
    (hround : ∀ c, c.left < n → YieldsAt c round (ItemRound item))
    (hproductive : ∀ c : Cursor, c.Closed → (round c).1.again = true →
      (round c).2.left < c.left) (hn : c.left < n) :
    YieldsAt c (collect round) (CommaList item) := by
  refine .collect (Q := fun _ => ItemRound item) (M := fun _ => CommaList item) hround
    hproductive ?_ ?_ hn
  · rintro _ ts _ ⟨us, a, h, rfl, ⟨rfl, _⟩ | ⟨comma, hcomma, rfl⟩⟩
    · exact .one h
    · exact .trailing h hcomma
  · rintro _ _ _ ts vs _ as - - ⟨us, a, h, rfl, ⟨_, hr⟩ | ⟨comma, hcomma, rfl⟩⟩ hrest
    · simp at hr
    · simpa using CommaList.cons h hcomma hrest

theorem yieldsAt_closeBracket :
    YieldsAt c closeBracket fun ts _ => ∃ t, t.kind = .rightBracket ∧ ts = [t] := by
  refine .eatThen (by decide) (fun hk _ => .pure ⟨_, hk, rfl⟩) fun _ => .unexpected ?_
  exact .bind (moves_synchronize .bracketStop) fun _ => .bind (moves_eat _) fun _ => .pure ()

theorem yieldsAt_bracketed {empty : DiagnosticCode} (hempty : Cursor.IsEmptyList empty)
    {round : Parser (Round α)} {item : Phrase α} (hk : c.current.kind = .leftBracket)
    (hround : ∀ d, d.left < c.left → YieldsAt d round (ItemRound item))
    (hproductive : ∀ c : Cursor, c.Closed → (round c).1.again = true →
      (round c).2.left < c.left) :
    YieldsAt c (bracketed empty round) fun ts r =>
      Bracketed item ts r.1 ∧ r.2 = .ofTokens ts := by
  intro hc
  have hne : c.current.kind ≠ .endOfInput := by simp [hk]
  have hpass := hc.closed.passes_advance hne
  by_cases hclose : c.advance.current.kind = .rightBracket
  · have hs : c.Step (c.skipEmpty empty) := .skipEmpty hempty hclose
    rw [bracketed_of_empty hclose]
    exact ⟨hs.reaches, fun h => absurd h (hc.sound_advance.sound_advance.raised_report _)⟩
  · rw [bracketed_of_ne hclose]
    have hlt := hc.closed.left_advance_lt hne
    have hrest : YieldsAt c.advance
        (do
          let items ← collect round
          closeBracket
          return (items, ⟨c.current.start, ← consumedTo⟩))
        (fun ts (r : List α × Span) => Bracketed item (c.current :: ts) r.1 ∧
          r.2 = .ofTokens (c.current :: ts)) := by
      refine .bind (yieldsAt_commaList hround hproductive hlt) fun items d _ => ?_
      refine .bind yieldsAt_closeBracket fun _ e _ => .look (consumedTo_apply _) (.pure ?_)
      rintro us hpass₂ ⟨t, ht, rfl⟩ ts hpass₁ hitems
      have hall := (hpass.trans hpass₁).trans hpass₂
      rw [List.append_nil]
      refine ⟨.mk hk hitems ht, ?_⟩
      rw [← List.cons_append, ← List.singleton_append (l := ts), hall.span_eq (by simp)]
    obtain ⟨hr, hyield⟩ := hrest hc.sound_advance
    refine ⟨Cursor.Step.advance.reaches.trans hr, fun hraised => ?_⟩
    obtain ⟨ts, hpass', hq⟩ := hyield hraised
    exact ⟨c.current :: ts, hpass.trans hpass', hq⟩

theorem yieldsAt_genericParam : YieldsAt c genericParam (ItemRound IsIdentifier) := by
  refine .eatThen (by decide) (fun hk _ => ?_) fun _ => .unexpected (.pure _)
  refine .bind yieldsAt_commaAndMore fun again d _ => .pure ?_
  rintro ts - (⟨rfl, rfl⟩ | ⟨t, ht, rfl⟩)
  · exact ⟨_, _, .mk hk, rfl, .inl ⟨rfl, rfl⟩⟩
  · exact ⟨_, _, .mk hk, rfl, .inr ⟨t, ht, rfl⟩⟩

theorem yieldsAt_genericParams (hk : c.current.kind = .leftBracket) :
    YieldsAt c genericParams IsGenericParams := by
  refine .bind (yieldsAt_bracketed (.inl rfl) hk (fun _ _ => yieldsAt_genericParam)
    fun _ => left_genericParam_lt) fun r d _ => .pure ?_
  rintro ts - ⟨hitems, hspan⟩
  obtain ⟨params, span⟩ := r
  obtain rfl : span = .ofTokens ts := hspan
  rw [List.append_nil]
  exact .mk hitems

/-! ## Function types -/

theorem yieldsAt_paramName : YieldsAt c paramName IsParamName := by
  refine .look (check_apply _ _) (.ite (fun hk => ?_) fun _ => .pure .absent)
  have hk : c.current.kind = .identifier := by simpa using hk
  refine .peekKind (.inl hk) (.ite (fun hcolon => ?_) fun _ => .pure .absent)
  have hcolon : c.peek.1.kind = .colon := by simpa using hcolon
  refine .advance (by simp [hk]) fun _ => .advance ?_ fun _ => .pure ?_
  · simp [Cursor.current_advance_peek, hcolon]
  · rw [Cursor.current_advance_peek, Cursor.current_peek]
    exact .present hk hcolon

section

variable (ht : ∀ d : Cursor, d.left < n → YieldsAt d type IsType)

include ht

theorem yieldsAt_param (hn : c.left < n) : YieldsAt c (param type) (IsParam IsType) := by
  refine .sound fun hc => .look (current_apply _) ?_
  refine .bind yieldsAt_paramName fun name d hr => ?_
  refine .bind (ht d (Nat.lt_of_le_of_lt hr.left_le hn)) fun t e _ => ?_
  refine .look (consumedTo_apply _) (.pure ?_)
  intro us hpass₂ htype ts hpass₁ hname
  have hall := hpass₁.trans hpass₂
  have hle : t.span.stop ≤ e.consumedTo :=
    htype.span_eq ▸ hall.stop_le hc (List.suffix_append ts us).isInfix htype.ne_nil
  rw [List.append_nil, Nat.max_eq_left hle, ← hall.span_eq (by simp [htype.ne_nil])]
  exact .mk hname htype

theorem yieldsAt_furtherParam (hn : c.left < n) : YieldsAt c (furtherParam type) fun ts r =>
    ts = [] ∧ r = .stop ∨ ItemRound (IsParam IsType) ts r := by
  refine .look (check_apply _ _) (.look (isAtEnd_apply _) (.ite (fun _ => ?_) fun _ => ?_))
  · exact .pure (.inl ⟨rfl, rfl⟩)
  · refine .bind (yieldsAt_param ht hn) fun p d _ => ?_
    refine .eatThen (by decide) (fun hk _ => .pure ?_) fun _ => .pure ?_
    · exact fun ts _ hp => .inr ⟨ts, p, hp, rfl, .inr ⟨_, hk, rfl⟩⟩
    · exact fun ts _ hp => .inr ⟨ts, p, hp, rfl, .inl ⟨List.append_nil ts, rfl⟩⟩

theorem yieldsAt_params (hn : c.left < n) :
    YieldsAt c (params type) fun ts found => ∃ us close, IsParams IsType us found ∧
      close.kind = .rightParen ∧ ts = us ++ [close] := by
  have hlist : YieldsAt c (collect (furtherParam type)) (IsParams IsType) := by
    refine .collect (M := fun _ => IsParams IsType) (fun c hn => yieldsAt_furtherParam ht hn)
      (fun _ => left_furtherParam_lt) ?_ ?_ hn
    · rintro _ ts _ (⟨rfl, ⟨⟩⟩ | ⟨us, p, hp, rfl, ⟨rfl, _⟩ | ⟨comma, hcomma, rfl⟩⟩)
      · exact .none
      · exact .some (.one hp)
      · exact .some (.trailing hp hcomma)
    · rintro _ _ _ ts vs _ as - -
        (⟨rfl, ⟨⟩⟩ | ⟨us, p, hp, rfl, ⟨_, hr⟩ | ⟨comma, hcomma, rfl⟩⟩) hrest
      · simp at hr
      · cases hrest with
        | none => simpa using IsParams.some (.trailing hp hcomma)
        | some hrest => simpa using IsParams.some (.cons hp hcomma hrest)
  refine .bind hlist fun found d _ => ?_
  refine .eatThen (by decide) (fun hk _ => .pure ?_) fun _ => .unexpected ?_
  · exact fun ts _ hparams => ⟨ts, _, hparams, hk, rfl⟩
  · exact .bind (moves_synchronize .parenStop) fun _ => .bind (moves_eat _) fun _ => .pure _

theorem yieldsAt_result (hn : c.left < n) : YieldsAt c (result type) fun ts t =>
    ∃ arrow us, arrow.kind = .arrow ∧ IsType us t ∧ ts = arrow :: us := by
  refine .eatThen (by decide) (fun hk hpass => ?_) fun _ => .missing fun c _ => .refl c
  refine (ht c.advance ?_).mono fun ts _ htype => ⟨_, ts, hk, htype, rfl⟩
  exact Nat.lt_of_le_of_lt Cursor.Step.advance.left_le hn

theorem yieldsAt_function (hn : c.left < n + 1) :
    YieldsAt c (function type) (IsFunction IsType) := by
  refine .sound fun hc => .look (current_apply _) ?_
  have hresult : Moves (result type) :=
    moves_of_carries fun n =>
      (Translation.Carries.result Translation.carries_type).mono (Nat.le_succ n)
  refine .bind (.eatMark (by decide)) fun async d hr => ?_
  refine .expectThen (by decide) (fun hparen hpass => ?_) ?_
  · have hlt := hpass.left_eq
    have hle := hr.left_le
    simp only [List.length_singleton] at hlt
    refine .bind (yieldsAt_params ht (by omega)) fun found e hr' => ?_
    have hle' := hr'.left_le
    refine .bind (yieldsAt_result ht (by omega)) fun t g _ => ?_
    refine .look (consumedTo_apply _) (.pure ?_)
    rintro _ hpass₃ ⟨arrow, vs, harrow, htype, rfl⟩ _ hpass₂ ⟨us, close, hparams, hclose, rfl⟩ ts
      hpass₁ hasync
    have hall := ((hpass₁.trans hpass).trans hpass₂).trans hpass₃
    have hts : ts ++ [d.current] ++ (us ++ [close]) ++ arrow :: vs =
        ts ++ d.current :: us ++ close :: arrow :: vs := by simp
    rw [hts] at hall
    have hle : t.span.stop ≤ g.consumedTo := by
      refine htype.span_eq ▸ hall.stop_le hc ?_ htype.ne_nil
      exact ⟨ts ++ d.current :: us ++ [close, arrow], [], by simp⟩
    rw [Nat.max_eq_left hle, ← hall.span_eq (by simp)]
    simpa using IsFunction.mk hasync hparen hparams hclose harrow htype
  · exact .bind (.pure []) fun _ => .bind hresult fun t c _ => .refl c

end

/-! ## Bodies in braces -/

theorem yieldsAt_skipSet {s : KindSet} (hs : s.contains .endOfInput = false) :
    YieldsAt c (skipSet s) fun ts _ => ∀ t ∈ ts, s.contains t.kind = true := by
  intro hc
  refine (productive_skipRound hs).loop_induction (I := fun _ c => c.Sound)
    (P := fun _ c r => c.Reaches r.2 ∧ (r.2.raised = [] →
      ∃ ts, c.Passes ts r.2 ∧ ∀ t ∈ ts, s.contains t.kind = true))
    (fun _ _ hc => hc.closed) ?_ ?_ hc
  · intro u c t _ hdone
    rw [(skipRound_of_done hdone).2]
    exact ⟨.refl c, fun _ => ⟨[], .refl c, by simp⟩⟩
  · intro u c t hc hyield _
    obtain ⟨hk, hround⟩ := skipRound_of_yield hyield
    have hne : c.current.kind ≠ .endOfInput := fun h => by simp [h, hs] at hk
    rw [hround]
    refine ⟨hc.sound_advance, fun r ⟨hr, hrest⟩ =>
      ⟨Cursor.Step.advance.reaches.trans hr, fun hraised => ?_⟩⟩
    obtain ⟨ts, hpass, hts⟩ := hrest hraised
    refine ⟨c.current :: ts, (hc.closed.passes_advance hne).trans hpass, fun t ht => ?_⟩
    rcases List.mem_cons.1 ht with rfl | ht
    · exact hk
    · exact hts t ht

theorem isSeparator_iff {t : Token} : KindSet.separator.contains t.kind = true ↔ IsSeparator t := by
  simp [KindSet.separator, KindSet.ofList, IsSeparator]

/-- What cannot be told from the end of a member does not begin one. -/
def Begins (item : Phrase α) : Prop :=
  ∀ ts a, item ts a → ∃ t us, ts = t :: us ∧ KindSet.memberStop.contains t.kind = false ∧
    t.kind ≠ .endOfInput

theorem Begins.ne_nil {item : Phrase α} (h : Begins item) {ts : List Token} {a : α}
    (ha : item ts a) : ts ≠ [] := by
  obtain ⟨_, _, rfl, -⟩ := h ts a ha
  simp

theorem memberStop_of_separator {t : Token} (h : IsSeparator t) :
    KindSet.memberStop.contains t.kind = true := by
  simp [KindSet.memberStop, KindSet.insert, isSeparator_iff.2 h]

/-- The members behind a separator. -/
theorem members_behind {item : Phrase α} (hitem : Begins item) {t : Token} {ts : List Token}
    {as : List α} (h : Members item (t :: ts) as) (ht : IsSeparator t) : Members item ts as := by
  generalize hus : t :: ts = us at h
  have hmember {us : List Token} {a : α} (h : item us a) (vs : List Token) :
      t :: ts ≠ us ++ vs := by
    obtain ⟨u, us, rfl, hstop, -⟩ := hitem _ _ h
    intro heq
    rw [← (List.cons.inj heq).1, memberStop_of_separator ht] at hstop
    exact absurd hstop (by decide)
  cases h with
  | nil hseps =>
    subst hus
    exact .nil fun u hu => hseps u (List.mem_cons_of_mem t hu)
  | @last seps us a hseps h =>
    cases seps with
    | nil => exact absurd hus (by simpa using hmember h [])
    | cons s seps =>
      obtain ⟨rfl, rfl⟩ := List.cons.inj hus
      exact .last (fun u hu => hseps u (List.mem_cons_of_mem _ hu)) h
  | @cons seps us rest a as sep hseps h hsep hrest =>
    cases seps with
    | nil => exact absurd hus (by simpa using hmember h (sep :: rest))
    | cons s seps =>
      obtain ⟨rfl, rfl⟩ := List.cons.inj hus
      exact .cons (fun u hu => hseps u (List.mem_cons_of_mem _ hu)) h hsep hrest

/-- Members begin with a separator or a member. -/
theorem members_begin {item : Phrase α} (hitem : Begins item) {t : Token} {ts : List Token}
    {as : List α} (h : Members item (t :: ts) as) : IsSeparator t ∨
      KindSet.memberStop.contains t.kind = false ∧ t.kind ≠ .endOfInput := by
  generalize hus : t :: ts = us at h
  have hall {seps us : List Token} {a : α} (hseps : ∀ t ∈ seps, IsSeparator t) (h : item us a)
      (vs : List Token) (heq : t :: ts = seps ++ us ++ vs) : IsSeparator t ∨
        KindSet.memberStop.contains t.kind = false ∧ t.kind ≠ .endOfInput := by
    cases seps with
    | cons s seps =>
      obtain ⟨rfl, -⟩ := List.cons.inj heq
      exact .inl (hseps _ List.mem_cons_self)
    | nil =>
      obtain ⟨u, us, rfl, hstop⟩ := hitem _ _ h
      obtain ⟨rfl, -⟩ := List.cons.inj heq
      exact .inr hstop
  cases h with
  | nil hseps =>
    subst hus
    exact .inl (hseps t List.mem_cons_self)
  | last hseps h => exact hall hseps h [] (by simpa using hus)
  | cons hseps h => exact hall hseps h _ hus

theorem members_nil {item : Phrase α} (hitem : Begins item) {as : List α}
    (h : Members item [] as) : as = [] := by
  generalize hts : [] = ts at h
  cases h with
  | nil => rfl
  | last _ h =>
    obtain ⟨_, _, rfl, -⟩ := hitem _ _ h
    simp at hts
  | cons => simp at hts

theorem moves_closeMember (found : Bool) : Moves (closeMember found) :=
  moves_of_carries fun _ => Translation.carries_closeMember found

theorem yieldsAt_closeMember : YieldsAt c (closeMember true) fun ts _ =>
    ts = [] ∧ (KindSet.memberStop.contains c.current.kind = true ∨
      c.current.kind = .endOfInput) := by
  refine .look (checkSet_apply _ _) (.look (isAtEnd_apply _) (.ite (fun hstop => ?_) fun _ => ?_))
  · exact .pure ⟨rfl, by simpa using hstop⟩
  · exact .unexpected moves_recoverMember

/-- What a round of a body yields: its end, or a member with the separators in front of it, where
the token behind it ends it. -/
def MemberRound (item : Phrase α) (c : Cursor) (ts : List Token) (r : Round α) : Prop :=
  ∃ seps us, (∀ t ∈ seps, IsSeparator t) ∧ ts = seps ++ us ∧
    ((∃ close, close.kind = .rightBrace ∧ us = [close] ∧ r = .stop) ∨
      ∃ a t rest, item us a ∧ r = ⟨some a, true⟩ ∧ c.tokens = ts ++ t :: rest ∧
        (KindSet.memberStop.contains t.kind = true ∨ t.kind = .endOfInput))

section

variable {member : Parser (Option α)} {item : Phrase α}

variable (hmember : ∀ c : Cursor, c.left < n →
  YieldsAt c member fun ts r => ∃ a, r = some a ∧ item ts a)

include hmember

theorem yieldsAt_furtherMember (hn : c.left < n) :
    YieldsAt c (furtherMember member) (MemberRound item c) := by
  refine .bind (yieldsAt_skipSet rfl) fun _ d hr => ?_
  refine .eatThen (by decide) (fun hk _ => .pure ?_) fun _ => ?_
  · rintro seps - hseps
    exact ⟨seps, _, fun t ht => isSeparator_iff.1 (hseps t ht), rfl, .inl ⟨_, hk, rfl, rfl⟩⟩
  refine .look (isAtEnd_apply _) (.ite (fun _ => .missing (.pure _)) fun _ => ?_)
  refine .bind (hmember d (Nat.lt_of_le_of_lt hr.left_le hn)) fun r e _ => ?_
  cases r with
  | none =>
    refine .bind (.of_moves (moves_closeMember false)) fun _ g _ => .pure ?_
    rintro _ - - _ - ⟨a, ha, -⟩
    exact absurd ha (by simp)
  | some a =>
    refine .bind yieldsAt_closeMember fun _ g _ => .pure ?_
    rintro _ - ⟨rfl, hstop⟩ ts hpass₂ ⟨_, ha, hitem⟩ seps hpass₁ hseps
    obtain rfl := Option.some.inj ha
    refine ⟨seps, ts, fun t ht => isSeparator_iff.1 (hseps t ht), by simp, .inr ?_⟩
    refine ⟨a, e.current, e.ahead.map (·.answer.value), hitem, rfl, ?_, hstop⟩
    simp only [List.append_nil]
    exact (hpass₁.trans hpass₂).tokens

/-- The members of a body with the brace behind them. -/
theorem yieldsAt_members (hitem : Begins item) (hmoves : Moves member) (hn : c.left < n) :
    YieldsAt c (collect (furtherMember member)) fun ts as => ∃ us close,
      Members item us as ∧ close.kind = .rightBrace ∧ ts = us ++ [close] := by
  refine .collect (Q := MemberRound item) (M := fun _ ts as => ∃ us close, Members item us as ∧
    close.kind = .rightBrace ∧ ts = us ++ [close])
    (fun c hn => yieldsAt_furtherMember hmember hn)
    (fun _ => left_furtherMember_lt hmoves) ?_ ?_ hn
  · rintro _ _ _ ⟨seps, _, hseps, rfl, ⟨close, hclose, rfl, ⟨⟩⟩ | ⟨_, _, _, _, ⟨⟩, _⟩⟩
    exact ⟨seps, close, .nil hseps, hclose, rfl⟩
  · rintro c d e _ _ _ as hpass hpass' ⟨seps, ts, hseps, rfl, ⟨_, _, _, ⟨⟩⟩ |
      ⟨a, t, rest, ha, ⟨⟩, htokens, hstop⟩⟩ ⟨us, close, hrest, hclose, rfl⟩
    refine ⟨seps ++ ts ++ us, close, ?_, hclose, by simp⟩
    have hnext : t :: rest = us ++ close :: e.tokens := by
      have := htokens.symm.trans (hpass.trans hpass').tokens
      simpa [List.append_assoc] using this
    cases us with
    | nil =>
      obtain rfl := members_nil hitem hrest
      simpa using Members.last hseps ha
    | cons u us =>
      obtain ⟨rfl, -⟩ := List.cons.inj hnext
      refine .cons hseps ha ?_ (members_behind hitem hrest ?_) <;>
        rcases members_begin hitem hrest with hsep | ⟨hne, hend⟩
      · exact hsep
      · simp [hne, hend] at hstop
      · exact hsep
      · simp [hne, hend] at hstop

theorem yieldsAt_braced {k : TokenKind} (hk : c.current.kind = k) (hne : k ≠ .endOfInput)
    (hitem : Begins item) (hmoves : Moves member) (hn : c.left < n + 1) :
    YieldsAt c (braced member) fun ts r => Braced k item ts r.1 ∧ r.2 = .ofTokens ts := by
  refine .advance (by rwa [hk]) fun hpass => ?_
  have hlt := hpass.left_eq
  simp only [List.length_singleton] at hlt
  refine .bind (yieldsAt_members hmember hitem hmoves (by omega)) fun as d _ => ?_
  refine .look (consumedTo_apply _) (.pure ?_)
  rintro _ hpass' ⟨us, close, hmembers, hclose, rfl⟩
  have hall := hpass.trans hpass'
  rw [List.append_nil, ← hall.span_eq (by simp)]
  exact ⟨.mk hk hmembers hclose, rfl⟩

end

/-! ## Members -/

theorem yieldsAt_memberName : YieldsAt c memberName fun ts name => ∃ t, t.kind = .identifier ∧
    ts = [t] ∧ name = some t := by
  refine .eatThen (by decide) (fun hk _ => .pure ⟨_, hk, rfl, rfl⟩) fun _ => ?_
  exact .unexpected (.pure _)

theorem yieldsAt_memberColon {next : KindSet} : YieldsAt c (memberColon next) fun ts go =>
    ∃ t, t.kind = .colon ∧ ts = [t] ∧ go = true := by
  refine .eatThen (by decide) (fun hk _ => .pure ⟨_, hk, rfl, rfl⟩) fun _ => ?_
  refine .look (checkSet_apply _ _) (.ite (fun _ => ?_) fun _ => ?_)
  · exact .missing (.pure _)
  · exact .unexpected (.pure _)

/-- What stands behind an equals sign, if there is one. -/
def Assigned.token? : Assigned → Option Token
  | .value t => some t
  | _ => none

theorem yieldsAt_assigned {ks : List TokenKind} (hks : .endOfInput ∉ ks) :
    YieldsAt c (assigned ks) fun ts value =>
      value ≠ .malformed ∧ Optional (IsAssigned ks) ts (Assigned.token? value) := by
  refine .eatThen (by decide) (fun hk hpass => ?_) fun _ => .pure ⟨by simp, .absent⟩
  refine .look (checkSet_apply _ _) (.ite (fun hvalue => ?_) fun _ => .unexpected (.pure _))
  have hvalue : c.advance.current.kind ∈ ks := by simpa [KindSet.ofList] using hvalue
  refine .advance (fun hend => hks (hend ▸ hvalue)) fun _ => .pure ?_
  exact ⟨by simp, .present (.mk hk hvalue)⟩

theorem begins_of_identifier {item : Phrase α}
    (h : ∀ ts a, item ts a → ∃ t us, ts = t :: us ∧ t.kind = .identifier) : Begins item := by
  intro ts a ha
  obtain ⟨t, us, rfl, ht⟩ := h ts a ha
  exact ⟨t, us, rfl, ht ▸ rfl, by simp [ht]⟩

theorem begins_method {type : Phrase TypeExpr} : Begins (IsMethod type) :=
  begins_of_identifier fun
    | _, _, .mk hname _ _ => ⟨_, _, rfl, hname⟩

theorem begins_variant {type : Phrase TypeExpr} : Begins (IsVariant type) :=
  begins_of_identifier fun
    | _, _, .mk htag _ _ => ⟨_, _, rfl, htag⟩

theorem begins_field {type : Phrase TypeExpr} : Begins (IsRecordField type) :=
  begins_of_identifier fun
    | _, _, .mk hname _ _ _ => ⟨_, _, rfl, hname⟩

theorem begins_type : Begins IsType := by
  intro ts t h
  obtain ⟨u, us, rfl, hu⟩ := h.begins
  refine ⟨u, us, rfl, ?_⟩
  generalize u.kind = k at hu
  revert hu
  cases k <;> decide

section

variable (ht : ∀ d : Cursor, d.left < n → YieldsAt d type IsType)

include ht

theorem yieldsAt_method (hn : c.left < n) : YieldsAt c (method type) fun ts r =>
    ∃ m, r = some m ∧ IsMethod IsType ts m := by
  refine .sound fun hc => .bind yieldsAt_memberName fun name d hr => ?_
  cases name with
  | none =>
    refine .pure ?_
    rintro _ - ⟨_, _, _, h⟩
    exact absurd h (by simp)
  | some name =>
    refine .bind yieldsAt_memberColon fun go e hr' => .ite (fun hgo => .pure ?_) fun _ => ?_
    · rintro _ - ⟨_, _, _, rfl⟩
      exact absurd hgo (by decide)
    refine .look (checkSet_apply _ _) (.ite (fun _ => ?_) fun _ => .unexpected (.pure _))
    have hle := hr.left_le
    have hle' := hr'.left_le
    refine .bind (yieldsAt_function ht (by omega)) fun signature g _ => .pure ?_
    rintro ts hpass₃ hfunction _ hpass₂ ⟨colon, hcolon, rfl, -⟩ _ hpass₁ ⟨_, hname, rfl, ⟨⟩⟩
    have hordered := ((hpass₁.trans hpass₂).trans hpass₃).ordered hc
    rw [hfunction.span_eq, merge_ofTokens hordered hfunction.ne_nil, List.append_nil]
    exact ⟨_, rfl, .mk hname hcolon hfunction⟩

theorem yieldsAt_payload (hn : c.left < n) :
    YieldsAt c (payload type) (Optional (IsPayload IsType)) := by
  refine .eatThen (by decide) (fun hparen hpass => ?_) fun _ => .pure .absent
  have hlt := hpass.left_eq
  simp only [List.length_singleton] at hlt
  refine .bind (ht _ (by omega)) fun t d _ => ?_
  refine .eatThen (by decide) (fun hclose _ => .pure ?_) fun _ => .unexpected ?_
  · exact fun ts _ htype => .present (.mk hparen htype hclose)
  · exact .bind (moves_synchronize .payloadStop) fun _ => .bind (moves_eat _) fun _ => .pure _

theorem yieldsAt_variant (hn : c.left < n) : YieldsAt c (variant type) fun ts r =>
    ∃ v, r = some v ∧ IsVariant IsType ts v := by
  refine .bind yieldsAt_memberName fun tag d hr => ?_
  cases tag with
  | none =>
    refine .pure ?_
    rintro _ - ⟨_, _, _, h⟩
    exact absurd h (by simp)
  | some tag =>
    have hle := hr.left_le
    refine .bind (yieldsAt_payload ht (by omega)) fun content e _ => ?_
    refine .bind (yieldsAt_assigned (by decide)) fun value g _ => ?_
    have hend {us vs : List Token} {v : Option Token} (hpass₁ : c.Passes [tag] d)
        (htag : tag.kind = .identifier) (hpass₂ : d.Passes us e)
        (hcontent : Optional (IsPayload IsType) us content) (hpass₃ : e.Passes vs g)
        (hv : Optional (IsAssigned [.integer]) vs v) :
        IsVariant IsType ([tag] ++ (us ++ (vs ++ [])))
          ⟨tag, content, v, ⟨tag.start, g.consumedTo⟩⟩ := by
      have hall := (hpass₁.trans hpass₂).trans hpass₃
      have hstart : c.current = tag := (List.cons.inj hall.tokens).1
      rw [← hstart, ← hall.span_eq (by simp), hstart, List.append_nil]
      exact @IsVariant.mk IsType tag us vs content v htag hcontent hv
    cases value with
    | malformed =>
      refine .pure ?_
      rintro _ - ⟨h, -⟩
      exact absurd rfl h
    | nothing =>
      refine .look (consumedTo_apply _) (.pure ?_)
      rintro vs hpass₃ ⟨-, hv⟩ us hpass₂ hcontent _ hpass₁ ⟨_, htag, rfl, ⟨⟩⟩
      exact ⟨_, rfl, hend hpass₁ htag hpass₂ hcontent hpass₃ hv⟩
    | value t =>
      refine .look (consumedTo_apply _) (.pure ?_)
      rintro vs hpass₃ ⟨-, hv⟩ us hpass₂ hcontent _ hpass₁ ⟨_, htag, rfl, ⟨⟩⟩
      exact ⟨_, rfl, hend hpass₁ htag hpass₂ hcontent hpass₃ hv⟩

theorem yieldsAt_field (hn : c.left < n) : YieldsAt c (field type) fun ts r =>
    ∃ f, r = some f ∧ IsRecordField IsType ts f := by
  refine .sound fun hc => .bind yieldsAt_memberName fun name d hr => ?_
  cases name with
  | none =>
    refine .pure ?_
    rintro _ - ⟨_, _, _, h⟩
    exact absurd h (by simp)
  | some name =>
    refine .bind yieldsAt_memberColon fun go e hr' => .ite (fun hgo => .pure ?_) fun _ => ?_
    · rintro _ - ⟨_, _, _, rfl⟩
      exact absurd hgo (by decide)
    have hle := hr.left_le
    have hle' := hr'.left_le
    refine .bind (ht e (by omega)) fun t f _ => ?_
    refine .bind (yieldsAt_assigned (by decide)) fun value g _ => ?_
    have hend {us vs : List Token} {colon : Token} {v : Option Token} (hpass₁ : c.Passes [name] d)
        (hname : name.kind = .identifier) (hpass₂ : d.Passes [colon] e)
        (hcolon : colon.kind = .colon) (hpass₃ : e.Passes us f) (htype : IsType us t)
        (hpass₄ : f.Passes vs g) (hv : Optional (IsAssigned literals) vs v) :
        IsRecordField IsType ([name] ++ ([colon] ++ (us ++ (vs ++ []))))
          ⟨name, t, v, ⟨name.start, max g.consumedTo t.span.stop⟩⟩ := by
      have hall := ((hpass₁.trans hpass₂).trans hpass₃).trans hpass₄
      have hstart : c.current = name := (List.cons.inj hall.tokens).1
      have hle : t.span.stop ≤ g.consumedTo :=
        htype.span_eq ▸ hall.stop_le hc ⟨[name, colon], vs, rfl⟩ htype.ne_nil
      rw [Nat.max_eq_left hle, ← hstart, ← hall.span_eq (by simp), hstart, List.append_nil]
      exact @IsRecordField.mk IsType name colon us vs t v hname hcolon htype hv
    cases value with
    | malformed =>
      refine .pure ?_
      rintro _ - ⟨h, -⟩
      exact absurd rfl h
    | nothing =>
      refine .look (consumedTo_apply _) (.pure ?_)
      rintro vs hpass₄ ⟨-, hv⟩ us hpass₃ htype _ hpass₂ ⟨colon, hcolon, rfl, -⟩ _ hpass₁
        ⟨_, hname, rfl, ⟨⟩⟩
      exact ⟨_, rfl, hend hpass₁ hname hpass₂ hcolon hpass₃ htype hpass₄ hv⟩
    | value v =>
      refine .look (consumedTo_apply _) (.pure ?_)
      rintro vs hpass₄ ⟨-, hv⟩ us hpass₃ htype _ hpass₂ ⟨colon, hcolon, rfl, -⟩ _ hpass₁
        ⟨_, hname, rfl, ⟨⟩⟩
      exact ⟨_, rfl, hend hpass₁ hname hpass₂ hcolon hpass₃ htype hpass₄ hv⟩

/-! ## Types -/

theorem yieldsAt_genericArg (hn : c.left < n) :
    YieldsAt c (genericArg type) (ItemRound IsType) := by
  refine .bind (ht c hn) fun t d _ => .bind yieldsAt_commaAndMore fun again e _ => .pure ?_
  rintro us - (⟨rfl, rfl⟩ | ⟨comma, hcomma, rfl⟩) ts - htype
  · exact ⟨ts, t, htype, rfl, .inl ⟨by simp, rfl⟩⟩
  · exact ⟨ts, t, htype, rfl, .inr ⟨comma, hcomma, rfl⟩⟩

theorem yieldsAt_genericArgs (hk : c.current.kind = .leftBracket) (hn : c.left < n + 1) :
    YieldsAt c (genericArgs type) (IsGenericArgs IsType) := by
  refine .bind (yieldsAt_bracketed (.inr rfl) hk (fun d hd => yieldsAt_genericArg ht (by omega))
    fun _ => left_genericArg_lt) fun r d _ => .pure ?_
  rintro ts - ⟨hitems, hspan⟩
  obtain ⟨args, span⟩ := r
  obtain rfl : span = .ofTokens ts := hspan
  rw [List.append_nil]
  exact .mk hitems

omit ht in
theorem yieldsAt_ownership : YieldsAt c ownership IsOwnership := by
  refine .eatThen (by decide) (fun hk _ => .pure (.own hk)) fun _ => ?_
  exact .eatThen (by decide) (fun hk _ => .pure (.borrow hk)) fun _ => .pure .unspecified

theorem yieldsAt_reference (hn : c.left < n + 1) :
    YieldsAt c (reference type) (IsReference IsType) := by
  refine .sound fun hc => .look (current_apply _) ?_
  refine .bind yieldsAt_ownership fun held d hr => .bind yieldsAt_path fun name e hr' => ?_
  have hle := hr.left_le
  have hle' := hr'.left_le
  have hrest (args : Option GenericArgs) (f : Cursor) : YieldsAt f
      (do
        let optional := (← eat .question).isSome
        return (⟨held, name, args, optional,
          ⟨c.current.start, max (← consumedTo) name.span.stop⟩⟩ : TypeRef))
      (fun ws ref => ∀ vs, e.Passes vs f → Optional (IsGenericArgs IsType) vs args →
        ∀ us, d.Passes us e → IsPath us name → ∀ ts, c.Passes ts d → IsOwnership ts held →
          IsReference IsType (ts ++ (us ++ (vs ++ ws))) ref) := by
    refine .bind (.eatMark (by decide)) fun optional g _ => .look (consumedTo_apply _) (.pure ?_)
    intro ws hpass₄ hoptional vs hpass₃ hargs us hpass₂ hname ts hpass₁ hheld
    have hall := ((hpass₁.trans hpass₂).trans hpass₃).trans hpass₄
    have hle : name.span.stop ≤ g.consumedTo :=
      hname.span_eq ▸ hall.stop_le hc ⟨ts, vs ++ ws, by simp⟩ hname.ne_nil
    rw [Nat.max_eq_left hle, ← hall.span_eq (by simp [hname.ne_nil])]
    simpa using IsReference.mk hheld hname hargs hoptional
  refine .look (check_apply _ _) (.ite (fun hk => ?_) fun _ => ?_)
  · have hk : e.current.kind = .leftBracket := by simpa using hk
    refine .bind (Q := Optional (IsGenericArgs IsType)) ?_ fun args f _ => hrest args f
    exact (yieldsAt_genericArgs ht hk (by omega)).map fun _ _ => .present
  · refine (hrest none e).mono fun ws _ h => ?_
    exact h [] (.refl e) .absent

/-- A layer of a type. -/
theorem yieldsAt_typeLayer (hn : c.left < n + 1) : YieldsAt c (typeLayer type) IsType := by
  refine .look (currentKind_apply _) ?_
  have hbody {α : Type} {k : TokenKind} {item : Phrase α} {F : List α → Span → TypeExpr}
      (hF : ∀ ts as, Braced k item ts as → IsType ts (F as (.ofTokens ts))) (d : Cursor)
      (r : List α × Span) : YieldsAt d (pure (F r.1 r.2)) fun us t => ∀ ts, c.Passes ts d →
        Braced k item ts r.1 ∧ r.2 = .ofTokens ts → IsType (ts ++ us) t := by
    refine .pure ?_
    rintro ts - ⟨hitems, hspan⟩
    rw [List.append_nil, hspan]
    exact hF ts r.1 hitems
  have hfunction : YieldsAt c (do return TypeExpr.function (← function type)) IsType := by
    refine .bind (yieldsAt_function ht hn) fun t d _ => .pure fun ts _ h => ?_
    rw [List.append_nil]
    exact .function h
  have hreference : YieldsAt c (do return TypeExpr.reference (← reference type)) IsType := by
    refine .bind (yieldsAt_reference ht hn) fun t d _ => .pure fun ts _ h => ?_
    rw [List.append_nil]
    exact .reference h
  split
  · rename_i hk
    exact .bind (yieldsAt_braced (fun _ hn => yieldsAt_method ht hn) hk (by decide) begins_method
      moves_method hn) fun r d _ => hbody (fun _ _ => .protocol) d r
  · rename_i hk
    exact .bind (yieldsAt_braced (fun _ hn => yieldsAt_variant ht hn) hk (by decide) begins_variant
      moves_variant hn) fun r d _ => hbody (fun _ _ => .union) d r
  · rename_i hk
    exact .bind (yieldsAt_braced (fun _ hn => yieldsAt_field ht hn) hk (by decide) begins_field
      moves_field hn) fun r d _ => hbody (fun _ _ => .record) d r
  · rename_i hk
    exact .bind (yieldsAt_braced (fun c hn => (ht c hn).map fun _ t h => ⟨t, rfl, h⟩) hk
      (by decide) begins_type moves_element hn) fun r d _ => hbody (fun _ _ => .tuple) d r
  · exact hfunction
  · exact hfunction
  · exact hreference
  · exact hreference
  · exact hreference
  · exact .unexpected fun c _ => .refl c

end

theorem yieldsAt_type : YieldsAt c type IsType := by
  have hall : ∀ n, ∀ c : Cursor, c.left < n → YieldsAt c type IsType := by
    intro n
    induction n with
    | zero => exact fun c hn => absurd hn (Nat.not_lt_zero _)
    | succ n ih =>
      exact fun c hn => .sound fun hc => .congr (typeLayer_type hc.closed).symm
        (yieldsAt_typeLayer ih hn)
  exact hall _ c (Nat.lt_succ_self _)

/-! ## Modules -/

theorem yieldsAt_closeHeader : YieldsAt c closeHeader fun ts _ => ∃ t u,
    t.kind = .rightBracket ∧ u.kind = .rightBracket ∧ ts = [t, u] := by
  refine .expectThen (by decide) (fun hk _ => ?_) (.pure ())
  exact .expectThen (by decide) (fun hk' _ => .pure ⟨_, _, hk, hk', rfl⟩) (.pure ())

theorem yieldsAt_header : YieldsAt c header IsHeader := by
  refine .look (current_apply _) (.look (check_apply _ _) ?_)
  have hmissing {d : Cursor} (hd : d.current = c.current) : YieldsAt d
      (do
        report (.aboutToken .missingHeader .parsing c.current)
        return (⟨.missing c.current, .point c.current.start, true⟩ : ModuleHeader)) IsHeader := by
    rw [← hd]
    exact .complain rfl (fun h => absurd h (by decide)) (.pure _)
  refine .ite (fun hk => ?_) fun _ => hmissing rfl
  have hk : c.current.kind = .leftBracket := by simpa using hk
  refine .peekKind (.inr hk) (.ite (fun hk' => ?_) fun _ => hmissing (Cursor.current_peek c))
  have hk' : c.peek.2.advance.current.kind = .leftBracket := by
    rw [Cursor.current_advance_peek]
    simpa using hk'
  refine .advance (by simp [hk]) fun hpass₁ => .advance (by simp [hk']) fun hpass₂ => ?_
  refine .bind yieldsAt_path fun name d _ => .bind yieldsAt_closeHeader fun _ e _ => ?_
  refine .look (consumedTo_apply _) (.pure ?_)
  rintro _ hpass₄ ⟨close₁, close₂, hclose₁, hclose₂, rfl⟩ ts hpass₃ hname
  have hall := ((hpass₁.trans hpass₂).trans hpass₃).trans hpass₄
  have hspan := hall.span_eq (by simp)
  rw [Cursor.current_peek] at hspan ⊢
  rw [← hspan]
  simpa using IsHeader.mk hk hk' hname hclose₁ hclose₂

theorem yieldsAt_closeDeclaration : YieldsAt c closeDeclaration fun ts _ =>
    (∃ t, t.kind = .terminator ∧ ts = [t]) ∨ c.current.kind = .endOfInput ∧ ts = [] := by
  have hrecover {d : Cursor} {Q : List Token → Unit → Prop} : YieldsAt d
      (do
        Parser.unexpected [.terminator]
        recoverDeclaration) Q := .unexpected moves_recoverDeclaration
  refine .look (currentKind_apply _) ?_
  split
  · rename_i hk
    exact .advance (by simp [hk]) fun _ => .pure (.inl ⟨_, hk, rfl⟩)
  · exact .pure (.inr ⟨‹_›, rfl⟩)
  · rename_i hk
    refine .bind (p := namesDeclaration) (Q := fun _ _ => True)
      (.peekKind (.inl hk) (.pure trivial)) fun _ _ _ => .ite (fun _ => ?_) fun _ => hrecover
    exact .congr (q := Parser.missing .terminator >>= fun _ => pure ()) rfl (.missing (.pure ()))
  · exact hrecover

theorem yieldsAt_definedType (isGeneric : Bool) : YieldsAt c (definedType isGeneric) fun ts r =>
    ∀ t, r = some t → ∃ define us, define.kind = .colonEqual ∧ IsType us t ∧ ts = define :: us := by
  have htype : Moves (do return some (← type)) := .bind moves_type fun _ => .pure _
  refine .eatThen (by decide) (fun hk _ => ?_) fun _ => ?_
  · refine .bind yieldsAt_type fun t d _ => .pure ?_
    rintro ts - h _ ⟨⟩
    exact ⟨_, ts, hk, h, by simp⟩
  · refine .look (checkSet_apply _ _) (.ite (fun _ => ?_) fun _ => ?_)
    · refine .look (current_apply _) ?_
      exact .complain rfl (fun h => absurd h (by decide)) htype
    · refine .look (checkSet_apply _ _) (.ite (fun _ => .missing htype) fun _ => .pure ?_)
      exact fun t h => absurd h (by simp)

theorem yieldsAt_declarationHead (hk : c.current.kind = .identifier) :
    YieldsAt c declarationHead fun ts r => IsDeclaration ts r.1 ∧ r.2 = true := by
  refine .sound fun hc => .advance (by simp [hk]) fun hpass₁ => .look (check_apply _ _) ?_
  have hrest (generics : Option GenericParams) (d : Cursor) :
      YieldsAt d (declarationOf c.current generics) fun vs r =>
        ∀ us, c.advance.Passes us d → Optional IsGenericParams us generics →
          IsDeclaration (c.current :: (us ++ vs)) r.1 ∧ r.2 = true := by
    refine .bind (yieldsAt_definedType _) fun t e _ => ?_
    cases t with
    | none => exact .look (current_apply _) (.unexpected (.pure _))
    | some t =>
      refine .look (consumedTo_apply _) (.pure ?_)
      intro _ hpass₃ hdefined us hpass₂ hgenerics
      obtain ⟨define, vs, hdefine, htype, rfl⟩ := hdefined t rfl
      have hall := (hpass₁.trans hpass₂).trans hpass₃
      have hle : t.span.stop ≤ e.consumedTo := by
        refine htype.span_eq ▸ hall.stop_le hc ?_ htype.ne_nil
        exact ⟨c.current :: us ++ [define], [], by simp⟩
      have hspan := hall.span_eq (by simp)
      rw [Nat.max_eq_left hle, ← hspan]
      refine ⟨?_, rfl⟩
      simpa using IsDeclaration.mk hk hgenerics hdefine htype
  refine .ite (fun hbracket => ?_) fun _ => ?_
  · have hbracket : c.advance.current.kind = .leftBracket := by simpa using hbracket
    refine .bind (Q := Optional IsGenericParams) ?_ fun generics d _ => hrest generics d
    exact (yieldsAt_genericParams hbracket).map fun _ _ => .present
  · exact (hrest none c.advance).mono fun _ _ h => h [] (.refl _) .absent

theorem yieldsAt_declaration (hk : c.current.kind = .identifier) :
    YieldsAt c declaration fun ts d => ∃ us run, IsDeclaration us d ∧ ts = us ++ run ∧
      (∀ t ∈ run, t.kind = .terminator) ∧
      (run = [] → ∃ t, t.kind = .endOfInput ∧ c.tokens = ts ++ [t]) := by
  refine .sound fun hc => .bind (yieldsAt_declarationHead hk) fun r d hr => ?_
  obtain ⟨x, isComplete⟩ := r
  cases isComplete with
  | false =>
    refine .bind (.of_moves moves_recoverDeclaration) fun _ _ _ => .pure ?_
    intro _ _ _ _ _ h
    exact absurd h.2 (by simp)
  | true =>
    refine .bind yieldsAt_closeDeclaration fun _ e _ => .pure ?_
    rintro _ hpass₂ (⟨t, ht, rfl⟩ | ⟨hend, rfl⟩) ts hpass₁ h
    · exact ⟨ts, [t], h.1, by simp, by simpa using ht, by simp⟩
    · refine ⟨ts, [], h.1, by simp, by simp, fun _ => ⟨d.current, hend, ?_⟩⟩
      have hahead := (hr.closed hc.closed).ahead_eq_nil_iff.2 hend
      have htokens := hpass₁.tokens
      rw [Cursor.tokens.eq_1 d, hahead] at htokens
      simpa using htokens

/-- What a round of the declarations of a module yields: nothing at the end, or a declaration with
the terminators behind it, which are missing only at the end. -/
def DeclarationRound (c : Cursor) (ts : List Token) (r : Round Declaration) : Prop :=
  ts = [] ∧ r = .stop ∨ ∃ us run d, IsDeclaration us d ∧ r = ⟨some d, true⟩ ∧ ts = us ++ run ∧
    (∀ t ∈ run, t.kind = .terminator) ∧
    (run = [] → ∃ t, t.kind = .endOfInput ∧ c.tokens = ts ++ [t])

theorem yieldsAt_skipTerminators : YieldsAt c skipTerminators fun ts _ =>
    ∀ t ∈ ts, t.kind = .terminator :=
  (yieldsAt_skipSet rfl).mono fun _ _ h t ht => by simpa [KindSet.ofList] using h t ht

theorem yieldsAt_furtherDeclaration :
    YieldsAt c furtherDeclaration (DeclarationRound c) := by
  have hskip (item : Option Declaration) : Moves
      (do
        skipTerminators
        return (⟨item, true⟩ : Round Declaration)) := .bind (moves_skipSet _) fun _ => .pure _
  have hgroup : Moves skipGroup := moves_of_carries fun _ => Translation.carries_skipGroup
  refine .look (isAtEnd_apply _) (.ite (fun _ => .pure (.inl ⟨rfl, rfl⟩)) fun _ => ?_)
  refine .look (check_apply _ _) (.look (checkSet_apply _ _) (.ite (fun hk => ?_) fun _ => ?_))
  · refine .bind (Q := fun ts item => ∃ us run d, IsDeclaration us d ∧ item = some d ∧
      ts = us ++ run ∧ (∀ t ∈ run, t.kind = .terminator) ∧
      (run = [] → ∃ t, t.kind = .endOfInput ∧ c.tokens = ts ++ [t])) ?_ fun item d _ => ?_
    · refine (yieldsAt_declaration (by simpa using hk)).map fun ts d h => ?_
      obtain ⟨us, run, hd, h⟩ := h
      exact ⟨us, run, d, hd, rfl, h⟩
    · refine .bind yieldsAt_skipTerminators fun _ _ _ => .pure ?_
      rintro run' - hrun' _ - ⟨us, run, x, hx, rfl, rfl, hrun, hend⟩
      refine .inr ⟨us, run ++ run', x, hx, rfl, by simp, fun t ht => ?_, fun hnil => ?_⟩
      · rcases List.mem_append.1 ht with ht | ht
        · exact hrun t ht
        · exact hrun' t ht
      · obtain ⟨rfl, rfl⟩ := List.append_eq_nil_iff.1 hnil
        simpa using hend rfl
  · refine .ite (fun _ => .unexpected ?_) fun _ => .unexpected ?_
    · exact .bind hgroup fun _ => hskip none
    · exact .bind moves_recoverDeclaration fun _ => hskip none

theorem declarations_nil {ds : List Declaration} (h : Declarations [] ds) : ds = [] := by
  generalize hts : [] = ts at h
  cases h with
  | nil => rfl
  | last h => cases h; simp at hts
  | cons h => cases h; simp at hts

theorem yieldsAt_declarations : YieldsAt c (collect furtherDeclaration) Declarations := by
  refine .collect (M := fun _ => Declarations) (fun _ _ => yieldsAt_furtherDeclaration)
    (fun _ => left_furtherDeclaration_lt) ?_ ?_ (Nat.lt_succ_self _)
  · rintro _ _ _ (⟨rfl, ⟨⟩⟩ | ⟨_, _, _, _, ⟨⟩, _⟩)
    exact .nil
  · rintro c d e _ vs _ ds hpass hpass' (⟨_, ⟨⟩⟩ | ⟨us, run, x, hx, ⟨⟩, rfl, hrun, hend⟩) hrest
    by_cases hne : run = []
    · obtain ⟨t, -, htokens⟩ := hend hne
      have hvs : [t] = vs ++ e.tokens := by
        have := htokens.symm.trans (hpass.trans hpass').tokens
        simpa [List.append_assoc] using this
      obtain rfl : vs = [] := by
        cases vs with
        | nil => rfl
        | cons v vs => simp [Cursor.tokens] at hvs
      obtain rfl := declarations_nil hrest
      simpa [hne] using Declarations.last hx
    · exact .cons hx hrun hne hrest

theorem yieldsAt_module : YieldsAt c module fun ts r =>
    ∀ last, last.kind = .endOfInput → IsModule (ts ++ [last]) r := by
  refine .bind yieldsAt_skipTerminators fun _ _ _ => .bind yieldsAt_header fun head _ _ => ?_
  refine .bind yieldsAt_skipTerminators fun _ _ _ => .bind yieldsAt_declarations fun ds _ _ =>
    .pure ?_
  intro us _ hds run _ hrun ts _ hheader before _ hbefore last hlast
  simpa using IsModule.mk hbefore hheader hrun hds hlast

/-! ## Texts -/

namespace Module

/-- **What is parsed without a diagnostic is in the grammar.** The lexer has no complaint about the
text, and the header and the declarations of the module are the tree of its significant tokens. -/
theorem sound_of_diagnostics_eq_nil (s : Source) (limit : Nat) (policy : TriviaPolicy)
    (h : (ofSource s limit policy).diagnostics = []) :
    (∀ limit', (lexRaw s limit').diagnostics = [] ∧ (lexSignificant s limit').diagnostics = []) ∧
    ∀ limit', IsModule (lexSignificant s limit').tokens
      ((ofSource s limit policy).header, (ofSource s limit policy).members) := by
  have hraised : (lastCursor s.chars).raised = [] :=
    ((lastCursor s.chars).diagnostics_eq_nil_iff limit).1 h
  have hcomplaints : Segment.complaints s.chars = [] := by
    rw [← lexical_raised_lastCursor, hraised]
    rfl
  obtain ⟨hr, hyield⟩ := yieldsAt_module (Cursor.sound_ofChars hcomplaints).1
  obtain ⟨ts, hpass, hmodule⟩ := hyield hraised
  refine ⟨fun limit' => ?_, fun limit' => ?_⟩
  · rw [diagnostics_lexRaw, diagnostics_lexSignificant, hcomplaints]
    exact ⟨(Sink.sorted_reportAll_eq_nil_iff _ _).2 rfl,
      (Sink.sorted_reportAll_eq_nil_iff _ _).2 rfl⟩
  · have htokens := hpass.tokens
    have hlast : (lastCursor s.chars).tokens = [endOfInput s.chars] := by
      rw [Cursor.tokens, ahead_lastCursor, current_lastCursor]
      rfl
    rw [tokens_lexSignificant, ← Cursor.tokens_ofChars, htokens]
    show IsModule (ts ++ (lastCursor s.chars).tokens) _
    rw [hlast]
    exact hmodule _ rfl

/-- A module with a type of every form. -/
theorem sound_of_diagnostics_eq_nil_forms :
    let s : Source :=
      ⟨"[[a.b]]\n\nA[T,] := ^\x7b f: async (x: own B[T]?, #\x7b C \x7d,) -> D\n\x7d\n" ++
        "E := |\x7b, F(() -> G) = 1\n H \x7d\nI := %\x7b j: K = \"\", \x7d", none⟩
    (ofSource s 0 .discard).diagnostics = [] ∧ (lexRaw s 0).diagnostics = [] ∧
      IsModule (lexSignificant s 0).tokens
        ((ofSource s 0 .discard).header, (ofSource s 0 .discard).members) := by
  intro s
  have hsilent : (ofSource s 0 .discard).diagnostics = [] := by decide +kernel
  obtain ⟨hlex, hmodule⟩ := sound_of_diagnostics_eq_nil s 0 .discard hsilent
  exact ⟨hsilent, (hlex 0).1, hmodule 0⟩

end Module

end DeclFront
