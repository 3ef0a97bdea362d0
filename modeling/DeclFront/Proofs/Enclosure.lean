import DeclFront.Proofs.Nesting
import DeclFront.Proofs.Placement

/-!
# Groups around a token

Between two tokens of a text some groups are open. In a text whose brackets match (`Matched`) they
are told by the opening tokens in front (`enclosing`): a closer closes the innermost of them, and at
the end none is left. The groups are told by their tokens here and not by their kinds, since it
matters where they were opened; and terminators may stand anywhere.

**Groups that are given up** (`Cursor.Amid`). The parser knows which groups it is in, but for
parentheses and brackets whose end it has stopped looking for. It does that only behind a complaint
that stands in the group (`Cursor.Blames`). A closer that is taken for the end of an outer group
then closes an inner one instead, and the outer one is left behind in turn; the complaint stands in
it too, since groups that are open lie inside one another (`Cursor.Inside.stop_le_start`). Braces
are never given up: no token but their own closer closes them.
-/

namespace DeclFront

open DeclFront.Parser

variable {α β : Type} {ts st us : List Token} {t o : Token}

/-! ## The groups of a text -/

/-- Whether a token opens or closes a group. -/
def TokenKind.isBracket (k : TokenKind) : Bool :=
  KindSet.opener.contains k || KindSet.closer.contains k

/-- The groups that are open behind `t`, the innermost first, where the groups `st` are open in
front of it. There are none where `t` closes another group than the innermost one. -/
def enclose (st : List Token) (t : Token) : Option (List Token) :=
  if KindSet.opener.contains t.kind then some (t :: st)
  else if KindSet.closer.contains t.kind then
    match st with
    | [] => none
    | o :: st => if o.kind.closing = t.kind then some st else none
  else some st

/-- The groups that are open behind some tokens. -/
def enclosing (ts : List Token) : Option (List Token) := ts.foldlM enclose []

/-- Each closer closes the innermost group, and nothing stays open. -/
def Matched (ts : List Token) : Prop := enclosing ts = some []

instance (ts : List Token) : Decidable (Matched ts) := inferInstanceAs (Decidable (_ = _))

/-- Among the tokens `ts`, the token `t` stands in the groups `st`. -/
def StandsIn (ts st : List Token) (t : Token) : Prop :=
  ∃ before behind, ts = before ++ t :: behind ∧ enclosing before = some st

instance (ts st : List Token) (t : Token) : Decidable (StandsIn ts st t) :=
  decidable_of_iff (∃ i < ts.length, ts[i]? = some t ∧ enclosing (ts.take i) = some st) <| by
    constructor
    · rintro ⟨i, hi, ht, hst⟩
      obtain rfl : ts[i] = t := by simpa [hi] using ht
      refine ⟨ts.take i, ts.drop (i + 1), ?_, hst⟩
      rw [← List.drop_eq_getElem_cons hi, List.take_append_drop]
    · rintro ⟨before, behind, rfl, hst⟩
      exact ⟨before.length, by simp, by simp, by simpa using hst⟩

theorem enclosing_append_cons (ts us : List Token) (t : Token) : enclosing (ts ++ t :: us) =
    (enclosing ts).bind fun st => (enclose st t).bind fun st => us.foldlM enclose st := by
  rw [enclosing, List.foldlM_append]
  rfl

theorem enclosing_concat (ts : List Token) (t : Token) :
    enclosing (ts ++ [t]) = (enclosing ts).bind fun st => enclose st t := by
  rw [enclosing_append_cons]
  simp

theorem enclose_opener (h : KindSet.opener.contains t.kind = true) (st : List Token) :
    enclose st t = some (t :: st) := by
  unfold enclose
  rw [if_pos h]

theorem enclose_closer (h : KindSet.closer.contains t.kind = true) (hst : enclose st t = some us) :
    ∃ o, st = o :: us ∧ o.kind.closing = t.kind := by
  unfold enclose at hst
  rw [if_neg (KindSet.not_opener_of_closer h), if_pos h] at hst
  cases st with
  | nil => simp at hst
  | cons o st =>
    obtain ⟨ho, rfl⟩ : o.kind.closing = t.kind ∧ st = us := by simpa using hst
    exact ⟨o, rfl, ho⟩

theorem enclose_other (h : t.kind.isBracket = false) (st : List Token) :
    enclose st t = some st := by
  obtain ⟨hopen, hclose⟩ := Bool.or_eq_false_iff.1 h
  simp [enclose, hopen, hclose]

/-- The open groups are opened by tokens in front, the innermost by the latest. -/
theorem sublist_of_enclosing (h : enclosing ts = some st) : st.Sublist ts.reverse := by
  induction ts using List.reverseRecOn generalizing st with
  | nil =>
    obtain rfl := Option.some.inj h
    exact .slnil
  | append_singleton ts t ih =>
    rw [enclosing_concat] at h
    obtain ⟨us, hus, hst⟩ := Option.bind_eq_some_iff.1 h
    have hsub := ih hus
    rw [List.reverse_concat]
    by_cases hopen : KindSet.opener.contains t.kind = true
    · rw [enclose_opener hopen] at hst
      exact Option.some.inj hst ▸ hsub.cons_cons t
    by_cases hclose : KindSet.closer.contains t.kind = true
    · obtain ⟨o, rfl, -⟩ := enclose_closer hclose hst
      exact ((List.sublist_cons_self o st).trans hsub).cons t
    · have hother : t.kind.isBracket = false :=
        Bool.or_eq_false_iff.2 ⟨Bool.eq_false_iff.2 hopen, Bool.eq_false_iff.2 hclose⟩
      rw [enclose_other hother] at hst
      exact Option.some.inj hst ▸ hsub.cons t

/-! ## The groups around a cursor -/

namespace Cursor

variable {c d : Cursor} {m n : Nat}

/-- Along a text whose brackets match, at a token that stands in the groups `st`. -/
structure Inside (ts st : List Token) (c : Cursor) : Prop where
  matched : Matched ts
  along : c.Along ts
  around : ∃ before, ts = before ++ c.tokens ∧ enclosing before = some st

namespace Inside

theorem of_tokens (h : c.Inside ts st) (hd : d.Along ts) (ht : d.tokens = c.tokens) :
    d.Inside ts st := by
  obtain ⟨before, hts, hst⟩ := h.around
  exact ⟨h.matched, hd, before, ht ▸ hts, hst⟩

theorem standsIn (h : c.Inside ts st) : StandsIn ts st c.current := by
  obtain ⟨before, hts, hst⟩ := h.around
  exact ⟨before, _, hts, hst⟩

/-- At the end of the text no group is open. -/
theorem eq_nil_of_end (h : c.Inside ts st) (hk : c.current.kind = .endOfInput) : st = [] := by
  obtain ⟨before, hts, hst⟩ := h.around
  have hmatched := h.matched
  rw [tokens, h.along.closed.ahead_eq_nil_iff.2 hk] at hts
  rw [Matched, hts, List.map_nil, enclosing_concat, hst, Option.bind_some,
    enclose_other (by rw [hk]; rfl)] at hmatched
  exact Option.some.inj hmatched

/-- A token that is consumed changes the groups. -/
theorem exists_advance (h : c.Inside ts st) (hk : c.current.kind ≠ .endOfInput) :
    ∃ us, enclose st c.current = some us ∧ c.advance.Inside ts us := by
  obtain ⟨before, hts, hst⟩ := h.around
  have hmatched := h.matched
  rw [h.along.closed.tokens_advance hk] at hts
  rw [Matched, hts, enclosing_append_cons, hst, Option.bind_some] at hmatched
  obtain ⟨us, hus, -⟩ := Option.bind_eq_some_iff.1 hmatched
  refine ⟨us, hus, h.matched, h.along.advance, before ++ [c.current], ?_, ?_⟩
  · rw [hts, List.append_assoc, List.singleton_append]
  · rw [enclosing_concat, hst, Option.bind_some, hus]

theorem advance (h : c.Inside ts st) (hk : c.current.kind.isBracket = false) :
    c.advance.Inside ts st := by
  by_cases hend : c.current.kind = .endOfInput
  · rwa [h.along.closed.advance_of_end hend]
  · obtain ⟨us, hus, hd⟩ := h.exists_advance hend
    rw [enclose_other hk] at hus
    exact Option.some.inj hus ▸ hd

theorem opens (h : c.Inside ts st) (hk : KindSet.opener.contains c.current.kind = true) :
    c.advance.Inside ts (c.current :: st) := by
  have hend : c.current.kind ≠ .endOfInput := KindSet.ne_of_contains hk rfl
  obtain ⟨us, hus, hd⟩ := h.exists_advance hend
  rw [enclose_opener hk] at hus
  exact Option.some.inj hus ▸ hd

theorem closes (h : c.Inside ts st) (hk : KindSet.closer.contains c.current.kind = true) :
    ∃ o us, st = o :: us ∧ o.kind.closing = c.current.kind ∧ c.advance.Inside ts us := by
  have hend : c.current.kind ≠ .endOfInput := KindSet.ne_of_contains hk rfl
  obtain ⟨us, hus, hd⟩ := h.exists_advance hend
  obtain ⟨o, rfl, ho⟩ := enclose_closer hk hus
  exact ⟨o, us, rfl, ho, hd⟩

/-- The groups were opened in front of the current token. -/
theorem stop_le (h : c.Inside ts st) (ho : o ∈ st) : o.stop ≤ c.current.start := by
  obtain ⟨before, hts, hst⟩ := h.around
  have hordered := h.along.ordered
  rw [hts] at hordered
  have hmem : o ∈ before := List.mem_reverse.1 ((sublist_of_enclosing hst).subset ho)
  exact (List.pairwise_append.1 hordered).2.2 o hmem c.current List.mem_cons_self

/-- Outer groups were opened in front of inner ones. -/
theorem stop_le_start (us : List Token) (h : c.Inside ts (us ++ o :: st)) (ht : t ∈ us) :
    o.stop ≤ t.start := by
  obtain ⟨before, hts, hst⟩ := h.around
  have hordered := h.along.ordered
  rw [hts] at hordered
  have hbefore : before.reverse.Pairwise fun t u => u.stop ≤ t.start :=
    List.pairwise_reverse.2 (List.pairwise_append.1 hordered).1
  have hgroups := hbefore.sublist (sublist_of_enclosing hst)
  exact (List.pairwise_append.1 hgroups).2.2 t ht o List.mem_cons_self

end Inside

/-! ## Groups that are given up -/

/-- The group that `e` opens, in parentheses or square brackets, has an answer inside, not behind
the place `m`. -/
def Blames (c : Cursor) (m : Nat) (e : Token) : Prop :=
  IsPlain e.kind ∧ ∃ n, e.stop ≤ n ∧ n ≤ m ∧ c.Answers n

theorem Blames.mono {e : Token} (h : c.Blames m e) (hr : c.Reaches d) (hm : m ≤ n) :
    d.Blames n e := by
  obtain ⟨hplain, k, hstart, hk, hanswer⟩ := h
  exact ⟨hplain, k, hstart, Nat.le_trans hk hm, hr.answers hanswer⟩

/-- The parser goes on. -/
theorem blames_of_reaches (h : ∀ e ∈ us, c.Blames c.current.start e) (hr : c.Reaches d)
    (hc : c.Along ts) : ∀ e ∈ us, d.Blames d.current.start e :=
  fun e he => (h e he).mono hr (hr.start_le hc)

/-- Around a group that was given up, a plain one can be given up too. -/
theorem Blames.outer {e : Token} (h : c.Blames m e) (ho : IsPlain o.kind) (hle : o.stop ≤ e.start) :
    c.Blames m o := by
  obtain ⟨-, n, hstart, hn, hanswer⟩ := h
  exact ⟨ho, n, Nat.le_trans hle (Nat.le_trans (Nat.le_add_right _ _) hstart), hn, hanswer⟩

/-- In the groups `st` and, inside of these, only in groups that were given up. -/
def Amid (ts st : List Token) (c : Cursor) : Prop :=
  ∃ us, c.Inside ts (us ++ st) ∧ ∀ e ∈ us, c.Blames c.current.start e

/-- At the token `t` the parser was amid the groups `st`. -/
def Harbours (ts st : List Token) (t : Token) (c : Cursor) : Prop :=
  ∃ us, StandsIn ts (us ++ st) t ∧ ∀ e ∈ us, c.Blames t.start e

theorem Harbours.mono (h : c.Harbours ts st t) (hr : c.Reaches d) : d.Harbours ts st t := by
  obtain ⟨us, hstands, hus⟩ := h
  exact ⟨us, hstands, fun e he => (hus e he).mono hr (Nat.le_refl _)⟩

namespace Amid

theorem along (h : c.Amid ts st) : c.Along ts := by
  obtain ⟨us, hc, -⟩ := h
  exact hc.along

theorem harbours (h : c.Amid ts st) : c.Harbours ts st c.current := by
  obtain ⟨us, hc, hus⟩ := h
  exact ⟨us, hc.standsIn, hus⟩

theorem of_inside (h : c.Inside ts st) : c.Amid ts st := ⟨[], h, by simp⟩

/-- A parser that consumes nothing stays where it is. -/
theorem of_tokens (h : c.Amid ts st) (hr : c.Reaches d) (ht : d.tokens = c.tokens) :
    d.Amid ts st := by
  obtain ⟨us, hc, hus⟩ := h
  exact ⟨us, hc.of_tokens (hr.along hc.along) ht, blames_of_reaches hus hr hc.along⟩

theorem ne_endOfInput (h : c.Amid ts (o :: st)) : c.current.kind ≠ .endOfInput := by
  obtain ⟨us, hc, -⟩ := h
  intro hk
  exact absurd (hc.eq_nil_of_end hk) (by simp)

theorem advance (h : c.Amid ts st) (hk : c.current.kind.isBracket = false) :
    c.advance.Amid ts st := by
  obtain ⟨us, hc, hus⟩ := h
  exact ⟨us, hc.advance hk, blames_of_reaches hus Step.advance.reaches hc.along⟩

theorem peek (h : c.Amid ts st)
    (hk : c.current.kind = .identifier ∨ c.current.kind = .leftBracket) : c.peek.2.Amid ts st := by
  have hs : c.Step c.peek.2 := .peek hk
  exact h.of_tokens hs.reaches (tokens_peek c)

/-- An empty list in brackets is consumed with its closer. -/
theorem skipEmpty {empty : DiagnosticCode} (h : c.Amid ts st) (hempty : IsEmptyList empty)
    (hopen : KindSet.opener.contains c.current.kind = true)
    (hclose : c.advance.current.kind = .rightBracket) : (c.skipEmpty empty).Amid ts st := by
  have hs : c.Step (c.skipEmpty empty) := .skipEmpty hempty hclose
  obtain ⟨us, hc, hus⟩ := h
  obtain ⟨o, vs, hvs, -, hd⟩ := (hc.opens hopen).closes (by rw [hclose]; rfl)
  obtain ⟨rfl, rfl⟩ := List.cons.inj hvs
  have hd := hd.of_tokens (hs.along hc.along) (tokens_report _ _)
  exact ⟨us, hd, blames_of_reaches hus hs.reaches hc.along⟩

/-- Groups that were given up need not be told of. -/
theorem of_blamed (us : List Token) (h : c.Amid ts (us ++ st))
    (hus : ∀ e ∈ us, c.Blames c.current.start e) : c.Amid ts st := by
  obtain ⟨vs, hc, hvs⟩ := h
  refine ⟨vs ++ us, by rwa [List.append_assoc], fun e he => ?_⟩
  exact (List.mem_append.1 he).elim (hvs e) (hus e)

theorem stop_le (h : c.Amid ts (o :: st)) : o.stop ≤ c.current.start := by
  obtain ⟨us, hc, -⟩ := h
  exact hc.stop_le (List.mem_append_right _ List.mem_cons_self)

/-- Behind a complaint, a plain group is given up. -/
theorem giveUp (h : c.Amid ts (o :: st)) (ho : IsPlain o.kind) (hn : o.stop ≤ n)
    (hle : n ≤ c.current.start) (hanswer : c.Answers n) : c.Amid ts st := by
  refine of_blamed [o] h fun e he => ?_
  obtain rfl := List.mem_singleton.1 he
  exact ⟨ho, n, hn, hle, hanswer⟩

/-- A closer ends the plain group at hand, or one inside that was given up. -/
theorem closePlain (h : c.Amid ts (o :: st)) (ho : IsPlain o.kind)
    (hk : KindSet.closer.contains c.current.kind = true) : c.advance.Amid ts st := by
  obtain ⟨us, hc, hus⟩ := h
  obtain ⟨e, vs, hst, -, hd⟩ := hc.closes hk
  cases us with
  | nil =>
    obtain ⟨rfl, rfl⟩ := List.cons.inj hst
    exact of_inside hd
  | cons e' us =>
    obtain ⟨rfl, rfl⟩ := List.cons.inj hst
    -- the closer was meant for `o` but ends `e'`; what was complained about in `e'` is in `o` too
    have hle := Inside.stop_le_start (e' :: us) hc List.mem_cons_self
    have houter : c.Blames c.current.start o := (hus e' List.mem_cons_self).outer ho hle
    have hleft : ∀ u ∈ us ++ [o], c.Blames c.current.start u := by
      intro u hu
      rcases List.mem_append.1 hu with hu | hu
      · exact hus u (List.mem_cons_of_mem _ hu)
      · obtain rfl := List.mem_singleton.1 hu
        exact houter
    exact of_blamed (us ++ [o]) (of_inside (by simpa using hd))
      (blames_of_reaches hleft Step.advance.reaches hc.along)

/-- The closing brace is that of the body at hand. -/
theorem closeBrace (h : c.Amid ts (o :: st)) (hk : c.current.kind = .rightBrace) :
    c.advance.Amid ts st := by
  obtain ⟨us, hc, hus⟩ := h
  obtain ⟨e, vs, hst, he, hd⟩ := hc.closes (by rw [hk]; rfl)
  cases us with
  | nil =>
    obtain ⟨rfl, rfl⟩ := List.cons.inj hst
    exact of_inside hd
  | cons e' us =>
    obtain ⟨rfl, -⟩ := List.cons.inj hst
    exact absurd (he.trans hk) (hus e' List.mem_cons_self).1.closing_ne

end Amid

theorem amid_ofChars {cs : List Char} (h : Matched (ofChars cs).tokens) :
    (ofChars cs).Amid (ofChars cs).tokens [] :=
  .of_inside ⟨h, along_ofChars cs, [], rfl, rfl⟩

end Cursor

/-! ## Skipping -/

namespace Cursor

variable {c : Cursor}

/-- Inside the groups `st`, some of the groups `us` and as many further ones as the depth says. -/
def InsideAt (ts us st : List Token) (depth : Nat) (c : Cursor) : Prop :=
  ∃ ds vs, ds.length = depth ∧ vs <:+ us ∧ c.Inside ts (ds ++ (vs ++ st))

/-- A token that is skipped changes the groups as it changes the depth. A closer at depth zero
closes one of the groups `us`, outside of which skipping does not lead. -/
theorem InsideAt.skip {depth : Nat} (h : c.InsideAt ts us st depth)
    (hcloser : depth = 0 → ∀ o ∈ st.head?, c.current.kind ≠ o.kind.closing) :
    c.advance.InsideAt ts us st (depthAfter depth c.current.kind) := by
  obtain ⟨ds, vs, rfl, hvs, hc⟩ := h
  by_cases hopen : KindSet.opener.contains c.current.kind = true
  · refine ⟨c.current :: ds, vs, ?_, hvs, hc.opens hopen⟩
    rw [depthAfter, if_pos hopen, List.length_cons]
  by_cases hclose : KindSet.closer.contains c.current.kind = true
  · rw [depthAfter, if_neg hopen, if_pos hclose]
    obtain ⟨o, ws, hst, ho, hd⟩ := hc.closes hclose
    cases ds with
    | cons d ds =>
      obtain ⟨rfl, rfl⟩ := List.cons.inj hst
      exact ⟨ds, vs, rfl, hvs, hd⟩
    | nil =>
      cases vs with
      | cons v vs =>
        obtain ⟨rfl, rfl⟩ := List.cons.inj hst
        exact ⟨[], vs, rfl, (List.suffix_cons v vs).trans hvs, hd⟩
      | nil =>
        have hst : st = o :: ws := hst
        exact absurd ho.symm (hcloser rfl o (by rw [hst]; rfl))
  · have hother : c.current.kind.isBracket = false :=
      Bool.or_eq_false_iff.2 ⟨Bool.eq_false_iff.2 hopen, Bool.eq_false_iff.2 hclose⟩
    rw [depthAfter, if_neg hopen, if_neg hclose]
    exact ⟨ds, vs, rfl, hvs, hc.advance hother⟩

/-- **Skipping stays inside its group.** Skipping from inside the groups `us ++ st` leaves none of
the groups `st` if it stops at the closer of the innermost of those. -/
theorem Inside.skipUntil (us : List Token) {stop : Parser Bool} (hmoves : Moves stop)
    (hlook : ∀ c, (stop c).2.tokens = c.tokens)
    (hcloser : ∀ c, (stop c).1 = false → ∀ o ∈ st.head?, c.current.kind ≠ o.kind.closing)
    (h : c.Inside ts (us ++ st)) :
    ∃ vs, vs <:+ us ∧ (skipUntil stop c).2.Inside ts (vs ++ st) ∧
      ((skipUntil stop c).2.current.kind = .endOfInput ∨
        ∃ d, (stop d).1 = true ∧ (skipUntil stop c).2 = (stop d).2) := by
  have hstop {depth : Nat} {c : Cursor} (hc : c.InsideAt ts us st depth) :
      (stop c).2.InsideAt ts us st depth := by
    obtain ⟨ds, vs, hds, hvs, hc⟩ := hc
    exact ⟨ds, vs, hds, hvs, hc.of_tokens ((hmoves c hc.along.closed).along hc.along) (hlook c)⟩
  obtain ⟨depth, ⟨ds, vs, hds, hvs, hc⟩, hend⟩ :=
    skipUntil_induction (I := InsideAt ts us st) hmoves
      (fun _ _ ⟨_, _, _, _, hc⟩ => hc.along.closed)
      (fun _ c hc => ⟨hstop hc, (List.cons.inj (hlook c)).1⟩)
      (fun depth c d hd heq _ hfalse => by
        rw [← heq]
        exact hd.skip fun hzero => heq ▸ hcloser c (hfalse hzero))
      ⟨[], us, rfl, List.suffix_refl us, h⟩
  rcases hend with hend | ⟨rfl, hend⟩
  · have hnil := List.append_eq_nil_iff.1 (hc.eq_nil_of_end hend)
    rw [hnil.1] at hc
    exact ⟨vs, hvs, hc, .inl hend⟩
  · obtain rfl := List.eq_nil_of_length_eq_zero hds
    exact ⟨vs, hvs, hc, .inr hend⟩

theorem Amid.skipUntil {stop : Parser Bool} (hmoves : Moves stop)
    (hlook : ∀ c, (stop c).2.tokens = c.tokens)
    (hcloser : ∀ c, (stop c).1 = false → ∀ o ∈ st.head?, c.current.kind ≠ o.kind.closing)
    (hr : c.Reaches (Parser.skipUntil stop c).2) (h : c.Amid ts st) :
    (Parser.skipUntil stop c).2.Amid ts st := by
  obtain ⟨us, hc, hus⟩ := h
  obtain ⟨vs, hvs, hd, -⟩ := hc.skipUntil us hmoves hlook hcloser
  exact ⟨vs, hd, blames_of_reaches (fun e he => hus e (hvs.subset he)) hr hc.along⟩

end Cursor

/-! ## What a parser keeps -/

variable {c d : Cursor} {p : Parser α} {k : α → Parser β} {R : Cursor → β → Prop}

/-- The parser stays amid the groups in which it begins. -/
def Keeps (ts : List Token) (p : Parser α) : Prop :=
  ∀ c st, c.Amid ts st → PlacesAt ts c p fun d _ => d.Amid ts st

namespace Keeps

/-- A parser that consumes nothing. -/
theorem stay (hp : Moves p) (h : ∀ c, (p c).2.tokens = c.tokens) : Keeps ts p := by
  intro c st hc halong
  have hr := hp c halong.closed
  exact ⟨hr, hc.of_tokens hr (h c)⟩

theorem look (h : ∀ c, (p c).2 = c) : Keeps ts p := by
  intro c st hc halong
  rw [h c]
  exact ⟨.refl c, hc⟩

theorem pure (a : α) : Keeps ts (pure a) := look fun _ => rfl

theorem bind (hp : Keeps ts p) (hk : ∀ a, Keeps ts (k a)) : Keeps ts (p >>= k) :=
  fun c st hc => .bind (hp c st hc) fun a d _ _ hd => hk a d st hd

theorem ite {b : Prop} [Decidable b] {q : Parser α} (hp : Keeps ts p) (hq : Keeps ts q) :
    Keeps ts (if b then p else q) :=
  fun c st hc => .ite (fun _ => hp c st hc) fun _ => hq c st hc

theorem unexpected (ks : List TokenKind) : Keeps ts (unexpected ks) :=
  stay (moves_unexpected ks) (tokens_unexpected ks)

theorem missing (k : TokenKind) : Keeps ts (missing k) :=
  stay (moves_of_carries fun _ => Translation.carries_missing k) fun c => by simp

theorem eat {k : TokenKind} (hk : k.isBracket = false) : Keeps ts (eat k) := by
  intro c st hc
  by_cases h : c.current.kind = k
  · rw [PlacesAt, eat_of_eq h]
    exact fun _ => ⟨Cursor.Step.advance.reaches, hc.advance (h ▸ hk)⟩
  · rw [PlacesAt, eat_of_ne h]
    exact fun _ => ⟨.refl c, hc⟩

theorem loop {σ : Type} {round : σ → Parser (ForInStep σ)} (h : ∀ s, Keeps ts (round s)) (s : σ) :
    Keeps ts (loop round s) := by
  intro c st hc halong
  refine loop_induction (P := fun _ c r => c.Amid ts st → c.Reaches r.2 ∧ r.2.Amid ts st)
    ?_ ?_ ?_ s c hc
  · exact fun s c _ _ hc => h s c st hc hc.along
  · exact fun s c _ _ _ hc => h s c st hc hc.along
  · intro s c _ r _ _ ih hc
    obtain ⟨hr, hd⟩ := h s c st hc hc.along
    obtain ⟨hr', hr''⟩ := ih hd
    exact ⟨hr.trans hr', hr''⟩

theorem collect {round : Parser (Round α)} (h : Keeps ts round) : Keeps ts (collect round) :=
  bind (loop (fun _ => bind h fun _ => pure _) _) fun _ => pure _

/-- Tokens of kinds that neither open nor close a group are skipped. -/
theorem skipSet {s : KindSet} (hs : ∀ k, s.contains k = true → k.isBracket = false) :
    Keeps ts (skipSet s) := by
  refine loop (fun _ c st hc => ?_) ()
  refine .look (checkSet_apply _ _) (.ite (fun hk => ?_) fun _ => .pure fun _ => hc)
  exact .advance (.pure fun _ => hc.advance (hs _ hk))

end Keeps

namespace PlacesAt

/-- Behind a complaint about the current token there is an answer at it. -/
theorem unexpectedAmid (hc : c.Amid ts st) (ks : List TokenKind) :
    PlacesAt ts c (Parser.unexpected ks) fun d _ => d.Amid ts st ∧ d.Answers d.current.start := by
  refine ((Keeps.unexpected ks c st hc).and (.unexpected ks)).mono
    fun d _ _ _ ⟨hd, h, hanswer⟩ => ?_
  exact ⟨hd, h ▸ hanswer⟩

theorem missingAmid (hc : c.Amid ts st) (k : TokenKind) :
    PlacesAt ts c (Parser.missing k) fun d _ => d.Amid ts st ∧ d.Answers d.current.start := by
  refine ((Keeps.missing k c st hc).and (.missing k)).mono fun d _ _ _ ⟨hd, h, hanswer⟩ => ?_
  exact ⟨hd, h ▸ hanswer⟩

theorem reportAmid (hc : c.Amid ts st) (code : DiagnosticCode) (expected : ExpectedKinds)
    (hcode : code.concern = .syntactic) (hne : code ≠ .unexpectedToken) :
    PlacesAt ts c (Parser.report (Cursor.complaint code expected c.current)) fun d _ =>
      d.Amid ts st := by
  intro halong
  have hr := (PlacesAt.report code expected hcode hne halong).1
  exact ⟨hr, hc.of_tokens hr (Cursor.tokens_report _ _)⟩

theorem synchronize {s : KindSet} (hs : s.contains o.kind.closing = true)
    (hc : c.Amid ts (o :: st)) :
    PlacesAt ts c (Parser.synchronize s) fun d _ => d.Amid ts (o :: st) := by
  intro halong
  have hr := moves_synchronize s c halong.closed
  refine ⟨hr, hc.skipUntil (fun c _ => .refl c) (fun _ => rfl) (fun d hfalse e he heq => ?_) hr⟩
  obtain rfl : o = e := by simpa using he
  rw [checkSet_apply, heq, hs] at hfalse
  exact Bool.noConfusion hfalse

/-- What is inside a group that is opened closes it, or gives it up. -/
theorem inGroup {p : Parser β} (hc : c.Amid ts st)
    (hk : KindSet.opener.contains c.current.kind = true)
    (h : ∀ us, c.advance.Inside ts (c.current :: us) →
      PlacesAt ts c.advance p fun d a => d.Amid ts us ∧ R d a) :
    PlacesAt ts c.advance p fun d a => d.Amid ts st ∧ R d a := by
  obtain ⟨us, hin, hus⟩ := hc
  have hs : c.Reaches c.advance := Cursor.Step.advance.reaches
  refine (h (us ++ st) (hin.opens hk)).mono fun d a hr _ hd => ⟨?_, hd.2⟩
  exact .of_blamed us hd.1 (Cursor.blames_of_reaches hus (hs.trans hr) hin.along)

theorem group {p : Parser β} (hc : c.Amid ts st)
    (hk : KindSet.opener.contains c.current.kind = true)
    (h : ∀ us, c.advance.Inside ts (c.current :: us) →
      PlacesAt ts c.advance p fun d _ => d.Amid ts us) :
    PlacesAt ts c.advance p fun d _ => d.Amid ts st := by
  have hin : PlacesAt ts c.advance p fun d _ => d.Amid ts st ∧ True :=
    .inGroup hc hk fun us hin => (h us hin).mono fun _ _ _ _ hd => ⟨hd, trivial⟩
  exact hin.mono fun _ _ _ _ hd => hd.1

/-- The end of a plain group: its closer, or a complaint and what is skipped up to a place where the
closer may stand. -/
theorem closeThen {rest : Parser β} {stop : KindSet} {ks : List TokenKind} {close : TokenKind}
    (hc : c.Amid ts (o :: st)) (ho : IsPlain o.kind) (hclose : o.kind.closing = close)
    (hcloser : KindSet.closer.contains close = true) (hstop : stop.contains close = true)
    (h : ∀ d, c.Reaches d → d.Amid ts st → PlacesAt ts d rest R) :
    PlacesAt ts c
      (do
        if (← eat close).isNone then
          Parser.unexpected ks
          let _ ← Parser.synchronize stop
          let _ ← eat close
        rest) R := by
  refine .eatThen (fun hk => ?_) fun _ => ?_
  · exact h _ Cursor.Step.advance.reaches (hc.closePlain ho (hk ▸ hcloser))
  refine .bind (unexpectedAmid hc ks) fun _ d hr₁ _ ⟨hd, hanswer⟩ => ?_
  refine .bind (synchronize (hclose ▸ hstop) hd) fun _ e hr₂ he hsync => ?_
  have hgiven : e.Amid ts st :=
    hsync.giveUp ho hd.stop_le (hr₂.start_le hd.along) (hr₂.answers hanswer)
  have hr := hr₁.trans hr₂
  refine .eatThen (fun hk => ?_) fun _ => h _ hr hgiven
  exact h _ (hr.trans Cursor.Step.advance.reaches) (hsync.closePlain ho (hk ▸ hcloser))

end PlacesAt

end DeclFront
