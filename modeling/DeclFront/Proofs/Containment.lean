import DeclFront.Proofs.Placement
import DeclFront.Proofs.Soundness

/-!
# What the spans of a tree contain

Every constituent of every module has its span in the text, around the tokens that it stores and
around the spans right below it (`Module.covers_constituents`). The exception are the loose
constituents, which may end in front of a placeholder that stands last in them
(`Module.not_covers_path`). And a placeholder is never silent: there is an error where it stands
(`Module.answers_placeholders`).

Both follow from `Module.placed_lastCursor`: where parsing stops, the whole tree is placed. That is
proved for each parser of the grammar, given as `ht` that types with fewer tokens left are placed. A
type is placed by strong induction on the tokens left.
-/

namespace DeclFront

open DeclFront.Parser

variable {α : Type} {ts kept : List Token} {m n : Nat} {c d e : Cursor}

/-! ## Tokens -/

/-- A token that a parser draws and consumes. -/
theorem taken_of_drawn (hc : c.Along ts) (hr : c.Reaches d) (hdrawn : Drawn c.tokens kept d.tokens)
    {t : Token} (ht : t ∈ kept) (hmissing : t.isMissing = false) :
    Taken c.current.start d.consumedTo t := by
  obtain ⟨us, hpass⟩ := hr.passes hc.closed
  obtain ⟨front, hfront, hkept⟩ := hdrawn.exists_front
  obtain rfl : us = front := List.append_cancel_right (hpass.tokens.symm.trans hfront)
  obtain ⟨before, hts, -⟩ := hc.passed
  have hordered : Ordered c.tokens := hc.ordered.sublist (hts ▸ List.sublist_append_right _ _)
  have hmem : t ∈ c.tokens := hpass.tokens ▸ List.mem_append_left _ (hkept t ht hmissing)
  refine ⟨?_, ?_, hmissing⟩
  · rcases List.mem_cons.1 hmem with rfl | hmem
    · exact Nat.le_refl _
    · exact Nat.le_trans (Nat.le_add_right _ _) (List.rel_of_pairwise_cons hordered hmem)
  · rw [hpass.consumedTo]
    rw [hpass.tokens] at hordered
    exact Cursor.stop_le_lastStop_of_mem (List.pairwise_append.1 hordered).1
      (hkept t ht hmissing) _

/-- The tokens that a parser draws, where they are no placeholders. -/
theorem PlacesAt.of_draws {p : Parser α} {f : α → List Token} {Q : α → Prop} (hp : Moves p)
    (hdraws : Draws [] p f Q) (hQ : ∀ a, Q a → ∀ t ∈ f a, t.isMissing = false) :
    PlacesAt ts c p fun d a => ∀ t ∈ f a, Taken c.current.start d.consumedTo t := by
  intro hc
  obtain ⟨-, ha, hdrawn⟩ := (hdraws c).drawn hc.closed
  exact ⟨hp c hc.closed, fun t ht => taken_of_drawn hc (hp c hc.closed) hdrawn ht (hQ _ ha t ht)⟩

theorem isMissing_of_kind {t : Token} {k : TokenKind} (h : t.kind = k) (hk : k ≠ .missing) :
    t.isMissing = false := by
  simp [Token.isMissing, h, hk]

/-! ## Names -/

theorem placed_path {t : Token} {us : List Token} (hd : d.Along ts) (hordered : Ordered (t :: us))
    (htaken : ∀ u ∈ t :: us, Taken t.start d.consumedTo u) :
    Placed ts t.start d (.path (.ofSegments (t :: us))) := by
  have hstop : ∀ u ∈ t :: us, u.stop ≤ lastStop t.stop us :=
    fun u hu => Cursor.stop_le_lastStop_of_mem hordered hu 0
  refine .of_leaf hd rfl (spanOf_eq hordered) ?_ ?_ fun u hu => ?_
  · exact Nat.le_trans (Nat.le_add_right _ _) (hstop t List.mem_cons_self)
  · exact Cursor.lastStop_le (htaken t List.mem_cons_self).ends
      fun u hu => (htaken u (List.mem_cons_of_mem t hu)).ends
  · exact ⟨(htaken u hu).begins, hstop u hu, (htaken u hu).isMissing⟩

theorem span_pathMissing (t : Token) : (Path.missing t).span = .point t.start := by
  simp [Path.missing, Path.ofSegments, Path.spanOf, Span.merge, Span.point]

theorem span_typeMissing (t : Token) : (TypeExpr.missing t).span = .point t.start :=
  span_pathMissing t

/-- The path that is lacking at the current token. -/
theorem placed_pathMissing (hd : d.Along ts) (h : d.Answers d.current.start) :
    Placed ts d.current.start d (.path (.missing d.current)) := by
  have hspan : (Constituent.path (.missing d.current)).span = .point d.current.start :=
    span_pathMissing _
  refine .of_children hd ?_ ?_ (.inr ⟨by rw [hspan]; rfl, ?_⟩) (fun t ht => ?_)
    fun y hy => absurd hy List.not_mem_nil
  · exact hspan ▸ Nat.le_refl _
  · exact hspan ▸ Nat.le_refl _
  · exact ⟨d.current.missing, List.mem_singleton_self _, rfl, by rw [hspan]; rfl⟩
  · obtain rfl := List.mem_singleton.1 ht
    refine ⟨?_, fun _ => h⟩
    rw [hspan, Token.span_missing]
    exact ⟨Nat.le_refl _, Nat.le_refl _⟩

theorem moves_path : Moves path := moves_of_carries fun _ => Translation.carries_path

theorem placesAt_path : PlacesAt ts c path fun d p => Placed ts c.current.start d (.path p) := by
  by_cases hk : c.current.kind = .identifier
  · intro hc
    have hr := moves_path c hc.closed
    obtain ⟨-, hname, hdrawn⟩ := (draws_path c).drawn hc.closed
    obtain ⟨segments, hpath⟩ : ∃ segments, (path c).1 = .ofSegments (c.current :: segments) := by
      exact ⟨_, by simp only [path, bind_apply, eat_of_eq hk, pure_apply]; rfl⟩
    rw [hpath] at hname hdrawn ⊢
    refine ⟨hr, ?_⟩
    have hmissing : ∀ t ∈ c.current :: segments, t.isMissing = false := by
      rcases hname with ⟨-, hkinds⟩ | ⟨t, ht, hlist⟩
      · exact fun t ht => isMissing_of_kind (hkinds t ht) (by decide)
      · have hcurrent : c.current = t := (List.cons.inj hlist).1
        rw [← hcurrent, hk] at ht
        exact absurd ht (by decide)
    have hordered : Ordered (c.current :: segments) := by
      have hsub := hdrawn.sublist_tokens
      obtain ⟨before, hts, -⟩ := hc.passed
      rw [Path.ofSegments, List.filter_eq_self.2 fun t ht => by simp [hmissing t ht]] at hsub
      exact hc.ordered.sublist (hsub.trans (hts ▸ List.sublist_append_right _ _))
    exact placed_path (hr.along hc) hordered fun t ht =>
      taken_of_drawn hc hr hdrawn ht (hmissing t ht)
  · refine .eatThen (fun h => absurd h hk) fun _ => ?_
    refine .bind (.unexpected _) fun _ d _ hd hanswer => .look (current_apply _) (.pure fun _ => ?_)
    obtain ⟨hcurrent, hanswer⟩ := hanswer
    rw [← hcurrent] at hanswer ⊢
    exact placed_pathMissing hd hanswer

/-! ## Lists in brackets -/

theorem moves_commaAndMore : Moves commaAndMore :=
  moves_of_carries fun _ => Translation.carries_commaAndMore

theorem moves_closeBracket : Moves closeBracket :=
  moves_of_carries fun _ => Translation.carries_closeBracket

/-- A list in brackets reaches from its first token to the last one consumed. -/
theorem PlacesAt.bracketed {Q : Cursor → α → Prop} {empty : DiagnosticCode}
    {round : Parser (Round α)} (hempty : Cursor.IsEmptyList empty)
    (hk : c.current.kind = .leftBracket)
    (hstable : ∀ d e a, d.Along ts → d.Reaches e → Q d a → Q e a)
    (hround : ∀ d, c.advance.Reaches d → PlacesAt ts d round fun e r => ∀ a ∈ r.item, Q e a) :
    PlacesAt ts c (bracketed empty round) fun d r =>
      r.2 = ⟨c.current.start, d.consumedTo⟩ ∧ c.current.start ≤ d.consumedTo ∧
        ∀ a ∈ r.1, Q d a := by
  intro hc
  have hne : c.current.kind ≠ .endOfInput := by simp [hk]
  have hbehind {d : Cursor} (hr : c.advance.Reaches d) : c.current.start ≤ d.consumedTo := by
    calc c.current.start ≤ c.current.stop := Nat.le_add_right _ _
      _ = c.advance.consumedTo := (hc.closed.consumedTo_advance hne).symm
      _ ≤ d.consumedTo := (hr.reached hc.advance).1
  by_cases hclose : c.advance.current.kind = .rightBracket
  · have hs : c.Step (c.skipEmpty empty) := .skipEmpty hempty hclose
    rw [bracketed_of_empty hclose]
    refine ⟨hs.reaches, rfl, ?_, fun a ha => absurd ha List.not_mem_nil⟩
    rw [Cursor.skipEmpty, Cursor.consumedTo_report]
    exact hbehind Cursor.Step.advance.reaches
  · rw [bracketed_of_ne hclose]
    have hrest : PlacesAt ts c.advance
        (do
          let items ← Parser.collect round
          closeBracket
          return (items, ⟨c.current.start, ← consumedTo⟩))
        (fun d (r : List α × Span) => r.2 = ⟨c.current.start, d.consumedTo⟩ ∧
          c.advance.Reaches d ∧ ∀ a ∈ r.1, Q d a) := by
      refine .bind (.collect hstable hround) fun items d hr hd hitems => ?_
      refine .pass moves_closeBracket fun _ e hr' _ =>
        .look (consumedTo_apply _) (.pure fun _ => ?_)
      exact ⟨rfl, hr.trans hr', fun a ha => hstable d e a hd hr' (hitems a ha)⟩
    obtain ⟨hr, hspan, hr', hitems⟩ := hrest hc.advance
    exact ⟨Cursor.Step.advance.reaches.trans hr, hspan, hbehind hr', hitems⟩

theorem placesAt_genericParams (hk : c.current.kind = .leftBracket) :
    PlacesAt ts c genericParams fun d g =>
      Placed ts c.current.start d (.generics g) ∧ g.span.stop ≤ d.consumedTo := by
  have hmoves : Moves genericParams := moves_of_carries fun _ => Translation.carries_genericParams
  have hparam : Moves genericParam := moves_of_carries fun _ => Translation.carries_genericParam
  have htaken : PlacesAt ts c genericParams fun d g =>
      ∀ t ∈ g.params, Taken c.current.start d.consumedTo t :=
    .of_draws hmoves draws_genericParams fun g hg t ht => isMissing_of_kind (hg t ht) (by decide)
  have hspan : PlacesAt ts c genericParams fun d g =>
      g.span = ⟨c.current.start, d.consumedTo⟩ ∧ c.current.start ≤ d.consumedTo := by
    refine .bind (.bracketed (Q := fun _ _ => True) (.inl rfl) hk (fun _ _ _ _ _ h => h)
      fun d _ => ?_) fun r d _ _ h => .pure fun _ => ⟨h.1, h.2.1⟩
    exact (PlacesAt.of_moves hparam).mono fun _ _ _ _ _ _ _ => trivial
  refine (htaken.and hspan).mono fun d g _ hd ⟨htaken, hspan, hle⟩ => ⟨?_, ?_⟩
  · exact .of_leaf hd rfl hspan hle (Nat.le_refl _) htaken
  · rw [hspan]

/-! ## Types inside -/

/-- The type that is lacking at the current token. -/
theorem placed_typeMissing (hd : d.Along ts) (h : d.Answers d.current.start) :
    Placed ts d.current.start d (.node (.type (.missing d.current))) := by
  have hpath := placed_pathMissing hd h
  refine .of_tight (y := .path (.missing d.current)) hd (Nat.zero_le _) List.mem_cons_self ?_
    (fun t ht => absurd ht List.not_mem_nil) fun z hz => ?_
  · simp [Constituent.span, Node.span, span_typeMissing, span_pathMissing, Span.point]
  · obtain rfl : z = .path (.missing d.current) := by
      simpa [Constituent.children, TypeExpr.missing, TypeRef.missing] using hz
    exact ⟨hpath, Nat.le_max_right _ _⟩

/-- Where a token has been answered for, a type that is lacking there is placed. -/
theorem placesAt_typeMissing (h : d.current = c.current ∧ d.Answers c.current.start) :
    PlacesAt ts d (do return TypeExpr.missing (← current)) fun e t =>
      Placed ts c.current.start e (.node (.type t)) := by
  obtain ⟨hcurrent, hanswer⟩ := h
  rw [← hcurrent] at hanswer ⊢
  exact .look (current_apply _) (.pure fun hd => placed_typeMissing hd hanswer)

/-- A parser that places a node, from wherever fewer than `n` tokens are left. -/
def PlacesNode (ts : List Token) (n : Nat) (mk : α → Node) (p : Parser α) : Prop :=
  ∀ c : Cursor, c.left < n → PlacesAt ts c p fun d a => Placed ts c.current.start d (.node (mk a))

/-- A parser that places a node, if it finds one. -/
def PlacesNode? (ts : List Token) (n : Nat) (mk : α → Node) (p : Parser (Option α)) : Prop :=
  ∀ c : Cursor, c.left < n →
    PlacesAt ts c p fun d o => ∀ a ∈ o, Placed ts c.current.start d (.node (mk a))

/-- The nodes that the rounds of a list place. -/
theorem PlacesAt.collectNodes (mk : α → Node) {round : Parser (Round α)}
    (hround : ∀ d, c.Reaches d → PlacesAt ts d round fun e r =>
      ∀ a ∈ r.item, Placed ts d.current.start e (.node (mk a))) :
    PlacesAt ts c (Parser.collect round) fun d as =>
      ∀ a ∈ as, Placed ts c.current.start d (.node (mk a)) := by
  refine .along fun hc => .collect (Q := fun d a => Placed ts c.current.start d (.node (mk a)))
    (fun d e a hd hr h => h.mono hd hr (Nat.le_refl _)) fun d hr => ?_
  exact (hround d hr).mono fun e r _ he h a ha => (h a ha).mono he (.refl e) (hr.start_le hc)

/-- Behind `async` there are fewer tokens left; without it, there are when the parenthesis is
opened. -/
theorem left_async (hk : KindSet.functionStart.contains c.current.kind = true)
    (hn : c.left < n + 1) : PlacesAt ts c (eat .async) fun d _ =>
      d.left < n ∨ d.current.kind = .leftParen ∧ d.left < n + 1 := by
  intro hc
  by_cases hasync : c.current.kind = .async
  · rw [eat_of_eq hasync]
    have hlt := hc.closed.left_advance_lt (by simp [hasync])
    exact ⟨Cursor.Step.advance.reaches, .inl (Nat.lt_of_lt_of_le hlt (Nat.le_of_lt_succ hn))⟩
  · rw [eat_of_ne hasync]
    exact ⟨.refl c, .inr ⟨by simpa [KindSet.functionStart, KindSet.ofList, hasync] using hk, hn⟩⟩

section

variable {type : Parser TypeExpr} (ht : PlacesNode ts n .type type)

include ht

theorem placesNode_param : PlacesNode ts n .param (param type) := by
  intro c hn
  have hname : PlacesAt ts c paramName fun d o =>
      ∀ t ∈ o.toList, Taken c.current.start d.consumedTo t :=
    .of_draws (moves_of_carries fun _ => Translation.carries_paramName) draws_paramName
      fun o ho t ht => isMissing_of_kind (ho t (by simpa using ht)) (by decide)
  refine .along fun hc => .look (current_apply _) (.bind hname fun name d hr hd hname => ?_)
  refine .bind (ht d (Nat.lt_of_le_of_lt hr.left_le hn)) fun t e hr' he htype => ?_
  refine .look (consumedTo_apply _) (.pure fun _ => ?_)
  refine .of_tight (y := .node (.type t)) he (Nat.le_refl _) List.mem_cons_self rfl
    (fun u hu => (hname u hu).mono (Nat.le_refl _) (hr'.reached hd).1) fun z hz => ?_
  obtain rfl := List.mem_singleton.1 hz
  exact ⟨htype.mono he (.refl e) (hr.start_le hc), Nat.le_max_right _ _⟩

theorem placesAt_params (hn : c.left < n) : PlacesAt ts c (params type) fun d ps =>
    ∀ p ∈ ps, Placed ts c.current.start d (.node (.param p)) := by
  refine .bind (.collectNodes .param fun d hr => ?_) fun found d _ hd hfound => ?_
  · refine .look (check_apply _ _) (.look (isAtEnd_apply _) (.ite (fun _ => ?_) fun _ => ?_))
    · exact .pure fun _ => by simp [Round.stop]
    refine .bind (placesNode_param ht d (Nat.lt_of_le_of_lt hr.left_le hn)) fun p e _ he hp => ?_
    refine .pass (moves_eat _) fun _ f hr' _ => .pure fun _ => ?_
    simpa using hp.mono he hr' (Nat.le_refl _)
  · have hmono {e : Cursor} (hr' : d.Reaches e) :
        ∀ p ∈ found, Placed ts c.current.start e (.node (.param p)) :=
      fun p hp => (hfound p hp).mono hd hr' (Nat.le_refl _)
    refine .pass (moves_eat _) fun _ e hr₁ _ => .ite (fun _ => ?_) fun _ => .pure fun _ => hmono hr₁
    refine .pass (moves_unexpected _) fun _ f hr₂ _ => .pass (moves_synchronize _) fun _ g hr₃ _ =>
      .pass (moves_eat _) fun _ h hr₄ _ => .pure fun _ => ?_
    exact hmono (((hr₁.trans hr₂).trans hr₃).trans hr₄)

theorem placesNode_result : PlacesNode ts n .type (result type) := by
  intro c hn
  refine .along fun hc => .eatThen (fun _ => ?_) fun _ => ?_
  · have hs : c.Reaches c.advance := Cursor.Step.advance.reaches
    refine (ht c.advance (Nat.lt_of_le_of_lt hs.left_le hn)).mono fun d t _ hd htype => ?_
    exact htype.mono hd (.refl d) (hs.start_le hc)
  · exact .bind (.missing _) fun _ d _ _ hanswer => placesAt_typeMissing hanswer

/-- Before its parameters or its result, a function consumes the token with which it begins. -/
theorem placesAt_function (hk : KindSet.functionStart.contains c.current.kind = true)
    (hn : c.left < n + 1) : PlacesAt ts c (function type) fun d x =>
      Placed ts c.current.start d (.node (.type (.function x))) := by
  refine .along fun hc => .look (current_apply _) ?_
  have hresult (async : Option Token) (found : List Param) (e : Cursor) (hr : c.Reaches e)
      (he : e.Along ts) (hn : e.left < n)
      (hfound : ∀ p ∈ found, Placed ts c.current.start e (.node (.param p))) :
      PlacesAt ts e
        (do
          let t ← Parser.result type
          return (⟨async.isSome, found, t, ⟨c.current.start, max (← consumedTo) t.span.stop⟩⟩ :
            FunctionType))
        fun d x => Placed ts c.current.start d (.node (.type (.function x))) := by
    refine .bind (placesNode_result ht e hn) fun t f hr' hf htype => ?_
    refine .look (consumedTo_apply _) (.pure fun _ => ?_)
    refine .of_tight (y := .node (.type t)) hf (Nat.le_refl _) (by simp [Constituent.children]) rfl
      (fun u hu => absurd hu List.not_mem_nil) fun z hz => ?_
    rcases List.mem_append.1 hz with hz | hz
    · -- the result is not in front of the token at which the parameters end
      obtain ⟨p, hp, rfl⟩ := List.mem_map.1 hz
      refine ⟨(hfound p hp).mono he hr' (Nat.le_refl _), Nat.le_trans ?_ (Nat.le_max_right _ _)⟩
      calc p.span.stop ≤ e.current.start := (hfound p hp).stop_le he
        _ ≤ t.span.start := htype.begins
        _ ≤ t.span.stop := htype.start_le_stop
    · obtain rfl := List.mem_singleton.1 hz
      exact ⟨htype.mono hf (.refl f) (hr.start_le hc), Nat.le_max_right _ _⟩
  refine .bind (left_async hk hn) fun async d hr hd hleft => .expectThen (fun hparen => ?_)
    fun hne => .bind (.missing _) fun _ e hr' he _ => ?_
  · have hs : d.Reaches d.advance := Cursor.Step.advance.reaches
    have hlt := hd.closed.left_advance_lt (by simp [hparen])
    refine .bind (placesAt_params ht (by omega)) fun found e hr' he hfound => ?_
    have hle := hr'.left_le
    refine hresult async found e ((hr.trans hs).trans hr') he (by omega) fun p hp => ?_
    exact (hfound p hp).mono he (.refl e) ((hr.trans hs).start_le hc)
  · have hn := hleft.resolve_right fun h => hne h.1
    exact .pureThen (hresult async [] e (hr.trans hr') he (Nat.lt_of_le_of_lt hr'.left_le hn)
      (by simp))

/-! ## Bodies in braces -/

omit ht in
theorem PlacesAt.furtherMember {mk : α → Node} {member : Parser (Option α)}
    (hmember : PlacesNode? ts n mk member) (hn : c.left < n) :
    PlacesAt ts c (furtherMember member) fun d r =>
      ∀ a ∈ r.item, Placed ts c.current.start d (.node (mk a)) := by
  refine .along fun hc => .pass (moves_skipSet _) fun _ d hr hd => ?_
  refine .pass (moves_eat _) fun _ e hr' he => .ite (fun _ => ?_) fun _ => ?_
  · exact .pure fun _ => by simp [Round.stop]
  have hr := hr.trans hr'
  refine .look (isAtEnd_apply _) (.ite (fun _ => ?_) fun _ => ?_)
  · exact .bind (.missing _) fun _ _ _ _ _ => .pure fun _ => by simp [Round.stop]
  refine .bind (hmember e (Nat.lt_of_le_of_lt hr.left_le hn)) fun item f _ hf hitem => ?_
  refine .pass (moves_closeMember _) fun _ g hr'' _ => .pure fun _ a ha => ?_
  exact (hitem a ha).mono hf hr'' (hr.start_le hc)

omit ht in
/-- A body reaches from its first token to the last one consumed. -/
theorem PlacesAt.braced {mk : α → Node} {member : Parser (Option α)}
    (hmember : PlacesNode? ts n mk member) (hk : c.current.kind ≠ .endOfInput)
    (hn : c.left < n + 1) : PlacesAt ts c (braced member) fun d r =>
      r.2 = ⟨c.current.start, d.consumedTo⟩ ∧ c.current.start ≤ d.consumedTo ∧
        ∀ a ∈ r.1, Placed ts c.current.start d (.node (mk a)) := by
  refine .along fun hc => .advance ?_
  have hs : c.Reaches c.advance := Cursor.Step.advance.reaches
  have hlt := hc.closed.left_advance_lt hk
  refine .bind (.collectNodes mk fun d hr =>
    .furtherMember hmember (Nat.lt_of_le_of_lt hr.left_le (by omega)))
    fun items d hr hd hitems => ?_
  refine .look (consumedTo_apply _) (.pure fun _ => ⟨rfl, ?_, fun a ha => ?_⟩)
  · calc c.current.start ≤ c.current.stop := Nat.le_add_right _ _
      _ = c.advance.consumedTo := (hc.closed.consumedTo_advance hk).symm
      _ ≤ d.consumedTo := (hr.reached hc.advance).1
  · exact (hitems a ha).mono hd (.refl d) (hs.start_le hc)

omit ht in
/-- The type that a body makes reaches over its members. -/
theorem placesAt_body {mk : α → Node} {member : Parser (Option α)} {F : List α → Span → TypeExpr}
    (hmember : PlacesNode? ts n mk member) (hspan : ∀ as s, (F as s).span = s)
    (hloose : ∀ as s, (Constituent.node (.type (F as s))).isLoose)
    (hstored : ∀ as s, (Constituent.node (.type (F as s))).stored = [])
    (hchildren : ∀ as s, (Constituent.node (.type (F as s))).children =
      as.map fun a => .node (mk a))
    (hk : c.current.kind ≠ .endOfInput) (hn : c.left < n + 1) :
    PlacesAt ts c
      (do
        let (as, span) ← braced member
        return F as span)
      fun d t => Placed ts c.current.start d (.node (.type t)) := by
  refine .bind (.braced hmember hk hn) fun r d _ hd ⟨hr, hle, hitems⟩ => .pure fun _ => ?_
  refine .of_loose hd ((hspan _ _).trans hr) hle (hloose _ _)
    (fun t ht => absurd ht (hstored _ _ ▸ List.not_mem_nil)) fun y hy => ?_
  rw [hchildren] at hy
  obtain ⟨a, ha, rfl⟩ := List.mem_map.1 hy
  exact hitems a ha

omit ht in
theorem placesAt_memberName : PlacesAt ts c memberName fun d o =>
    ∀ t ∈ o.toList, Taken c.current.start d.consumedTo t :=
  .of_draws (moves_of_carries fun _ => Translation.carries_memberName) draws_memberName
    fun o ho t ht => isMissing_of_kind (ho t (by simpa using ht)) (by decide)

omit ht in
theorem moves_memberColon (next : KindSet) : Moves (memberColon next) :=
  moves_of_carries fun _ => Translation.carries_memberColon next

omit ht in
theorem placesAt_assigned {ks : List TokenKind} (hend : .endOfInput ∉ ks)
    (hmissing : .missing ∉ ks) :
    PlacesAt ts c (assigned ks) fun d a =>
      ∀ t ∈ a.value?.toList, Taken c.current.start d.consumedTo t := by
  refine .of_draws (moves_of_carries fun _ => Translation.carries_assigned ks) (draws_assigned hend)
    fun a ha t ht => ?_
  exact isMissing_of_kind rfl fun hk => hmissing (hk ▸ ha t (by simpa using ht))

theorem placesNode_method : PlacesNode? ts n .method (method type) := by
  intro c hn
  refine .along fun hc => .bind placesAt_memberName fun name d hr hd hname => ?_
  cases name with
  | none => exact .pure fun _ => by simp
  | some name =>
    refine .pass (moves_memberColon _) fun go e hr' he =>
      .ite (fun _ => .pure fun _ => by simp) fun _ => ?_
    refine .look (checkSet_apply _ _) (.ite (fun hk => ?_) fun _ => ?_)
    · have hle := (hr.trans hr').left_le
      refine .bind (placesAt_function ht hk (by omega)) fun signature f hr'' hf hsignature => ?_
      refine .pure fun _ m hm => ?_
      obtain rfl := Option.some.inj hm
      have hname := hname name (by simp)
      have hbehind : name.start ≤ e.current.start :=
        (hname.mono (Nat.le_refl _) (hr'.reached hd).1).start_le he
      have hbegins : name.start ≤ signature.span.start := Nat.le_trans hbehind hsignature.begins
      have hplaced : Placed ts name.start f (.node (.method ⟨name, signature,
          name.span.merge signature.span⟩)) := by
        refine .of_tight (m := name.stop) (y := .node (.type (.function signature))) hf ?_
          List.mem_cons_self ?_ (fun t ht => ?_) fun z hz => ?_
        · exact Nat.le_trans hname.ends ((hr'.trans hr'').reached hd).1
        · show (⟨min name.start _, _⟩ : Span) = _
          rw [Nat.min_eq_left hbegins]
          rfl
        · obtain rfl := List.mem_singleton.1 ht
          exact ⟨Nat.le_refl _, Nat.le_refl _, hname.isMissing⟩
        · obtain rfl := List.mem_singleton.1 hz
          exact ⟨hsignature.mono hf (.refl f) hbehind, Nat.le_max_right _ _⟩
      exact hplaced.mono hf (.refl f) hname.begins
    · exact .bind (.unexpected _) fun _ _ _ _ _ => .pure fun _ => by simp

theorem placesNode_payload : PlacesNode? ts n .type (payload type) := by
  intro c hn
  refine .along fun hc => .eatThen (fun _ => ?_) fun _ => .pure fun _ => by simp
  have hs : c.Reaches c.advance := Cursor.Step.advance.reaches
  refine .bind (ht c.advance (Nat.lt_of_le_of_lt hs.left_le hn)) fun t d _ hd htype => ?_
  have hmono {e : Cursor} (hr : d.Reaches e) :
      ∀ u ∈ some t, Placed ts c.current.start e (.node (.type u)) := fun u hu => by
    obtain rfl := Option.some.inj hu
    exact htype.mono hd hr (hs.start_le hc)
  refine .pass (moves_eat _) fun _ e hr₁ _ => .ite (fun _ => ?_) fun _ => .pure fun _ => hmono hr₁
  refine .pass (moves_unexpected _) fun _ f hr₂ _ => .pass (moves_synchronize _) fun _ g hr₃ _ =>
    .pass (moves_eat _) fun _ h hr₄ _ => .pure fun _ => ?_
  exact hmono (((hr₁.trans hr₂).trans hr₃).trans hr₄)

theorem placesNode_variant : PlacesNode? ts n .variant (variant type) := by
  intro c hn
  refine .along fun hc => .bind placesAt_memberName fun tag d hr hd htag => ?_
  cases tag with
  | none => exact .pure fun _ => by simp
  | some tag =>
    refine .bind (placesNode_payload ht d (Nat.lt_of_le_of_lt hr.left_le hn))
      fun content e hr' he hcontent => ?_
    refine .bind (placesAt_assigned (by decide) (by decide)) fun value f hr'' hf hvalue => ?_
    have htag := htag tag (by simp)
    have hend : ∀ v ∈ (some ⟨tag, content, value.value?,
        ⟨tag.start, f.consumedTo⟩⟩ : Option Variant),
        Placed ts c.current.start f (.node (.variant v)) := by
      intro v hv
      obtain rfl := Option.some.inj hv
      have htagEnds := Nat.le_trans htag.ends ((hr'.trans hr'').reached hd).1
      have hbehind : tag.start ≤ d.current.start := htag.start_le hd
      have hplaced : Placed ts tag.start f (.node (.variant ⟨tag, content, value.value?,
          ⟨tag.start, f.consumedTo⟩⟩)) := by
        refine .of_loose hf rfl (Nat.le_trans (Nat.le_add_right _ _) htagEnds) rfl (fun t ht => ?_)
          fun z hz => ?_
        · rcases List.mem_cons.1 ht with rfl | ht
          · exact ⟨Nat.le_refl _, htagEnds, htag.isMissing⟩
          · exact (hvalue t ht).mono (Nat.le_trans hbehind (hr'.start_le hd)) (Nat.le_refl _)
        · obtain ⟨t, ht, rfl⟩ := List.mem_map.1 hz
          exact (hcontent t (by simpa using ht)).mono he hr'' hbehind
      exact hplaced.mono hf (.refl f) htag.begins
    cases value with
    | malformed => exact .pure fun _ => by simp
    | nothing => exact .look (consumedTo_apply _) (.pure fun _ => hend)
    | value v => exact .look (consumedTo_apply _) (.pure fun _ => hend)

theorem placesNode_field : PlacesNode? ts n .field (field type) := by
  intro c hn
  refine .along fun hc => .bind placesAt_memberName fun name d hr hd hname => ?_
  cases name with
  | none => exact .pure fun _ => by simp
  | some name =>
    refine .pass (moves_memberColon _) fun go e hr₁ he =>
      .ite (fun _ => .pure fun _ => by simp) fun _ => ?_
    refine .bind (ht e (Nat.lt_of_le_of_lt (hr.trans hr₁).left_le hn)) fun t f hr₂ hf htype => ?_
    refine .bind (placesAt_assigned (by decide) (by decide)) fun value g hr₃ hg hvalue => ?_
    have hname := hname name (by simp)
    have hend : ∀ x ∈ (some ⟨name, t, value.value?,
        ⟨name.start, max g.consumedTo t.span.stop⟩⟩ : Option Field),
        Placed ts c.current.start g (.node (.field x)) := by
      intro x hx
      obtain rfl := Option.some.inj hx
      have hbehind : name.start ≤ e.current.start :=
        Nat.le_trans (hname.start_le hd) (hr₁.start_le hd)
      have hplaced : Placed ts name.start g (.node (.field ⟨name, t, value.value?,
          ⟨name.start, max g.consumedTo t.span.stop⟩⟩)) := by
        refine .of_tight (y := .node (.type t)) hg (Nat.le_refl _) List.mem_cons_self rfl
          (fun u hu => ?_) fun z hz => ?_
        · rcases List.mem_cons.1 hu with rfl | hu
          · exact ⟨Nat.le_refl _,
              Nat.le_trans hname.ends (((hr₁.trans hr₂).trans hr₃).reached hd).1,
              hname.isMissing⟩
          · exact (hvalue u hu).mono (Nat.le_trans hbehind (hr₂.start_le he)) (Nat.le_refl _)
        · obtain rfl := List.mem_singleton.1 hz
          exact ⟨htype.mono hf hr₃ hbehind, Nat.le_max_right _ _⟩
      exact hplaced.mono hg (.refl g) hname.begins
    cases value with
    | malformed => exact .pure fun _ => by simp
    | nothing => exact .look (consumedTo_apply _) (.pure fun _ => hend)
    | value v => exact .look (consumedTo_apply _) (.pure fun _ => hend)

/-! ## References -/

theorem placesAt_genericArgs (hk : c.current.kind = .leftBracket) (hn : c.left < n + 1) :
    PlacesAt ts c (genericArgs type) fun d a =>
      Placed ts c.current.start d (.args a) ∧ a.span.stop ≤ d.consumedTo := by
  refine .along fun hc => .bind (.bracketed
    (Q := fun d t => Placed ts c.current.start d (.node (.type t))) (.inr rfl) hk
    (fun d e a hd hr h => h.mono hd hr (Nat.le_refl _)) fun d hr => ?_)
    fun r d _ hd ⟨hspan, hle, hitems⟩ => .pure fun _ => ⟨?_, ?_⟩
  · have hlt := hc.closed.left_advance_lt (by simp [hk])
    have hstart := (Cursor.Step.advance.reaches.trans hr).start_le hc
    refine .bind (ht d (Nat.lt_of_le_of_lt hr.left_le (by omega))) fun t e _ he htype => ?_
    refine .pass moves_commaAndMore fun _ f hr' _ => .pure fun _ => ?_
    simpa using htype.mono he hr' hstart
  · refine .of_loose hd hspan hle rfl (fun u hu => absurd hu List.not_mem_nil) fun y hy => ?_
    obtain ⟨t, ht, rfl⟩ := List.mem_map.1 hy
    exact hitems t ht
  · rw [hspan]

theorem placesAt_reference (hn : c.left < n + 1) : PlacesAt ts c (reference type) fun d r =>
    Placed ts c.current.start d (.node (.type (.reference r))) := by
  refine .along fun hc => .look (current_apply _)
    (.pass (moves_of_carries fun _ => Translation.carries_ownership) fun held d hr hd => ?_)
  refine .bind placesAt_path fun name e hr' he hname => ?_
  have hrest (args : Option GenericArgs) (f : Cursor) (hr'' : e.Reaches f) (hf : f.Along ts)
      (hargs : ∀ a ∈ args, Placed ts e.current.start f (.args a) ∧ a.span.stop ≤ f.consumedTo) :
      PlacesAt ts f
        (do
          let optional := (← eat .question).isSome
          return (⟨held, name, args, optional,
            ⟨c.current.start, max (← consumedTo) name.span.stop⟩⟩ : TypeRef))
        fun g r => Placed ts c.current.start g (.node (.type (.reference r))) := by
    refine .pass (moves_eat _) fun _ g hr₃ hg => .look (consumedTo_apply _) (.pure fun _ => ?_)
    refine .of_tight (y := .path name) hg (Nat.le_refl _) List.mem_cons_self rfl
      (fun u hu => absurd hu List.not_mem_nil) fun z hz => ?_
    rcases List.mem_cons.1 hz with rfl | hz
    · exact ⟨hname.mono he (hr''.trans hr₃) (hr.start_le hc), Nat.le_max_right _ _⟩
    · obtain ⟨a, ha, rfl⟩ := List.mem_map.1 hz
      obtain ⟨hplaced, hstop⟩ := hargs a (by simpa using ha)
      refine ⟨hplaced.mono hf hr₃ ((hr.trans hr').start_le hc), ?_⟩
      exact Nat.le_trans (Nat.le_trans hstop (hr₃.reached hf).1) (Nat.le_max_left _ _)
  refine .look (check_apply _ _) (.ite (fun hk => ?_) fun _ => ?_)
  · exact .bind (.found (placesAt_genericArgs ht (by simpa using hk)
      (Nat.lt_of_le_of_lt (hr.trans hr').left_le hn))) hrest
  · exact hrest none e (.refl e) he (by simp)

/-! ## Types -/

theorem placesAt_typeLayer (hn : c.left < n + 1) : PlacesAt ts c (typeLayer type) fun d t =>
    Placed ts c.current.start d (.node (.type t)) := by
  have hfunction (hk : KindSet.functionStart.contains c.current.kind = true) :
      PlacesAt ts c (do return TypeExpr.function (← function type)) fun d t =>
        Placed ts c.current.start d (.node (.type t)) :=
    .bind (placesAt_function ht hk hn) fun _ _ _ _ h => .pure fun _ => h
  have hreference : PlacesAt ts c (do return TypeExpr.reference (← reference type)) fun d t =>
      Placed ts c.current.start d (.node (.type t)) :=
    .bind (placesAt_reference ht hn) fun _ _ _ _ h => .pure fun _ => h
  refine .look (currentKind_apply _) ?_
  split
  · exact placesAt_body (F := .protocol) (placesNode_method ht) (fun _ _ => rfl) (fun _ _ => rfl)
      (fun _ _ => rfl) (fun _ _ => rfl) (by simp [*]) hn
  · exact placesAt_body (F := .union) (placesNode_variant ht) (fun _ _ => rfl) (fun _ _ => rfl)
      (fun _ _ => rfl) (fun _ _ => rfl) (by simp [*]) hn
  · exact placesAt_body (F := .record) (placesNode_field ht) (fun _ _ => rfl) (fun _ _ => rfl)
      (fun _ _ => rfl) (fun _ _ => rfl) (by simp [*]) hn
  · have helement : PlacesNode? ts n .type (some <$> type) := fun d hd => (ht d hd).found
    exact placesAt_body (F := .tuple) helement (fun _ _ => rfl) (fun _ _ => rfl)
      (fun _ _ => rfl) (fun _ _ => rfl) (by simp [*]) hn
  · exact hfunction (by simp [*]; rfl)
  · exact hfunction (by simp [*]; rfl)
  · exact hreference
  · exact hreference
  · exact hreference
  · exact .bind (.unexpected _) fun _ d _ _ hanswer => placesAt_typeMissing hanswer

end

theorem placesAt_type : PlacesAt ts c type fun d t =>
    Placed ts c.current.start d (.node (.type t)) := by
  have hall : ∀ n, PlacesNode ts n .type type := by
    intro n
    induction n with
    | zero => exact fun c hn => absurd hn (Nat.not_lt_zero _)
    | succ n ih =>
      exact fun c hn => .along fun hc => .congr (typeLayer_type hc.closed).symm
        (placesAt_typeLayer ih hn)
  exact hall _ c (Nat.lt_succ_self _)

/-! ## Modules -/

theorem placesAt_headerMissing (hd : d.current = c.current) : PlacesAt ts d
    (do
      report (.aboutToken .missingHeader .parsing c.current)
      return (⟨.missing c.current, .point c.current.start, true⟩ : ModuleHeader))
    fun e h => Placed ts c.current.start e (.header h) := by
  rw [← hd]
  refine .bind (.report .missingHeader .empty rfl (by decide))
    fun _ e _ he ⟨hcurrent, hanswer⟩ => .pure fun _ => ?_
  have hanswer := hanswer (by decide)
  rw [← hcurrent] at hanswer ⊢
  refine .of_tight (y := .path (.missing e.current)) he (Nat.zero_le _) List.mem_cons_self ?_
    (fun t ht => absurd ht List.not_mem_nil) fun z hz => ?_
  · simp [Constituent.span, span_pathMissing, Span.point]
  · obtain rfl := List.mem_singleton.1 hz
    exact ⟨placed_pathMissing he hanswer, Nat.le_max_right _ _⟩

theorem placesAt_header : PlacesAt ts c header fun d h =>
    Placed ts c.current.start d (.header h) := by
  refine .along fun hc => .look (current_apply _) (.look (check_apply _ _) (.ite (fun hk => ?_)
    fun _ => placesAt_headerMissing rfl))
  have hk : c.current.kind = .leftBracket := by simpa using hk
  refine .peekKind (.inr hk) (.ite (fun _ => ?_) fun _ => placesAt_headerMissing (c.current_peek))
  have hs : c.Step c.peek.2 := .peek (.inr hk)
  have hpeek := hs.along hc
  have hr : c.peek.2.advance.Reaches c.peek.2.advance.advance := Cursor.Step.advance.reaches
  have hbehind : c.current.start ≤ c.peek.2.advance.consumedTo := by
    rw [hpeek.closed.consumedTo_advance (by simp [hk]), Cursor.current_peek]
    exact Nat.le_add_right _ _
  refine .advance (.advance (.bind placesAt_path fun name d hr₁ hd hname => ?_))
  refine .pass (moves_of_carries fun _ => Translation.carries_closeHeader) fun _ e hr₂ he =>
    .look (consumedTo_apply _) (.pure fun _ => ?_)
  have hle := Nat.le_trans hbehind (((hr.trans hr₁).trans hr₂).reached hpeek.advance).1
  refine .of_loose he rfl hle rfl (fun t ht => absurd ht List.not_mem_nil) fun y hy => ?_
  obtain rfl := List.mem_singleton.1 hy
  exact hname.mono hd hr₂ (Nat.le_trans hbehind
    (Nat.le_trans (hr.reached hpeek.advance).1 hpeek.advance.advance.consumedTo_le))

theorem placesAt_definedType (isGeneric : Bool) : PlacesAt ts c (definedType isGeneric) fun d o =>
    ∀ t ∈ o, Placed ts c.current.start d (.node (.type t)) := by
  have htype (d : Cursor) (hr : c.current.start ≤ d.current.start) :
      PlacesAt ts d (do return some (← type)) fun e o =>
        ∀ t ∈ o, Placed ts c.current.start e (.node (.type t)) := by
    refine .bind placesAt_type fun t e _ he htype => .pure fun _ u hu => ?_
    obtain rfl := Option.some.inj hu
    exact htype.mono he (.refl e) hr
  refine .along fun hc => .pass (moves_eat _) fun _ d hr hd =>
    .ite (fun _ => htype d (hr.start_le hc)) fun _ => ?_
  refine .look (checkSet_apply _ _) (.ite (fun _ => ?_) fun _ => ?_)
  · exact .look (current_apply _) (.bind (.report .unexpectedGenericBody .empty rfl
      (by decide)) fun _ e hr' _ _ => htype e ((hr.trans hr').start_le hc))
  · refine .look (checkSet_apply _ _) (.ite (fun _ => ?_) fun _ => .pure fun _ => by simp)
    exact .bind (.missing _) fun _ e hr' _ _ => htype e ((hr.trans hr').start_le hc)

/-- A declaration is placed where its name, its parameters and its type are. -/
theorem placed_declaration {x : Declaration} (hc : c.Along ts) (hr : c.Reaches e) (he : e.Along ts)
    (hm : m ≤ e.consumedTo) (hspan : x.span = ⟨n, max m x.type.span.stop⟩)
    (hname : Taken n m x.name)
    (hgenerics : ∀ g ∈ x.generics, Placed ts n c (.generics g) ∧ g.span.stop ≤ c.consumedTo)
    (htype : Placed ts n e (.node (.type x.type))) (hstop : c.consumedTo ≤ max m x.type.span.stop) :
    Placed ts n e (.node (.declaration x)) := by
  refine .of_tight (y := .node (.type x.type)) he hm (by simp [Constituent.children]) hspan
    (fun t ht => ?_) fun z hz => ?_
  · obtain rfl := List.mem_singleton.1 ht
    exact hname
  rcases List.mem_append.1 hz with hz | hz
  · obtain ⟨g, hg, rfl⟩ := List.mem_map.1 hz
    obtain ⟨hplaced, hle⟩ := hgenerics g (by simpa using hg)
    exact ⟨hplaced.mono hc hr (Nat.le_refl _), Nat.le_trans hle hstop⟩
  · obtain rfl := List.mem_singleton.1 hz
    exact ⟨htype, Nat.le_max_right _ _⟩

theorem placesAt_declarationOf {name : Token} {generics : Option GenericParams}
    (hname : Taken name.start c.consumedTo name)
    (hgenerics : ∀ g ∈ generics, Placed ts name.start c (.generics g) ∧
      g.span.stop ≤ c.consumedTo) :
    PlacesAt ts c (declarationOf name generics) fun d r =>
      Placed ts name.start d (.node (.declaration r.1)) := by
  refine .along fun hc => .bind (placesAt_definedType _) fun o d hr hd htype => ?_
  have hbehind : name.start ≤ c.current.start := hname.start_le hc
  cases o with
  | some t =>
    refine .look (consumedTo_apply _) (.pure fun _ => ?_)
    have hconsumed := (hr.reached hc).1
    exact placed_declaration hc hr hd (Nat.le_refl _) rfl (hname.mono (Nat.le_refl _) hconsumed)
      hgenerics ((htype t rfl).mono hd (.refl d) hbehind)
      (Nat.le_trans hconsumed (Nat.le_max_left _ _))
  | none =>
    refine .look (current_apply _) (.bind (.unexpected _) fun _ e hr' he h => .pure fun _ => ?_)
    obtain ⟨hcurrent, hanswer⟩ := h
    have hstart := Nat.le_trans hbehind (hr.start_le hc)
    rw [← hcurrent] at hanswer hstart ⊢
    have hconsumed := ((hr.trans hr').reached hc).1
    have hspan : (TypeExpr.missing e.current).span.stop = e.current.start :=
      congrArg Span.stop (span_typeMissing _)
    refine placed_declaration (m := name.stop) hc (hr.trans hr') he
      (Nat.le_trans hname.ends hconsumed) ?_ ⟨Nat.le_refl _, Nat.le_refl _, hname.isMissing⟩
      hgenerics ((placed_typeMissing he hanswer).mono he (.refl e) hstart) ?_
    · show (⟨min name.start e.current.start, max name.stop e.current.start⟩ : Span) = _
      rw [Nat.min_eq_left hstart, hspan]
    · calc c.consumedTo ≤ e.consumedTo := hconsumed
        _ ≤ e.current.start := he.consumedTo_le
        _ = (TypeExpr.missing e.current).span.stop := hspan.symm
        _ ≤ max name.stop (TypeExpr.missing e.current).span.stop := Nat.le_max_right _ _

theorem placesAt_declaration (hk : c.current.kind = .identifier) :
    PlacesAt ts c declaration fun d x =>
      Placed ts c.current.start d (.node (.declaration x)) := by
  have hhead : PlacesAt ts c declarationHead fun d r =>
      Placed ts c.current.start d (.node (.declaration r.1)) := by
    refine .along fun hc => .advance (.look (check_apply _ _) ?_)
    have hname : Taken c.current.start c.advance.consumedTo c.current :=
      ⟨Nat.le_refl _, Nat.le_of_eq (hc.closed.consumedTo_advance (by simp [hk])).symm,
        isMissing_of_kind hk (by decide)⟩
    have hs : c.Reaches c.advance := Cursor.Step.advance.reaches
    refine .ite (fun hbracket => ?_) fun _ => placesAt_declarationOf hname (by simp)
    refine .bind (.found (placesAt_genericParams (by simpa using hbracket)))
      fun generics d hr hd h => placesAt_declarationOf
        (hname.mono (Nat.le_refl _) (hr.reached hc.advance).1) fun g hg => ?_
    exact ⟨(h g hg).1.mono hd (.refl d) (hs.start_le hc), (h g hg).2⟩
  refine .bind hhead fun (x, isComplete) d _ hd hx => .ite (fun _ => ?_) fun _ => ?_
  · exact .pass (moves_of_carries fun _ => Translation.carries_closeDeclaration) fun _ e hr _ =>
      .pure fun _ => hx.mono hd hr (Nat.le_refl _)
  · exact .pass moves_recoverDeclaration fun _ e hr _ =>
      .pure fun _ => hx.mono hd hr (Nat.le_refl _)

theorem placesAt_furtherDeclaration : PlacesAt ts c furtherDeclaration fun d r =>
    ∀ x ∈ r.item, Placed ts c.current.start d (.node (.declaration x)) := by
  have hrest (item : Option Declaration) (d : Cursor) (hd : d.Along ts)
      (h : ∀ x ∈ item, Placed ts c.current.start d (.node (.declaration x))) :
      PlacesAt ts d
        (do
          skipTerminators
          return (⟨item, true⟩ : Round Declaration))
        fun e r => ∀ x ∈ r.item, Placed ts c.current.start e (.node (.declaration x)) :=
    .pass (moves_skipSet _) fun _ e hr _ => .pure fun _ x hx => (h x hx).mono hd hr (Nat.le_refl _)
  have hgroup : Moves skipGroup := moves_of_carries fun _ => Translation.carries_skipGroup
  refine .look (isAtEnd_apply _) (.ite (fun _ => .pure fun _ => by simp [Round.stop]) fun _ => ?_)
  refine .look (check_apply _ _) (.look (checkSet_apply _ _) (.ite (fun hk => ?_) fun _ =>
    .ite (fun _ => ?_) fun _ => ?_))
  · exact .bind (.found (placesAt_declaration (by simpa using hk))) fun item d _ hd h =>
      hrest item d hd h
  · exact .pass (moves_unexpected _) fun _ d _ _ => .pass hgroup fun _ e _ he =>
      hrest none e he (by simp)
  · exact .pass (moves_unexpected _) fun _ d _ _ => .pass moves_recoverDeclaration fun _ e _ he =>
      hrest none e he (by simp)

theorem placesAt_module : PlacesAt ts c Parser.module fun d r =>
    Placed ts c.current.start d (.header r.1) ∧
      ∀ x ∈ r.2, Placed ts c.current.start d (.node (.declaration x)) := by
  refine .along fun hc => .pass (moves_skipSet _) fun _ d hr₁ hd => ?_
  refine .bind placesAt_header fun head e hr₂ he hhead =>
    .pass (moves_skipSet _) fun _ f hr₃ hf => ?_
  refine .bind (.collectNodes .declaration fun _ _ => placesAt_furtherDeclaration)
    fun ds g hr₄ hg hds => .pure fun _ => ⟨?_, fun x hx => ?_⟩
  · exact hhead.mono he (hr₃.trans hr₄) (hr₁.start_le hc)
  · exact (hds x hx).mono hg (.refl g) (((hr₁.trans hr₂).trans hr₃).start_le hc)

/-! ## Texts -/

namespace Module

/-- Where parsing a text stops, all of its tree is placed. -/
theorem placed_lastCursor (s : Source) (limit : Nat) (policy : TriviaPolicy) :
    Placed (Cursor.ofChars s.chars).tokens (Cursor.ofChars s.chars).current.start
        (lastCursor s.chars) (.header (ofSource s limit policy).header) ∧
      ∀ d ∈ (ofSource s limit policy).members, Placed (Cursor.ofChars s.chars).tokens
        (Cursor.ofChars s.chars).current.start (lastCursor s.chars) (.node (.declaration d)) :=
  (placesAt_module (Cursor.along_ofChars s.chars)).2

theorem framed_of_has {s : Source} {limit : Nat} {policy : TriviaPolicy} {x : Constituent}
    (h : (ofSource s limit policy).Has x) : x.Framed (lexSignificant s 0).tokens := by
  obtain ⟨hheader, hmembers⟩ := placed_lastCursor s limit policy
  rw [Cursor.tokens_ofChars, ← tokens_lexSignificant s 0] at hheader hmembers
  rcases h with h | ⟨d, hd, h⟩
  · exact hheader.framed x h
  · exact (hmembers d hd).framed x h

/-- **What a span contains.** Every constituent of a module, of a malformed text too, has a span
that lies in the text and contains the tokens that the constituent stores. It contains the spans of
the constituents right below, apart from one case: a header, a list of arguments, a body or a
variant ends with the last token that was consumed. Behind that there may stand, at the end of what
is below it, a placeholder, with no token in between. -/
theorem covers_constituents (s : Source) (limit : Nat) (policy : TriviaPolicy) :
    ∀ x, (ofSource s limit policy).Has x →
      x.span.start ≤ x.span.stop ∧ x.span.stop ≤ s.length ∧
      (∀ t ∈ x.stored, x.span.Covers t.span) ∧
      ∀ y ∈ x.children, x.span.Covers y.span ∨
        x.isLoose ∧ x.span.start ≤ y.span.start ∧
          (∃ t ∈ y.tokens, t.isMissing ∧ t.start = y.span.stop) ∧
          ∀ t ∈ (lexSignificant s 0).tokens, t.stop ≤ x.span.stop ∨ y.span.stop ≤ t.start := by
  intro x hx
  obtain ⟨hle, hstop, hstored, hchildren⟩ := framed_of_has hx
  have hlast : lastStop 0 (lexSignificant s 0).tokens = s.length := by
    rw [tokens_lexSignificant, lastStop_append, Source.length_eq]
    show (Position.origin.after s.chars).offset + 0 = _
    rw [Position.offset_after, Nat.add_zero]
    exact Nat.zero_add _
  refine ⟨hle, hlast ▸ hstop, hstored, fun y hy => ?_⟩
  obtain ⟨hstart, hinside | ⟨hloose, hlacking, hapart⟩⟩ := hchildren y hy
  · exact .inl ⟨hstart, hinside⟩
  · exact .inr ⟨hloose, hstart, hlacking, hapart⟩

/-- A header that breaks off at a blank. -/
theorem covers_constituents_header :
    let m := ofSource ⟨"[[ ", none⟩ 0 .discard
    m.Has (.header m.header) ∧ m.header.span.stop ≤ 3 ∧
    m.header.span.start ≤ m.header.path.span.start := by
  intro m
  have hhas : m.Has (.header m.header) := .inl .refl
  obtain ⟨-, hstop, -, hchildren⟩ := covers_constituents ⟨"[[ ", none⟩ 0 .discard _ hhas
  refine ⟨hhas, hstop, ?_⟩
  rcases hchildren (.path m.header.path) List.mem_cons_self with h | ⟨-, h, -⟩
  · exact h.1
  · exact h

/-- The span of a header may end in front of the placeholder that is its path. -/
theorem not_covers_path : ∃ x y, (ofSource ⟨"[[ ", none⟩ 0 .discard).Has x ∧ y ∈ x.children ∧
    ¬ x.span.Covers y.span :=
  ⟨_, _, .inl .refl, List.mem_cons_self, by decide +kernel⟩

/-! ## Placeholders -/

/-- At the end of a text no complaint lies ahead. -/
theorem exists_raised_of_answers {cs : List Char} (h : (lastCursor cs).Answers n) :
    ∃ d ∈ (lastCursor cs).raised, d.offset = n ∧ d.isError ∧ d.code ∈ Cursor.answering := by
  obtain ⟨d, hd, hanswer⟩ := h
  refine ⟨d, ?_, hanswer⟩
  simpa [Cursor.findings, ahead_lastCursor] using hd

/-- Without a limit, all that was raised is shown. -/
theorem mem_diagnostics_of_mem_raised {s : Source} {x : Diagnostic} (policy : TriviaPolicy)
    (h : x ∈ (lastCursor s.chars).raised) : x ∈ (ofSource s 0 policy).diagnostics := by
  show x ∈ (lastCursor s.chars).diagnostics 0
  rw [Cursor.diagnostics_zero, List.mem_mergeSort]
  exact List.mem_reverse.2 h

/-- **No placeholder is silent.** Without a limit there is, at the offset of every placeholder in a
tree, an error that a token is unexpected or missing, that the header is missing or that a character
is invalid. With any limit, a module with a placeholder has errors. -/
theorem answers_placeholders (s : Source) (policy : TriviaPolicy) :
    (∀ t ∈ (ofSource s 0 policy).tokens, t.isMissing →
      ∃ d ∈ (ofSource s 0 policy).diagnostics, d.offset = t.start ∧ d.isError ∧
        d.code ∈ [.unexpectedToken, .missingToken, .missingHeader, .invalidCharacter]) ∧
    ∀ limit, (∃ t ∈ (ofSource s limit policy).tokens, t.isMissing) →
      (ofSource s limit policy).hasErrors := by
  have hraised {limit : Nat} {t : Token} (ht : t ∈ (ofSource s limit policy).tokens)
      (hmissing : t.isMissing) : ∃ d ∈ (lastCursor s.chars).raised, d.offset = t.start ∧ d.isError ∧
        d.code ∈ Cursor.answering := by
    obtain ⟨hheader, hmembers⟩ := placed_lastCursor s limit policy
    have hanswer : (lastCursor s.chars).Answers t.start := by
      rcases mem_tokens.1 ht with ht | ⟨d, hd, ht⟩
      · exact hheader.answered t ht hmissing
      · exact (hmembers d hd).answered t ht hmissing
    exact exists_raised_of_answers hanswer
  refine ⟨fun t ht hmissing => ?_, fun limit h => ?_⟩
  · obtain ⟨d, hd, hanswer⟩ := hraised ht hmissing
    exact ⟨d, mem_diagnostics_of_mem_raised policy hd, hanswer⟩
  · obtain ⟨t, ht, hmissing⟩ := h
    obtain ⟨d, hd, -⟩ := hraised ht hmissing
    exact hasErrors_of_mem_raised s policy hd

/-- A text without a header, of whose two mistakes one is kept. -/
theorem answers_placeholders_header :
    let m := ofSource ⟨"A := ", none⟩ 1 .discard
    (∃ t ∈ m.tokens, t.isMissing) ∧ m.hasErrors := by
  intro m
  have h : ∃ t ∈ m.tokens, t.isMissing :=
    ⟨⟨.missing, .origin, 0⟩, List.mem_append_left _ (by decide +kernel), rfl⟩
  exact ⟨h, (answers_placeholders ⟨"A := ", none⟩ .discard).2 1 h⟩

end Module

end DeclFront
