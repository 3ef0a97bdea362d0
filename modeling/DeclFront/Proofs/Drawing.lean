import DeclFront.Proofs.Passage
import DeclFront.Proofs.Termination

/-!
# Drawing tokens from a text

A parser walks over the tokens of a text and keeps some of them. Whatever it keeps is **drawn**:
each token it passes is left out or taken, and in front of a token that is still there placeholders
may be put, which stand where this token stands (`Drawn`). What is drawn is in the order of the
text, no token is taken twice, and drawing goes on where it stopped (`Drawn.trans`).

A result does not have the tokens that its parser has kept so far in one place: they are in the
variables of the parser. So `Draws before p f Q` says of a parser `p` that the tokens that `f` finds
in its result are drawn by `p`, behind tokens `before` that were drawn already. In a sequence
(`Draws.bind`) the tokens of the first result go into `before` of the rest; the last step
(`Draws.pure`) has to find no other tokens in the result than those, in their order, and may drop
some: recovery drops a member of which only the name was read. `Q` is what else is known of the
result. Parsers whose results are not kept only have to consume tokens (`Skips`).
-/

namespace DeclFront

open DeclFront.Parser

variable {t : Token} {ts us vs kept kept' : List Token}

/-! ## Drawing -/

/-- From the tokens `ts` down to `us`, the tokens `kept` are drawn: each token is left out or taken,
and placeholders may stand in front of it. -/
inductive Drawn : List Token → List Token → List Token → Prop
  | nil {us : List Token} : Drawn us [] us
  | skip {t : Token} {ts us kept : List Token} (h : Drawn ts kept us) : Drawn (t :: ts) kept us
  | take {t : Token} {ts us kept : List Token} (h : Drawn ts kept us) :
    Drawn (t :: ts) (t :: kept) us
  | place {t : Token} {ts us kept : List Token} (h : Drawn (t :: ts) kept us) :
    Drawn (t :: ts) (t.missing :: kept) us

namespace Drawn

theorem trans (h : Drawn ts kept us) (h' : Drawn us kept' vs) : Drawn ts (kept ++ kept') vs := by
  induction h with
  | nil => exact h'
  | skip _ ih => exact .skip (ih h')
  | take _ ih => exact .take (ih h')
  | place _ ih => exact .place (ih h')

theorem of_suffix (h : us <:+ ts) : Drawn ts [] us := by
  obtain ⟨ws, rfl⟩ := h
  induction ws with
  | nil => exact .nil
  | cons w ws ih => exact .skip ih

/-- Of what is drawn some may be dropped. -/
theorem sublist (h : Drawn ts kept us) (hsub : kept'.Sublist kept) : Drawn ts kept' us := by
  induction h generalizing kept' with
  | nil => rw [List.sublist_nil.1 hsub]; exact .nil
  | skip _ ih => exact .skip (ih hsub)
  | take _ ih =>
    cases hsub with
    | cons _ hsub => exact .skip (ih hsub)
    | cons_cons _ hsub => exact .take (ih hsub)
  | place _ ih =>
    cases hsub with
    | cons _ hsub => exact ih hsub
    | cons_cons _ hsub => exact .place (ih hsub)

/-- What is drawn is a token or stands for one that is lacking in front of it. -/
theorem mem (h : Drawn ts kept us) : ∀ x ∈ kept, x ∈ ts ∨ ∃ t ∈ ts, x = t.missing := by
  induction h with
  | nil => simp
  | skip _ ih =>
    intro x hx
    rcases ih x hx with hx | ⟨t, ht, rfl⟩
    · exact .inl (List.mem_cons_of_mem _ hx)
    · exact .inr ⟨t, List.mem_cons_of_mem _ ht, rfl⟩
  | take _ ih =>
    intro x hx
    rcases List.mem_cons.1 hx with rfl | hx
    · exact .inl List.mem_cons_self
    · rcases ih x hx with hx | ⟨t, ht, rfl⟩
      · exact .inl (List.mem_cons_of_mem _ hx)
      · exact .inr ⟨t, List.mem_cons_of_mem _ ht, rfl⟩
  | place _ ih =>
    intro x hx
    rcases List.mem_cons.1 hx with rfl | hx
    · exact .inr ⟨_, List.mem_cons_self, rfl⟩
    · exact ih x hx

theorem exists_start_eq (h : Drawn ts kept us) {x : Token} (hx : x ∈ kept) :
    ∃ t ∈ ts, x.start = t.start := by
  rcases h.mem x hx with hx | ⟨t, ht, rfl⟩
  · exact ⟨x, hx, rfl⟩
  · exact ⟨t, ht, rfl⟩

/-- What is drawn, placeholders apart, stands in front of where drawing stops. -/
theorem exists_front (h : Drawn ts kept us) :
    ∃ front, ts = front ++ us ∧ ∀ t ∈ kept, t.isMissing = false → t ∈ front := by
  induction h with
  | nil => exact ⟨[], rfl, by simp⟩
  | @skip t _ _ _ _ ih =>
    obtain ⟨front, rfl, hkept⟩ := ih
    exact ⟨t :: front, rfl, fun u hu hmissing => List.mem_cons_of_mem t (hkept u hu hmissing)⟩
  | @take t _ _ _ _ ih =>
    obtain ⟨front, rfl, hkept⟩ := ih
    refine ⟨t :: front, rfl, fun u hu hmissing => ?_⟩
    rcases List.mem_cons.1 hu with rfl | hu
    · exact List.mem_cons_self
    · exact List.mem_cons_of_mem t (hkept u hu hmissing)
  | place _ ih =>
    obtain ⟨front, hfront, hkept⟩ := ih
    refine ⟨front, hfront, fun u hu hmissing => ?_⟩
    rcases List.mem_cons.1 hu with rfl | hu
    · exact absurd hmissing (by simp)
    · exact hkept u hu hmissing

/-- Drawing keeps the order. -/
theorem pairwise (h : Drawn ts kept us) (hts : ts.Pairwise fun t u => t.start ≤ u.start) :
    kept.Pairwise fun t u => t.start ≤ u.start := by
  induction h with
  | nil => exact .nil
  | skip _ ih => exact ih (List.pairwise_cons.1 hts).2
  | take h ih =>
    obtain ⟨ht, hts⟩ := List.pairwise_cons.1 hts
    refine List.pairwise_cons.2 ⟨fun x hx => ?_, ih hts⟩
    obtain ⟨u, hu, hstart⟩ := h.exists_start_eq hx
    exact hstart ▸ ht u hu
  | place h ih =>
    refine List.pairwise_cons.2 ⟨fun x hx => ?_, ih hts⟩
    obtain ⟨u, hu, hstart⟩ := h.exists_start_eq hx
    rcases List.mem_cons.1 hu with rfl | hu
    · exact Nat.le_of_eq hstart.symm
    · exact hstart ▸ (List.pairwise_cons.1 hts).1 u hu

/-- No token is taken twice, or out of its order. -/
theorem sublist_tokens (h : Drawn ts kept us) : (kept.filter (!·.isMissing)).Sublist ts := by
  induction h with
  | nil => exact List.nil_sublist _
  | skip _ ih => exact ih.cons _
  | @take t _ _ _ _ ih =>
    cases hmissing : t.isMissing with
    | true =>
      rw [List.filter_cons_of_neg (by simp [hmissing])]
      exact ih.cons _
    | false =>
      rw [List.filter_cons_of_pos (by simp [hmissing])]
      exact ih.cons_cons _
  | place _ ih => rwa [List.filter_cons_of_neg (by simp)]

end Drawn

/-! ## What a parser draws -/

variable {α β σ : Type} {c : Cursor} {before : List Token} {p : Parser α} {k : α → Parser β}
  {f : α → List Token} {g : β → List Token} {Q : α → Prop} {R : β → Prop}

/-- A parser that consumes tokens, whatever it makes of them. -/
def Skips (p : Parser α) : Prop :=
  ∀ c : Cursor, c.Closed → (p c).2.Closed ∧ (p c).2.tokens <:+ c.tokens

/-- From the cursor `c`, `p` gives a result of which `Q` holds, and the tokens that `f` finds in it
are among the tokens `before` and those that `p` draws, in this order. -/
def DrawsAt (c : Cursor) (before : List Token) (p : Parser α) (f : α → List Token)
    (Q : α → Prop) : Prop :=
  c.Closed → (p c).2.Closed ∧ Q (p c).1 ∧
    ∃ kept, (f (p c).1).Sublist (before ++ kept) ∧ Drawn c.tokens kept (p c).2.tokens

/-- From every cursor, `p` draws what `f` finds in its result behind the tokens `before`. -/
def Draws (before : List Token) (p : Parser α) (f : α → List Token) (Q : α → Prop) : Prop :=
  ∀ c, DrawsAt c before p f Q

theorem DrawsAt.drawn (h : DrawsAt c [] p f Q) (hc : c.Closed) :
    (p c).2.Closed ∧ Q (p c).1 ∧ Drawn c.tokens (f (p c).1) (p c).2.tokens := by
  obtain ⟨hd, hQ, kept, hsub, hdrawn⟩ := h hc
  exact ⟨hd, hQ, hdrawn.sublist hsub⟩

theorem Skips.of_moves (h : Moves p) : Skips p := fun c hc => by
  obtain ⟨ts, hpass⟩ := (h c hc).passes hc
  exact ⟨h.closed hc, ts, hpass.tokens.symm⟩

theorem Skips.of_carries {q : Parser β} {F : α → β}
    (h : ∀ n, Translation.identity.Carries n p q F) : Skips p :=
  .of_moves (moves_of_carries h)

/-- A parser that consumes nothing. -/
theorem Skips.of_stays (h : ∀ c, (p c).2.tokens = c.tokens) : Skips p := fun c hc => by
  refine ⟨?_, h c ▸ List.suffix_refl _⟩
  rw [Cursor.Closed, h c]
  exact hc

/-! ## Rules -/

theorem DrawsAt.bind (hp : DrawsAt c [] p f Q)
    (hk : ∀ a, Q a → DrawsAt (p c).2 (before ++ f a) (k a) g R) :
    DrawsAt c before (p >>= k) g R := by
  intro hc
  obtain ⟨hd, hQ, hdrawn⟩ := hp.drawn hc
  obtain ⟨he, hR, kept, hsub, hdrawn'⟩ := hk _ hQ hd
  refine ⟨he, hR, f (p c).1 ++ kept, ?_, hdrawn.trans hdrawn'⟩
  rwa [← List.append_assoc]

theorem Draws.bind (hp : Draws [] p f Q) (hk : ∀ a, Q a → Draws (before ++ f a) (k a) g R) :
    Draws before (p >>= k) g R :=
  fun c => .bind (hp c) fun a ha => hk a ha _

/-- Behind a parser whose result is not kept. -/
theorem DrawsAt.pass (hp : Skips p) (hk : DrawsAt (p c).2 before (k (p c).1) g R) :
    DrawsAt c before (p >>= k) g R := by
  intro hc
  obtain ⟨hd, hsuffix⟩ := hp c hc
  obtain ⟨he, hR, kept, hsub, hdrawn⟩ := hk hd
  exact ⟨he, hR, kept, hsub, (Drawn.of_suffix hsuffix).trans hdrawn⟩

theorem Draws.pass (hp : Skips p) (hk : ∀ a, Draws before (k a) g R) :
    Draws before (p >>= k) g R :=
  fun _ => .pass hp (hk _ _)

theorem DrawsAt.pure {a : α} (hsub : (f a).Sublist before) (hQ : Q a) :
    DrawsAt c before (pure a) f Q :=
  fun hc => ⟨hc, hQ, [], by simpa using hsub, .nil⟩

theorem Draws.pure {a : α} (hsub : (f a).Sublist before) (hQ : Q a) :
    Draws before (pure a) f Q :=
  fun _ => .pure hsub hQ

theorem Draws.pureThen {a : α} (hk : Draws before (k a) g R) :
    Draws before ((Pure.pure a : Parser α) >>= k) g R := hk

theorem DrawsAt.ite {b : Prop} [Decidable b] {q : Parser α} (hp : b → DrawsAt c before p f Q)
    (hq : ¬ b → DrawsAt c before q f Q) : DrawsAt c before (if b then p else q) f Q := by
  split
  · exact hp ‹_›
  · exact hq ‹_›

theorem Draws.ite {b : Prop} [Decidable b] {q : Parser α} (hp : Draws before p f Q)
    (hq : Draws before q f Q) : Draws before (if b then p else q) f Q :=
  fun c => .ite (fun _ => hp c) fun _ => hq c

theorem DrawsAt.map {F : α → β} (hp : DrawsAt c before p (fun a => g (F a)) fun a => R (F a)) :
    DrawsAt c before (F <$> p) g R := hp

theorem Draws.map {F : α → β} (hp : Draws before p (fun a => g (F a)) fun a => R (F a)) :
    Draws before (F <$> p) g R := hp

/-- What a loop draws is kept in its state. -/
theorem Draws.loop {round : σ → Parser (ForInStep σ)} {f : σ → List Token} {Q : σ → Prop}
    (h : ∀ s, Q s → Draws (f s) (round s) (fun r => f r.value) fun r => Q r.value) {s : σ}
    (hs : Q s) : Draws (f s) (loop round s) f Q := by
  intro c hc
  revert hs hc
  refine loop_induction (P := fun s c r => Q s → c.Closed → r.2.Closed ∧ Q r.1 ∧
    ∃ kept, (f r.1).Sublist (f s ++ kept) ∧ Drawn c.tokens kept r.2.tokens) ?_ ?_ ?_ s c
  · intro s c t ht hs hc
    have := h s hs c hc
    rwa [ht] at this
  · intro s c t ht _ hs hc
    have := h s hs c hc
    rwa [ht] at this
  · intro s c t r ht _ ih hs hc
    obtain ⟨hd, hQ, kept, hsub, hdrawn⟩ := h s hs c hc
    rw [ht] at hQ hsub
    obtain ⟨he, hQ', kept', hsub', hdrawn'⟩ := ih hQ hd
    refine ⟨he, hQ', kept ++ kept', ?_, hdrawn.trans hdrawn'⟩
    rw [← List.append_assoc]
    exact hsub'.trans (hsub.append_right kept')

/-- The last round of a list has no item. -/
theorem Draws.stop : Draws [] (Pure.pure (Round.stop : Round α))
    (fun r => r.item.toList.flatMap f) fun r => ∀ a ∈ r.item.toList, Q a :=
  .pure (by simp [Round.stop]) (by simp [Round.stop])

/-- The items of a list are drawn one behind the other. -/
theorem Draws.collect {round : Parser (Round α)}
    (h : Draws [] round (fun r => r.item.toList.flatMap f) fun r => ∀ a ∈ r.item.toList, Q a) :
    Draws [] (collect round) (·.flatMap f) fun as => ∀ a ∈ as, Q a := by
  have hloop : Draws [] (Parser.loop (collectRound round) []) (·.reverse.flatMap f)
      fun as => ∀ a ∈ as, Q a := by
    refine Draws.loop (f := fun as => as.reverse.flatMap f) (Q := fun as => ∀ a ∈ as, Q a)
      (s := []) (fun found hfound => ?_) fun _ h => absurd h List.not_mem_nil
    refine .bind h fun r hr => .pure ?_ ?_
    · obtain ⟨item, again⟩ := r
      cases item <;> cases again <;> simp [ForInStep.value]
    · obtain ⟨item, again⟩ := r
      cases item <;> cases again <;> simp_all [ForInStep.value]
  refine .bind hloop fun found hfound => .pure ?_ ?_
  · simp
  · simpa using hfound

/-! ## The primitive parsers -/

theorem skips_advance : Skips advance := .of_moves moves_advance

theorem skips_eat (k : TokenKind) : Skips (eat k) := .of_moves (moves_eat k)

theorem skips_unexpected (ks : List TokenKind) : Skips (unexpected ks) :=
  .of_moves (moves_unexpected ks)

theorem skips_skipSet (s : KindSet) : Skips (skipSet s) := .of_moves (moves_skipSet s)

theorem skips_synchronize (s : KindSet) : Skips (synchronize s) := .of_moves (moves_synchronize s)

theorem skips_missing (k : TokenKind) : Skips (missing k) := .of_stays fun c => by simp

theorem skips_report (x : Diagnostic) : Skips (report x) := .of_stays fun c => by simp

theorem skips_pure (a : α) : Skips (pure a) := .of_stays fun _ => rfl

theorem skips_current : Skips current := .of_stays fun _ => rfl

theorem skips_currentKind : Skips currentKind := .of_stays fun _ => rfl

theorem skips_consumedTo : Skips consumedTo := .of_stays fun _ => rfl

theorem skips_check (k : TokenKind) : Skips (check k) := .of_stays fun _ => rfl

theorem skips_checkSet (s : KindSet) : Skips (checkSet s) := .of_stays fun _ => rfl

theorem skips_isAtEnd : Skips isAtEnd := .of_stays fun _ => rfl

theorem skips_peekKind : Skips peekKind := .of_stays fun c => by simp

/-- A token that is not the end of input is drawn where it is consumed. -/
theorem DrawsAt.advance {k : Token → Parser α} (hk : c.current.kind ≠ .endOfInput)
    (h : DrawsAt c.advance (before ++ [c.current]) (k c.current) f Q) :
    DrawsAt c before (Parser.advance >>= k) f Q := by
  intro hc
  obtain ⟨hd, hQ, kept, hsub, hdrawn⟩ := h (Cursor.closed_advance hc)
  refine ⟨hd, hQ, c.current :: kept, by simpa using hsub, ?_⟩
  rw [hc.tokens_advance hk]
  exact .take hdrawn

theorem draws_eat {k : TokenKind} (hk : k ≠ .endOfInput) :
    Draws [] (eat k) Option.toList fun o => ∀ t ∈ o, t.kind = k := by
  intro c hc
  by_cases h : c.current.kind = k
  · rw [eat_of_eq h]
    refine ⟨Cursor.closed_advance hc, by simpa using h, [c.current], by simp, ?_⟩
    rw [hc.tokens_advance (h ▸ hk)]
    exact .take .nil
  · rw [eat_of_ne h]
    exact ⟨hc, by simp, [], by simp, .nil⟩

/-- The current token may be kept as the place of one that is lacking. -/
theorem draws_place : Draws [] current (fun t => [t.missing]) fun _ => True :=
  fun _ hc => ⟨hc, trivial, _, by simp, .place .nil⟩

end DeclFront
