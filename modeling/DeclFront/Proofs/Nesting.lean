import DeclFront.Proofs.Termination

/-!
# Groups that are open

Parentheses, brackets and braces open **groups**. In a text that is well nested each closer closes
the innermost group, nothing stays open, and a terminator stands outside all groups or directly
inside braces (`WellNested`).

**What the parser leaves open** (`Cursor.Within`). Recovery may stop in the middle of a list in
brackets or parentheses and leave its group open, and a closer may be taken for that of a group
further out. Only plain groups, parentheses and brackets, are ever left open: the body of a type is
left at its own closing brace. So from inside the groups `st` a parser comes to a place inside the
groups `E ++ st` with `E` plain, and a terminator outside all groups is not consumed on the way.

**The rules** (`Leads`). A parser leads from one list of open groups to another. The rule for the
sequence of two parsers is the only one that is needed for most of the grammar; the parsers of
recovery and of bodies are dealt with by following the groups that they pass.
-/

namespace DeclFront

open DeclFront.Parser

/-! ## Groups -/

/-- What closes the group that a token of kind `k` opens. -/
def TokenKind.closing : TokenKind → TokenKind
  | .leftParen => .rightParen
  | .leftBracket => .rightBracket
  | _ => .rightBrace

theorem closer_closing (k : TokenKind) : KindSet.closer.contains k.closing = true := by
  cases k <;> decide

namespace KindSet

variable {s : KindSet} {j k : TokenKind}

/-- Kinds that a set tells apart. -/
theorem ne_of_contains (h : s.contains k = true) (hj : s.contains j = false) : k ≠ j := by
  rintro rfl
  rw [hj] at h
  exact Bool.noConfusion h

theorem opener_of_bodyStart (h : bodyStart.contains k = true) : opener.contains k = true := by
  simp [opener, union, h]

theorem not_opener_of_closer (h : closer.contains k = true) : ¬ opener.contains k = true := by
  revert h
  cases k <;> decide

end KindSet

/-- The groups that are open behind a token of kind `k`, the innermost first, where the groups `st`
are open in front of it. There are none where the token may not stand: a closer that does not close
the innermost group, or a terminator in a group other than braces. -/
def groupStep (st : List TokenKind) (k : TokenKind) : Option (List TokenKind) :=
  if KindSet.opener.contains k then some (k :: st)
  else if KindSet.closer.contains k then
    match st with
    | [] => none
    | o :: st => if o.closing = k then some st else none
  else if k = .terminator then
    match st with
    | [] => some []
    | o :: _ => if o.closing = .rightBrace then some st else none
  else some st

/-- The groups that are open behind some tokens. -/
def openGroups (st : List TokenKind) : List Token → Option (List TokenKind)
  | [] => some st
  | t :: ts => (groupStep st t.kind).bind (openGroups · ts)

/-- Each closer closes the innermost group, nothing stays open, and every terminator stands outside
all groups or directly inside braces. -/
def WellNested (ts : List Token) : Prop := openGroups [] ts = some []

instance (ts : List Token) : Decidable (WellNested ts) := inferInstanceAs (Decidable (_ = _))

theorem groupStep_opener {k : TokenKind} (h : KindSet.opener.contains k = true)
    (st : List TokenKind) : groupStep st k = some (k :: st) := by
  unfold groupStep
  rw [if_pos h]

theorem groupStep_closer {st st' : List TokenKind} {k : TokenKind}
    (h : KindSet.closer.contains k = true) (hst : groupStep st k = some st') :
    ∃ o, st = o :: st' ∧ o.closing = k := by
  unfold groupStep at hst
  rw [if_neg (KindSet.not_opener_of_closer h), if_pos h] at hst
  cases st with
  | nil => simp at hst
  | cons o st =>
    obtain ⟨ho, rfl⟩ : o.closing = k ∧ st = st' := by simpa using hst
    exact ⟨o, rfl, ho⟩

theorem groupStep_other {st st' : List TokenKind} {k : TokenKind}
    (hopen : KindSet.opener.contains k = false) (hclose : KindSet.closer.contains k = false)
    (hst : groupStep st k = some st') :
    st' = st ∧ (k = .terminator → ∀ o ∈ st.head?, o.closing = .rightBrace) := by
  unfold groupStep at hst
  rw [if_neg (by simp [hopen]), if_neg (by simp [hclose])] at hst
  by_cases hk : k = .terminator
  · rw [if_pos hk] at hst
    cases st with
    | nil => exact ⟨(Option.some.inj hst).symm, by simp⟩
    | cons o st =>
      obtain ⟨ho, rfl⟩ : o.closing = .rightBrace ∧ o :: st = st' := by simpa using hst
      exact ⟨rfl, by simpa using fun _ => ho⟩
  · rw [if_neg hk] at hst
    exact ⟨(Option.some.inj hst).symm, fun h => absurd h hk⟩

/-- A group that may be left open. -/
def IsPlain (k : TokenKind) : Prop := k = .leftParen ∨ k = .leftBracket

theorem IsPlain.closing_ne {k : TokenKind} (h : IsPlain k) : k.closing ≠ .rightBrace := by
  rcases h with rfl | rfl <;> decide

/-- A token that neither opens nor closes a group, and is no terminator. -/
def IsNeutral (k : TokenKind) : Prop :=
  KindSet.opener.contains k = false ∧ KindSet.closer.contains k = false ∧ k ≠ .terminator

instance (k : TokenKind) : Decidable (IsNeutral k) := inferInstanceAs (Decidable (_ ∧ _ ∧ _))

theorem groupStep_neutral {k : TokenKind} (h : IsNeutral k) (st : List TokenKind) :
    groupStep st k = some st := by
  simp [groupStep, h.1, h.2.1, h.2.2]

namespace Cursor

variable {c d : Cursor} {n l : Nat} {st st' E : List TokenKind} {k o : TokenKind}

/-! ## Before a terminator outside all groups -/

/-- Inside the groups `st`, before a terminator outside all groups behind which `n` tokens stand. -/
structure Nested (n : Nat) (st : List TokenKind) (c : Cursor) : Prop where
  closed : c.Closed
  balanced : ∃ us mark vs, c.tokens = us ++ mark :: vs ∧ vs.length = n ∧ mark.kind = .terminator ∧
    openGroups st us = some []

theorem Nested.of_tokens (h : c.Nested n st) (ht : d.tokens = c.tokens) : d.Nested n st :=
  ⟨by rw [Closed, ht]; exact h.closed, by rw [ht]; exact h.balanced⟩

theorem Nested.ne_endOfInput (h : c.Nested n st) : c.current.kind ≠ .endOfInput := by
  obtain ⟨us, mark, vs, htokens, -, hmark, -⟩ := h.balanced
  intro hk
  rw [tokens, h.closed.ahead_eq_nil_iff.2 hk] at htokens
  cases us with
  | nil =>
    obtain ⟨rfl, -⟩ := List.cons.inj htokens
    rw [hk] at hmark
    exact absurd hmark (by decide)
  | cons u us => simp at htokens

theorem Nested.le_left (h : c.Nested n st) : n ≤ c.left := by
  obtain ⟨us, mark, vs, htokens, hvs, -⟩ := h.balanced
  have := congrArg List.length htokens
  simp only [length_tokens, List.length_append, List.length_cons] at this
  omega

/-- The current token is consumed, unless it is the terminator outside all groups. -/
theorem Nested.exists_advance (h : c.Nested n st) (hne : st ≠ [] ∨ c.current.kind ≠ .terminator) :
    ∃ st', groupStep st c.current.kind = some st' ∧ c.advance.Nested n st' := by
  obtain ⟨us, mark, vs, htokens, hvs, hmark, hgroups⟩ := h.balanced
  rw [h.closed.tokens_advance h.ne_endOfInput] at htokens
  cases us with
  | nil =>
    obtain ⟨hcurrent, -⟩ := List.cons.inj htokens
    rcases hne with hne | hne
    · exact absurd (Option.some.inj hgroups) hne
    · exact absurd (hcurrent ▸ hmark) hne
  | cons u us =>
    obtain ⟨rfl, hrest⟩ := List.cons.inj htokens
    obtain ⟨st', hst', hus⟩ := Option.bind_eq_some_iff.1 hgroups
    exact ⟨st', hst', closed_advance h.closed, us, mark, vs, hrest, hvs, hmark, hus⟩

theorem Nested.advance_neutral (h : c.Nested n st) (hk : IsNeutral c.current.kind) :
    c.advance.Nested n st := by
  obtain ⟨st', hst', hnested⟩ := h.exists_advance (.inr hk.2.2)
  rw [groupStep_neutral hk] at hst'
  exact Option.some.inj hst' ▸ hnested

theorem Nested.advance_opener (h : c.Nested n st)
    (hk : KindSet.opener.contains c.current.kind = true) :
    c.advance.Nested n (c.current.kind :: st) := by
  have hne : c.current.kind ≠ .terminator := KindSet.ne_of_contains hk rfl
  obtain ⟨st', hst', hnested⟩ := h.exists_advance (.inr hne)
  rw [groupStep_opener hk] at hst'
  exact Option.some.inj hst' ▸ hnested

/-- A closer closes the innermost group. -/
theorem Nested.exists_advance_closer (h : c.Nested n st)
    (hk : KindSet.closer.contains c.current.kind = true) :
    ∃ o st', st = o :: st' ∧ o.closing = c.current.kind ∧ c.advance.Nested n st' := by
  have hne : c.current.kind ≠ .terminator := KindSet.ne_of_contains hk rfl
  obtain ⟨st', hst', hnested⟩ := h.exists_advance (.inr hne)
  obtain ⟨o, rfl, ho⟩ := groupStep_closer hk hst'
  exact ⟨o, st', rfl, ho, hnested⟩

/-- A terminator inside a group stands directly inside braces. -/
theorem Nested.advance_terminator (h : c.Nested n (o :: st)) (hk : c.current.kind = .terminator) :
    o.closing = .rightBrace ∧ c.advance.Nested n (o :: st) := by
  obtain ⟨st', hst', hnested⟩ := h.exists_advance (.inl (List.cons_ne_nil o st))
  rw [hk] at hst'
  obtain ⟨rfl, ho⟩ := groupStep_other (by decide) (by decide) hst'
  exact ⟨ho rfl o rfl, hnested⟩

end Cursor

variable {α β σ : Type} {c d : Cursor} {n m l : Nat} {st B E : List TokenKind} {o : TokenKind}

/-! ## Skipping -/

theorem tokens_namesDeclaration (c : Cursor) : (namesDeclaration c).2.tokens = c.tokens :=
  Cursor.tokens_peek c

theorem tokens_atDeclarationStop (c : Cursor) : (atDeclarationStop c).2.tokens = c.tokens := by
  simp only [atDeclarationStop, bind_apply, currentKind_apply]
  cases c.current.kind with
  | identifier => exact tokens_namesDeclaration c
  | _ => rfl

/-- What the skipping of one token keeps, together with the depth, holds where skipping stops: at
the end of the text, or at depth zero, where the condition holds. -/
theorem skipUntil_induction {stop : Parser Bool} {I : Nat → Cursor → Prop} (hmoves : Moves stop)
    (hclosed : ∀ depth c, I depth c → c.Closed)
    (hlook : ∀ depth c, I depth c → I depth (stop c).2 ∧ (stop c).2.current = c.current)
    (hskip : ∀ depth c d, I depth d → d.current = c.current → c.current.kind ≠ .endOfInput →
      (depth = 0 → (stop c).1 = false) → I (depthAfter depth c.current.kind) d.advance)
    (h : I 0 c) : ∃ depth, I depth (skipUntil stop c).2 ∧
      ((skipUntil stop c).2.current.kind = .endOfInput ∨
        depth = 0 ∧ ∃ d, (stop d).1 = true ∧ (skipUntil stop c).2 = (stop d).2) := by
  refine (productive_skipUntilRound hmoves).loop_induction (I := fun s => I s.1)
    (P := fun _ _ r => ∃ depth, I depth r.2 ∧ (r.2.current.kind = .endOfInput ∨
      depth = 0 ∧ ∃ d, (stop d).1 = true ∧ r.2 = (stop d).2)) (fun s => hclosed s.1) ?_ ?_ h
  · intro ⟨depth, skipped⟩ c t hc hdone
    refine ⟨depth, ?_⟩
    rcases skipUntilRound_cases stop depth skipped c with
      ⟨hk, hround⟩ | ⟨hdepth, hstop, hround⟩ | ⟨-, -, d, -, hround⟩
    · rw [hround]
      exact ⟨hc, .inl hk⟩
    · rw [hround]
      exact ⟨(hlook depth c hc).1, .inr ⟨hdepth, c, hstop, rfl⟩⟩
    · simp [hround] at hdone
  · intro ⟨depth, skipped⟩ c t hc ht _
    rcases skipUntilRound_cases stop depth skipped c with
      ⟨-, hround⟩ | ⟨-, -, hround⟩ | ⟨hk, hstop, d, hd, hround⟩
    · simp [hround] at ht
    · simp [hround] at ht
    · rw [hround] at ht ⊢
      obtain rfl := ForInStep.yield.inj ht
      have hlooked : I depth d ∧ d.current = c.current := by
        rcases hd with rfl | rfl
        · exact ⟨hc, rfl⟩
        · exact hlook depth c hc
      exact ⟨hskip depth c d hlooked.1 hlooked.2 hk hstop, fun _ h => h⟩

/-- A token that is skipped at the depth of the groups `D` changes them as it changes the depth. A
closer at depth zero closes one of the groups `E`, outside of which skipping does not lead. -/
theorem Cursor.Nested.exists_skip {D : List TokenKind} (h : c.Nested n (D ++ (E ++ B)))
    (hterminator : D = [] → B = [] → c.current.kind ≠ .terminator)
    (hcloser : D = [] → ∀ o ∈ B.head?, c.current.kind ≠ o.closing) :
    ∃ D' E', E' <:+ E ∧ D'.length = depthAfter D.length c.current.kind ∧
      c.advance.Nested n (D' ++ (E' ++ B)) := by
  cases hopen : KindSet.opener.contains c.current.kind with
  | true =>
    refine ⟨c.current.kind :: D, E, List.suffix_refl E, ?_, h.advance_opener hopen⟩
    simp [depthAfter, hopen]
  | false =>
  cases hclose : KindSet.closer.contains c.current.kind with
  | true =>
    have hdepth : depthAfter D.length c.current.kind = D.length - 1 := by
      simp [depthAfter, hopen, hclose]
    obtain ⟨o, st', hst, ho, hnested⟩ := h.exists_advance_closer hclose
    cases D with
    | cons d D =>
      obtain ⟨rfl, rfl⟩ := List.cons.inj hst
      exact ⟨D, E, List.suffix_refl E, by rw [hdepth]; rfl, hnested⟩
    | nil =>
      cases E with
      | cons e E =>
        obtain ⟨rfl, rfl⟩ := List.cons.inj hst
        exact ⟨[], E, List.suffix_cons e E, by rw [hdepth]; rfl, hnested⟩
      | nil =>
        have hst : B = o :: st' := hst
        exact absurd ho.symm (hcloser rfl o (by rw [hst]; rfl))
  | false =>
    have hdepth : depthAfter D.length c.current.kind = D.length := by
      simp [depthAfter, hopen, hclose]
    have hne : D ++ (E ++ B) ≠ [] ∨ c.current.kind ≠ .terminator := by
      by_cases hD : D = []
      · by_cases hB : B = []
        · exact .inr (hterminator hD hB)
        · exact .inl (by simp [hB])
      · exact .inl (by simp [hD])
    obtain ⟨st', hst', hnested⟩ := h.exists_advance hne
    obtain ⟨rfl, -⟩ := groupStep_other hopen hclose hst'
    exact ⟨D, E, List.suffix_refl E, hdepth.symm, hnested⟩

/-- Inside the groups `B`, some of the groups `E` and as many further ones as the depth says. -/
def Cursor.NestedAt (n : Nat) (E B : List TokenKind) (depth : Nat) (c : Cursor) : Prop :=
  ∃ D E', D.length = depth ∧ E' <:+ E ∧ c.Nested n (D ++ (E' ++ B))

/-- **Skipping stays inside its group.** Skipping from inside the groups `E ++ B` stops where its
condition holds, and leaves none of the groups `B`, if the condition holds at the closer of the
innermost of those; outside all groups, if it holds at a terminator. -/
theorem nested_skipUntil {stop : Parser Bool} (hmoves : Moves stop)
    (hlook : ∀ c, (stop c).2.tokens = c.tokens)
    (hterminator : ∀ c, (stop c).1 = false → B = [] → c.current.kind ≠ .terminator)
    (hcloser : ∀ c, (stop c).1 = false → ∀ o ∈ B.head?, c.current.kind ≠ o.closing)
    (h : c.Nested n (E ++ B)) :
    ∃ E', E' <:+ E ∧ (skipUntil stop c).2.Nested n (E' ++ B) ∧
      ∃ d, (stop d).1 = true ∧ (skipUntil stop c).2 = (stop d).2 := by
  have hcurrent (c : Cursor) : (stop c).2.current = c.current := (List.cons.inj (hlook c)).1
  obtain ⟨depth, ⟨D, E', hD, hE', hnested⟩, hend⟩ :=
    skipUntil_induction (I := Cursor.NestedAt n E B) hmoves
      (fun _ _ ⟨_, _, _, _, hc⟩ => hc.closed)
      (fun _ c ⟨D, E', hD, hE', hc⟩ => ⟨⟨D, E', hD, hE', hc.of_tokens (hlook c)⟩, hcurrent c⟩)
      (fun depth c d ⟨D, E', hD, hE', hd⟩ heq _ hstop => by
        have hstop (hnil : D = []) : (stop c).1 = false := hstop (by rw [← hD, hnil]; rfl)
        obtain ⟨D', E'', hE'', hD', hnested⟩ := hd.exists_skip
          (fun hnil => heq ▸ hterminator c (hstop hnil)) (fun hnil => heq ▸ hcloser c (hstop hnil))
        exact ⟨D', E'', by rw [hD', hD, heq], hE''.trans hE', hnested⟩)
      ⟨[], E, rfl, List.suffix_refl E, h⟩
  rcases hend with hend | ⟨rfl, hstop⟩
  · exact absurd hend hnested.ne_endOfInput
  · obtain rfl := List.eq_nil_of_length_eq_zero hD
    exact ⟨E', hE', hnested, hstop⟩

/-! ## Leading from groups to groups -/

/-- Inside the groups `st` and plain ones, with at most `l` tokens left. -/
def Cursor.Within (n : Nat) (st : List TokenKind) (l : Nat) (c : Cursor) : Prop :=
  ∃ E, (∀ k ∈ E, IsPlain k) ∧ c.Nested n (E ++ st) ∧ c.left ≤ l

theorem Cursor.Within.of_tokens (h : c.Within n st l) (ht : d.tokens = c.tokens) :
    d.Within n st l := by
  obtain ⟨E, hE, hc, hl⟩ := h
  have hleft := congrArg List.length ht
  simp only [length_tokens] at hleft
  exact ⟨E, hE, hc.of_tokens ht, by omega⟩

/-- A plain group may stay open. -/
theorem Cursor.Within.of_plain (ho : IsPlain o) (h : c.Within n (o :: st) l) : c.Within n st l := by
  obtain ⟨E, hE, hc, hl⟩ := h
  refine ⟨E ++ [o], fun k hk => ?_, by simpa using hc, hl⟩
  rcases List.mem_append.1 hk with hk | hk
  · exact hE k hk
  · rwa [List.mem_singleton.1 hk]

theorem Cursor.Within.of_plains (hE : ∀ k ∈ E, IsPlain k) (h : c.Within n (E ++ st) l) :
    c.Within n st l := by
  induction E with
  | nil => exact h
  | cons o E ih =>
    exact ih (fun k hk => hE k (List.mem_cons_of_mem o hk)) (h.of_plain (hE o List.mem_cons_self))

theorem Cursor.Within.mono {l' : Nat} (h : c.Within n st l) (hl : l ≤ l') : c.Within n st l' := by
  obtain ⟨E, hE, hc, hle⟩ := h
  exact ⟨E, hE, hc, Nat.le_trans hle hl⟩

theorem Cursor.Within.ne_endOfInput (h : c.Within n st l) : c.current.kind ≠ .endOfInput :=
  h.choose_spec.2.1.ne_endOfInput

theorem Cursor.Within.closed (h : c.Within n st l) : c.Closed := h.choose_spec.2.1.closed

/-- From the cursor `c`, if it is inside the groups `us`, with fewer than `m` tokens left, `p` comes
to a place inside the groups `vs`. -/
def LeadsAt (n m : Nat) (c : Cursor) (us vs : List TokenKind) (p : Parser α) : Prop :=
  ∀ st l, l < m → c.Within n (us ++ st) l → (p c).2.Within n (vs ++ st) l

/-- From inside the groups `us`, with fewer than `m` tokens left, `p` comes to a place inside the
groups `vs`. -/
def Leads (n m : Nat) (us vs : List TokenKind) (p : Parser α) : Prop := ∀ c, LeadsAt n m c us vs p

variable {us vs ws : List TokenKind} {p : Parser α} {k : TokenKind}

theorem LeadsAt.bind {f : α → Parser β} (hp : LeadsAt n m c us vs p)
    (hf : ∀ a, Leads n m vs ws (f a)) : LeadsAt n m c us ws (p >>= f) :=
  fun st l hl h => hf _ _ st l hl (hp st l hl h)

theorem Leads.bind {f : α → Parser β} (hp : Leads n m us vs p) (hf : ∀ a, Leads n m vs ws (f a)) :
    Leads n m us ws (p >>= f) :=
  fun c => (hp c).bind hf

/-- A parser that consumes nothing stays where it is. -/
theorem LeadsAt.stay (h : (p c).2.tokens = c.tokens) : LeadsAt n m c us us p :=
  fun _ _ _ hc => hc.of_tokens h

theorem Leads.stay (h : ∀ c, (p c).2.tokens = c.tokens) : Leads n m us us p := fun c => .stay (h c)

theorem Leads.pure (a : α) : Leads n m us us (pure a) := .stay fun _ => rfl

/-- Where `p` is followed by a parser that depends on its result, at a cursor. -/
theorem LeadsAt.look {f : α → Parser β} {a : α} (hp : p c = (a, c))
    (hf : LeadsAt n m c us vs (f a)) : LeadsAt n m c us vs (p >>= f) := by
  intro st l hl h
  rw [bind_apply, hp]
  exact hf st l hl h

theorem LeadsAt.ite {b : Prop} [Decidable b] {q : Parser α} (hp : b → LeadsAt n m c us vs p)
    (hq : ¬ b → LeadsAt n m c us vs q) : LeadsAt n m c us vs (if b then p else q) := by
  split
  · exact hp ‹_›
  · exact hq ‹_›

theorem Leads.ite {b : Prop} [Decidable b] {q : Parser α} (hp : Leads n m us vs p)
    (hq : Leads n m us vs q) : Leads n m us vs (if b then p else q) :=
  fun c => .ite (fun _ => hp c) fun _ => hq c

theorem Leads.map {f : α → β} (hp : Leads n m us vs p) : Leads n m us vs (f <$> p) := hp

/-- What leads nowhere does so inside any groups. -/
theorem Leads.inside (hp : Leads n m [] [] p) : Leads n m us us p := fun c st => hp c (us ++ st)

theorem Leads.mono {m' : Nat} (hp : Leads n m us vs p) (h : m' ≤ m) : Leads n m' us vs p :=
  fun c st l hl => hp c st l (Nat.lt_of_lt_of_le hl h)

/-- A plain group may be left open. -/
theorem Leads.plain (ho : IsPlain o) (hp : Leads n m [] [] p) : Leads n m [o] [] p :=
  fun c st l hl h => hp c st l hl (h.of_plain ho)

theorem Leads.loop {round : σ → Parser (ForInStep σ)} (h : ∀ s, Leads n m us us (round s)) (s : σ) :
    Leads n m us us (loop round s) := by
  intro c st l hl
  refine loop_induction (P := fun _ c r => c.Within n (us ++ st) l → r.2.Within n (us ++ st) l)
    ?_ ?_ ?_ s c
  · exact fun s c _ _ hc => h s c st l hl hc
  · exact fun s c _ _ _ hc => h s c st l hl hc
  · exact fun s c _ _ _ _ ih hc => ih (h s c st l hl hc)

theorem Leads.collect {round : Parser (Round α)} (h : Leads n m us us round) :
    Leads n m us us (collect round) :=
  .bind (.loop (fun _ => .bind h fun _ => .pure _) _) fun _ => .pure _

/-! ## Consuming a token -/

/-- A token that is no opener, closer or terminator. -/
theorem LeadsAt.advance (hk : IsNeutral c.current.kind) : LeadsAt n m c us us advance := by
  rintro st l hl ⟨E, hE, hc, hle⟩
  exact ⟨E, hE, hc.advance_neutral hk, Nat.le_trans (Nat.le_of_lt
    (hc.closed.left_advance_lt hc.ne_endOfInput)) hle⟩

theorem Leads.eat (hk : IsNeutral k) : Leads n m us us (eat k) := by
  intro c
  by_cases h : c.current.kind = k
  · exact .look (check_apply _ _) (.ite (fun _ => .bind (.advance (h ▸ hk)) fun _ => .pure _)
      fun _ => .stay rfl)
  · exact .stay (by rw [eat_of_ne h])

theorem Leads.unexpected (ks : List TokenKind) : Leads n m us us (unexpected ks) :=
  .stay (tokens_unexpected ks)

theorem Leads.missing (k : TokenKind) : Leads n m us us (missing k) := .stay fun c => by simp

theorem Leads.report (x : Diagnostic) : Leads n m us us (report x) := .stay fun c => by simp

/-- Behind a token that was consumed, fewer are left. -/
theorem LeadsAt.advanceThen (hk : IsNeutral c.current.kind) {f : Token → Parser α}
    (hf : ∀ t, Leads n m us vs (f t)) : LeadsAt n (m + 1) c us vs (Parser.advance >>= f) := by
  rintro st l hl ⟨E, hE, hc, hle⟩
  have hlt := hc.closed.left_advance_lt hc.ne_endOfInput
  have hnext := hf c.current c.advance st (l - 1) (by omega)
    ⟨E, hE, hc.advance_neutral hk, by omega⟩
  exact hnext.mono (Nat.sub_le l 1)

theorem Leads.eatThen (hk : IsNeutral k) {f : Option Token → Parser α}
    (hsome : ∀ t, Leads n m us vs (f (some t))) (hnone : Leads n (m + 1) us vs (f none)) :
    Leads n (m + 1) us vs (Parser.eat k >>= f) := by
  intro c st l hl h
  by_cases heq : c.current.kind = k
  · rw [bind_apply, eat_of_eq heq]
    exact LeadsAt.advanceThen (f := fun t => f (some t)) (heq ▸ hk) hsome st l hl h
  · rw [bind_apply, eat_of_ne heq]
    exact hnone c st l hl h

/-- Behind an opener, the groups that were open are those outside. -/
theorem LeadsAt.openThen (hk : KindSet.opener.contains c.current.kind = true)
    {f : Token → Parser α} (hf : ∀ t, Leads n m [c.current.kind] [] (f t)) :
    LeadsAt n (m + 1) c [] [] (Parser.advance >>= f) := by
  rintro st l hl ⟨E, hE, hc, hle⟩
  have hlt := hc.closed.left_advance_lt hc.ne_endOfInput
  have hnext := hf c.current c.advance (E ++ st) (l - 1) (by omega)
    ⟨[], by simp, hc.advance_opener hk, by omega⟩
  exact (hnext.of_plains hE).mono (Nat.sub_le l 1)

theorem Leads.eatOpenThen (hk : KindSet.opener.contains k = true) {f : Option Token → Parser α}
    (hsome : ∀ t, Leads n m [k] [] (f (some t))) (hnone : Leads n (m + 1) [] [] (f none)) :
    Leads n (m + 1) [] [] (Parser.eat k >>= f) := by
  intro c st l hl h
  by_cases heq : c.current.kind = k
  · rw [bind_apply, eat_of_eq heq]
    exact LeadsAt.openThen (f := fun t => f (some t)) (heq ▸ hk) (heq ▸ hsome) st l hl h
  · rw [bind_apply, eat_of_ne heq]
    exact hnone c st l hl h

theorem Leads.expectOpenThen (hk : KindSet.opener.contains k = true) {f : Option Token → Parser α}
    (hsome : ∀ t, Leads n m [k] [] (f (some t))) (hnone : Leads n (m + 1) [] [] (f none)) :
    Leads n (m + 1) [] [] (Parser.expect k >>= f) := by
  intro c st l hl h
  by_cases heq : c.current.kind = k
  · rw [bind_apply, expect_of_eq heq]
    exact LeadsAt.openThen (f := fun t => f (some t)) (heq ▸ hk) (heq ▸ hsome) st l hl h
  · rw [bind_apply, expect_of_ne heq]
    exact hnone _ st l hl (h.of_tokens (Cursor.tokens_report c _))

/-- A closer closes the plain group at hand, or one left open inside. -/
theorem Leads.eatCloseThen (hk : KindSet.closer.contains k = true) (ho : IsPlain o)
    {f : Option Token → Parser α} (hsome : ∀ t, Leads n m [] [] (f (some t)))
    (hnone : Leads n m [o] [] (f none)) : Leads n m [o] [] (Parser.eat k >>= f) := by
  intro c st l hl h
  by_cases heq : c.current.kind = k
  · rw [bind_apply, eat_of_eq heq]
    obtain ⟨E, hE, hc, hle⟩ := h
    obtain ⟨e, st', hst, -, hd⟩ := hc.exists_advance_closer (heq ▸ hk)
    have hle' := Nat.le_trans (Nat.le_of_lt (hc.closed.left_advance_lt hc.ne_endOfInput)) hle
    refine hsome _ _ st l hl ?_
    cases E with
    | nil =>
      obtain ⟨rfl, rfl⟩ := List.cons.inj hst
      exact ⟨[], by simp, hd, hle'⟩
    | cons e' E =>
      obtain ⟨rfl, rfl⟩ := List.cons.inj hst
      exact .of_plain ho ⟨E, fun k hk => hE k (List.mem_cons_of_mem _ hk), hd, hle'⟩
  · rw [bind_apply, eat_of_ne heq]
    exact hnone c st l hl h

theorem Leads.eatClose (hk : KindSet.closer.contains k = true) (ho : IsPlain o) :
    Leads n m [o] [] (Parser.eat k) := by
  have h := Leads.eatCloseThen (n := n) (m := m) hk ho (f := Pure.pure) (fun t => .pure (some t))
    ((Leads.pure none).plain ho)
  exact h

/-- Skipping that stops at the closer of its group stays inside. -/
theorem Leads.synchronize {s : KindSet} (hs : s.contains o.closing = true) :
    Leads n m [o] [o] (synchronize s) := by
  rintro c st l hl ⟨E, hE, hc, hle⟩
  have hmoves : Moves (checkSet s) := fun c _ => .refl c
  have hcloser (d : Cursor) (hfalse : (checkSet s d).1 = false) :
      ∀ k ∈ (o :: st).head?, d.current.kind ≠ k.closing := by
    rintro k hk heq
    obtain rfl : o = k := by simpa using hk
    rw [checkSet_apply, heq, hs] at hfalse
    simp at hfalse
  obtain ⟨E', hsuffix, hd, -⟩ := nested_skipUntil hmoves (fun _ => rfl)
    (fun _ _ hB => absurd hB (List.cons_ne_nil o st)) hcloser hc
  exact ⟨E', fun k hk => hE k (hsuffix.subset hk), hd,
    Nat.le_trans ((moves_synchronize s).left_le hc.closed) hle⟩

end DeclFront
