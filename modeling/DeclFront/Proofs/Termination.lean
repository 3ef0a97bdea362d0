import DeclFront.Proofs.TypeRecursion

/-!
# Every round of a loop consumes a token

A loop of the grammar or of recovery goes on only from a cursor with fewer tokens left
(`productive_of_isLoop`), so it ends with a round that is done, and an invariant of its rounds is
all that is needed to tell what it does (`Productive.loop_induction`). Most rounds consume a token
before they say that another one is to follow. A member of a body and a declaration need more care,
since a placeholder or a malformed member consumes nothing: then the current token is one at which
skipping does not stop, and skipping consumes it.
-/

namespace DeclFront

open DeclFront.Parser

variable {α β σ : Type} {c d : Cursor}

namespace Cursor

/-- A sequence of moves consumes the current token or leaves it current. -/
theorem Reaches.left_lt_or_current (h : c.Reaches d) (hc : c.Closed) :
    d.left < c.left ∨ d.current = c.current := by
  refine (h.keeps (P := fun e => e.Closed ∧ e.left ≤ c.left ∧
    (e.left < c.left ∨ e.current = c.current)) ?_ ⟨hc, Nat.le_refl _, .inr rfl⟩).2.2
  intro d e hs ⟨hd, hle, hlt⟩
  refine ⟨hs.closed hd, Nat.le_trans hs.left_le hle, ?_⟩
  rcases hlt with hlt | hcurrent
  · exact .inl (Nat.lt_of_le_of_lt hs.left_le hlt)
  cases hs with
  | peek => exact .inr (by simpa using hcurrent)
  | complain => exact .inr (by simpa using hcurrent)
  | advance =>
    by_cases hk : d.current.kind = .endOfInput
    · exact .inr (by rwa [hd.advance_of_end hk])
    · exact .inl (Nat.lt_of_lt_of_le (hd.left_advance_lt hk) hle)
  | skipEmpty _ hclose =>
    by_cases hk : d.current.kind = .endOfInput
    · rw [hd.advance_of_end hk, hk] at hclose
      exact absurd hclose (by decide)
    · refine .inl (Nat.lt_of_le_of_lt ?_ (Nat.lt_of_lt_of_le (hd.left_advance_lt hk) hle))
      simp [Cursor.skipEmpty, Cursor.left_advance]

end Cursor

/-! ## Parsers as moves -/

/-- A parser that is a sequence of moves from every cursor. -/
def Moves (p : Parser α) : Prop := ∀ c : Cursor, c.Closed → c.Reaches (p c).2

theorem moves_of_carries {p : Parser α} {q : Parser β} {F : α → β}
    (h : ∀ n, Translation.identity.Carries n p q F) : Moves p :=
  fun c hc => (h _ c (Nat.lt_succ_self _) hc).1

theorem Moves.closed {p : Parser α} (h : Moves p) (hc : c.Closed) : (p c).2.Closed :=
  (h c hc).closed hc

theorem Moves.left_le {p : Parser α} (h : Moves p) (hc : c.Closed) : (p c).2.left ≤ c.left :=
  (h c hc).left_le

theorem Moves.bind {p : Parser α} {k : α → Parser β} (hp : Moves p) (hk : ∀ a, Moves (k a)) :
    Moves (p >>= k) :=
  fun c hc => (hp c hc).trans (hk _ _ (hp.closed hc))

theorem Moves.pure (a : α) : Moves (pure a) := fun c _ => .refl c

theorem Moves.ite {b : Prop} [Decidable b] {p q : Parser α} (hp : Moves p) (hq : Moves q) :
    Moves (if b then p else q) := by
  split
  · exact hp
  · exact hq

/-- What begins with consuming a token leaves fewer. -/
theorem Moves.left_advanceThen_lt {k : Token → Parser α} (hk : ∀ t, Moves (k t)) (hc : c.Closed)
    (hne : c.current.kind ≠ .endOfInput) : ((advance >>= k) c).2.left < c.left :=
  Nat.lt_of_le_of_lt ((hk c.current).left_le (Cursor.closed_advance hc)) (hc.left_advance_lt hne)

theorem Moves.loop {round : σ → Parser (ForInStep σ)} (h : ∀ s, Moves (round s)) (s : σ) :
    Moves (loop round s) := by
  intro c hc
  revert hc
  refine loop_induction (P := fun s c r => c.Closed → c.Reaches r.2) ?_ ?_ ?_ s c
  · exact fun s c _ _ hc => h s c hc
  · exact fun s c _ _ _ hc => h s c hc
  · exact fun s c _ _ _ _ ih hc => (h s c hc).trans (ih ((h s).closed hc))

theorem moves_advance : Moves advance := moves_of_carries fun _ => Translation.carries_advance

theorem moves_eat (k : TokenKind) : Moves (eat k) :=
  moves_of_carries fun _ => Translation.carries_eat k

theorem moves_unexpected (ks : List TokenKind) : Moves (unexpected ks) :=
  moves_of_carries fun _ => Translation.carries_unexpected ks

theorem moves_skipSet (s : KindSet) : Moves (skipSet s) :=
  moves_of_carries fun _ => Translation.carries_skipSet s

theorem moves_synchronize (s : KindSet) : Moves (synchronize s) :=
  moves_of_carries fun _ => Translation.carries_synchronize s

theorem moves_recoverMember : Moves recoverMember :=
  moves_of_carries fun _ => Translation.carries_recoverMember

theorem moves_recoverDeclaration : Moves recoverDeclaration :=
  moves_of_carries fun _ => Translation.carries_recoverDeclaration

theorem moves_type : Moves type := fun _ => reaches_type

theorem moves_method : Moves (method type) :=
  moves_of_carries fun _ => Translation.Carries.method Translation.carries_type

theorem moves_variant : Moves (variant type) :=
  moves_of_carries fun _ => Translation.Carries.variant Translation.carries_type

theorem moves_field : Moves (field type) :=
  moves_of_carries fun _ => Translation.Carries.field Translation.carries_type

theorem moves_element : Moves (some <$> type) := moves_type

/-! ## Productive rounds -/

/-- A round that says that another one is to follow has consumed a token. -/
def Productive (round : σ → Parser (ForInStep σ)) : Prop :=
  ∀ (s : σ) (c : Cursor) (t : σ), c.Closed → (round s c).1 = .yield t → (round s c).2.left < c.left

/-- The loops of the grammar and of recovery, by their rounds. -/
inductive IsLoop : {σ : Type} → (σ → Parser (ForInStep σ)) → Prop
  | terminators : IsLoop (skipRound (.ofList [.terminator]))
  | separators : IsLoop (skipRound .separator)
  | synchronize (stop : KindSet) : IsLoop (skipUntilRound (checkSet stop))
  | recoverDeclaration : IsLoop (skipUntilRound atDeclarationStop)
  | segments : IsLoop (collectRound furtherSegment)
  | genericParams : IsLoop (collectRound genericParam)
  | genericArgs : IsLoop (collectRound (genericArg type))
  | params : IsLoop (collectRound (furtherParam type))
  | methods : IsLoop (collectRound (furtherMember (method type)))
  | variants : IsLoop (collectRound (furtherMember (variant type)))
  | fields : IsLoop (collectRound (furtherMember (field type)))
  | elements : IsLoop (collectRound (furtherMember (some <$> type)))
  | declarations : IsLoop (collectRound furtherDeclaration)

/-- Where every round is productive, the guard of a loop does not come into play. -/
theorem Productive.loop_yield {round : σ → Parser (ForInStep σ)} (h : Productive round) {s t : σ}
    (hc : c.Closed) (ht : (round s c).1 = .yield t) :
    loop round s c = loop round t (round s c).2 := by
  rw [loop_apply, ht]
  exact if_pos (h s c t hc ht)

/-- Where every round is productive, a loop is left by a round that is done. Let `I` hold in front
of every round. Then what holds behind the last round, and in front of any other one when it holds
behind it, holds of the whole loop. -/
theorem Productive.loop_induction {round : σ → Parser (ForInStep σ)} (h : Productive round)
    {I : σ → Cursor → Prop} {P : σ → Cursor → σ × Cursor → Prop}
    (hclosed : ∀ s c, I s c → c.Closed)
    (hdone : ∀ s c t, I s c → (round s c).1 = .done t → P s c (t, (round s c).2))
    (hyield : ∀ s c t, I s c → (round s c).1 = .yield t → (round s c).2.left < c.left →
      I t (round s c).2 ∧ ∀ r, P t (round s c).2 r → P s c r)
    {s : σ} (hs : I s c) : P s c (loop round s c) := by
  revert hs
  refine Parser.loop_induction (P := fun s c r => I s c → P s c r) ?_ ?_ ?_ s c
  · exact fun s c t ht hs => hdone s c t hs ht
  · exact fun s c t ht hle hs => absurd (h s c t (hclosed s c hs) ht) hle
  · intro s c t r ht hlt ih hs
    obtain ⟨hnext, hback⟩ := hyield s c t hs ht hlt
    exact hback r (ih hnext)

theorem productive_collectRound {round : Parser (Round α)}
    (h : ∀ c : Cursor, c.Closed → (round c).1.again = true → (round c).2.left < c.left) :
    Productive (collectRound round) :=
  fun _ c _ hc ht => h c hc (collectRound_eq_yield_iff.1 ht).1

theorem productive_skipRound {s : KindSet} (hs : s.contains .endOfInput = false) :
    Productive (skipRound s) := by
  intro u c t hc ht
  obtain ⟨hk, hround⟩ := skipRound_of_yield ht
  rw [hround]
  exact hc.left_advance_lt fun h => by simp [h, hs] at hk

/-- **One round of skipping.** It is the last one at the end of input, and where the condition holds
at depth zero. Otherwise the current token is skipped; the condition may have looked ahead
before. -/
theorem skipUntilRound_cases (stop : Parser Bool) (depth skipped : Nat) (c : Cursor) :
    (c.current.kind = .endOfInput ∧
      skipUntilRound stop (depth, skipped) c = (.done (depth, skipped), c)) ∨
    (depth = 0 ∧ (stop c).1 = true ∧
      skipUntilRound stop (depth, skipped) c = (.done (depth, skipped), (stop c).2)) ∨
    (c.current.kind ≠ .endOfInput ∧ (depth = 0 → (stop c).1 = false) ∧
      ∃ d, (d = c ∨ d = (stop c).2) ∧ skipUntilRound stop (depth, skipped) c =
        (.yield (depthAfter depth c.current.kind, skipped + 1), d.advance)) := by
  by_cases hk : c.current.kind = .endOfInput
  · exact .inl ⟨hk, by simp [skipUntilRound, hk]⟩
  by_cases hdepth : depth = 0
  · cases hs : (stop c).1 with
    | true => exact .inr (.inl ⟨hdepth, rfl, by simp [skipUntilRound, hk, hdepth, hs]⟩)
    | false =>
      exact .inr (.inr ⟨hk, fun _ => rfl, _, .inr rfl, by simp [skipUntilRound, hk, hdepth, hs]⟩)
  · exact .inr (.inr ⟨hk, fun h => absurd h hdepth, c, .inl rfl,
      by simp [skipUntilRound, hk, hdepth]⟩)

/-- A round of skipping consumes a token, or it is the last one. -/
theorem skipUntilRound_spec {stop : Parser Bool} (h : Moves stop) (s : Nat × Nat) (hc : c.Closed) :
    c.Reaches (skipUntilRound stop s c).2 ∧
      ∀ t, (skipUntilRound stop s c).1 = .yield t → (skipUntilRound stop s c).2.left < c.left := by
  obtain ⟨depth, skipped⟩ := s
  rcases skipUntilRound_cases stop depth skipped c with
    ⟨-, hround⟩ | ⟨-, -, hround⟩ | ⟨hk, -, d, hd, hround⟩ <;> rw [hround]
  · exact ⟨.refl c, fun _ ht => nomatch ht⟩
  · exact ⟨h c hc, fun _ ht => nomatch ht⟩
  · have hr : c.Reaches d := by
      rcases hd with rfl | rfl
      · exact .refl d
      · exact h c hc
    refine ⟨hr.trans Cursor.Step.advance.reaches, fun _ _ => ?_⟩
    rcases hr.left_lt_or_current hc with hlt | hcurrent
    · exact Nat.lt_of_le_of_lt Cursor.Step.advance.left_le hlt
    · exact Nat.lt_of_lt_of_le ((hr.closed hc).left_advance_lt (hcurrent ▸ hk)) hr.left_le

theorem Moves.skipUntil {stop : Parser Bool} (h : Moves stop) : Moves (skipUntil stop) :=
  .bind (.loop (fun s _ hc => (skipUntilRound_spec h s hc).1) _) fun _ => .pure _

theorem productive_skipUntilRound {stop : Parser Bool} (h : Moves stop) :
    Productive (skipUntilRound stop) :=
  fun s _ t hc => (skipUntilRound_spec h s hc).2 t

/-- Skipping consumes the current token unless it stops there. -/
theorem left_skipUntil_lt {stop : Parser Bool} (h : Moves stop) (hc : c.Closed)
    (hk : c.current.kind ≠ .endOfInput) (hstop : (stop c).1 = false) :
    (skipUntil stop c).2.left < c.left := by
  have hyield : (skipUntilRound stop (0, 0) c).1 = .yield (depthAfter 0 c.current.kind, 1) := by
    simp [skipUntilRound, hk, hstop]
  have hlt := productive_skipUntilRound h _ c _ hc hyield
  have hloop : Moves (loop (skipUntilRound stop) (depthAfter 0 c.current.kind, 1)) :=
    .loop (fun s _ hd => (skipUntilRound_spec h s hd).1) _
  show (loop (skipUntilRound stop) (0, 0) c).2.left < c.left
  rw [Productive.loop_yield (productive_skipUntilRound h) hc hyield]
  exact Nat.lt_of_le_of_lt (hloop.left_le ((skipUntilRound_spec h _ hc).1.closed hc)) hlt

theorem left_recoverMember_lt (hc : c.Closed) (hk : c.current.kind ≠ .endOfInput)
    (hstop : KindSet.memberStop.contains c.current.kind = false) :
    (recoverMember c).2.left < c.left :=
  left_skipUntil_lt (fun c _ => .refl c) hc hk hstop

theorem left_commaAndMore_lt (hc : c.Closed) (h : (commaAndMore c).1 = true) :
    (commaAndMore c).2.left < c.left := by
  by_cases hk : c.current.kind = .comma
  · simpa [commaAndMore, eat_of_eq hk] using hc.left_advance_lt (by simp [hk])
  · simp [commaAndMore, eat_of_ne hk] at h

theorem left_furtherSegment_lt (hc : c.Closed) (h : (furtherSegment c).1.again = true) :
    (furtherSegment c).2.left < c.left := by
  by_cases hk : c.current.kind = .dot ∨ c.current.kind = .colonColon
  · have hlt := hc.left_advance_lt (by rcases hk with hk | hk <;> simp [hk])
    by_cases hi : c.advance.current.kind = .identifier
    · simp only [furtherSegment, bind_apply, check_apply]
      rw [if_pos (by simpa using hk)]
      simpa [eat_of_eq hi] using
        Nat.lt_of_le_of_lt Cursor.Step.advance.left_le hlt
    · simp only [furtherSegment, bind_apply, check_apply] at h
      rw [if_pos (by simpa using hk)] at h
      simp [eat_of_ne hi, Round.stop] at h
  · simp only [furtherSegment, bind_apply, check_apply] at h
    rw [if_neg (by simpa using hk)] at h
    simp [Round.stop] at h

theorem left_genericParam_lt (hc : c.Closed) (h : (genericParam c).1.again = true) :
    (genericParam c).2.left < c.left := by
  by_cases hk : c.current.kind = .identifier
  · simp only [genericParam, bind_apply, eat_of_eq hk, pure_apply] at h ⊢
    exact Nat.lt_of_lt_of_le (left_commaAndMore_lt (Cursor.closed_advance hc) h)
      Cursor.Step.advance.left_le
  · simp [genericParam, eat_of_ne hk, Round.stop] at h

theorem left_genericArg_lt (hc : c.Closed) (h : (genericArg type c).1.again = true) :
    (genericArg type c).2.left < c.left :=
  Nat.lt_of_lt_of_le (left_commaAndMore_lt (moves_type.closed hc) h) (moves_type.left_le hc)

theorem left_furtherParam_lt (hc : c.Closed) (h : (furtherParam type c).1.again = true) :
    (furtherParam type c).2.left < c.left := by
  have hparam : Moves (param type) :=
    moves_of_carries fun _ => Translation.Carries.param Translation.carries_type
  by_cases hk : c.current.kind = .rightParen ∨ c.current.kind = .endOfInput
  · simp only [furtherParam, bind_apply, check_apply, isAtEnd_apply] at h
    rw [if_pos (by simpa using hk)] at h
    simp [Round.stop] at h
  · simp only [furtherParam, bind_apply, check_apply, isAtEnd_apply] at h ⊢
    rw [if_neg (by simpa using hk)] at h ⊢
    simp only [bind_apply, pure_apply] at h ⊢
    by_cases hcomma : (param type c).2.current.kind = .comma
    · rw [eat_of_eq hcomma]
      exact Nat.lt_of_lt_of_le ((hparam.closed hc).left_advance_lt (by simp [hcomma]))
        (hparam.left_le hc)
    · simp [eat_of_ne hcomma] at h

/-- Skipping a set of kinds stops behind them. -/
theorem contains_skipSet {s : KindSet} (hs : s.contains .endOfInput = false) (hc : c.Closed) :
    s.contains (skipSet s c).2.current.kind = false := by
  refine (productive_skipRound hs).loop_induction (I := fun _ c => c.Closed)
    (P := fun _ _ r => s.contains r.2.current.kind = false) (fun _ _ hc => hc) ?_ ?_ hc
  · intro u c t _ hdone
    obtain ⟨hk, hround⟩ := skipRound_of_done hdone
    rwa [hround]
  · intro u c t hc hyield _
    rw [(skipRound_of_yield hyield).2]
    exact ⟨Cursor.closed_advance hc, fun _ h => h⟩

/-- Behind a member that was not found, the token at hand is skipped unless it ends the member. -/
theorem left_closeMember_lt (hc : c.Closed) (hk : c.current.kind ≠ .endOfInput)
    (hstop : KindSet.memberStop.contains c.current.kind = false) (found : Bool) :
    (closeMember found c).2.left < c.left := by
  have hskip := left_recoverMember_lt hc hk hstop
  cases found with
  | true =>
    have hu := moves_unexpected [.comma, .terminator, .rightBrace] c hc
    have hcurrent := current_unexpected [.comma, .terminator, .rightBrace] c
    have := left_recoverMember_lt (hu.closed hc) (by rwa [hcurrent]) (by rwa [hcurrent])
    simpa [closeMember, hk, hstop] using Nat.lt_of_lt_of_le this hu.left_le
  | false =>
    have hmoves : Moves (closeMember true) :=
      moves_of_carries fun _ => Translation.carries_closeMember true
    exact Nat.lt_of_le_of_lt (hmoves.left_le (moves_recoverMember.closed hc)) hskip

/-- Behind the separators, a member that consumes nothing is skipped. -/
theorem left_furtherMember_lt {member : Parser (Option α)} (hm : Moves member) (hc : c.Closed)
    (h : (furtherMember member c).1.again = true) : (furtherMember member c).2.left < c.left := by
  have hr := moves_skipSet .separator c hc
  have hsep := contains_skipSet (s := .separator) rfl hc
  simp only [furtherMember, bind_apply] at h ⊢
  generalize (skipSet .separator c).2 = d at h hr hsep ⊢
  have hd := hr.closed hc
  by_cases hbrace : d.current.kind = .rightBrace
  · simp [eat_of_eq hbrace, Round.stop] at h
  rw [eat_of_ne hbrace] at h ⊢
  by_cases hend : d.current.kind = .endOfInput
  · simp [hend, Round.stop] at h
  have hstop : KindSet.memberStop.contains d.current.kind = false := by
    simp [KindSet.memberStop, KindSet.insert, hsep, hbrace]
  have hclose (found : Bool) : Moves (closeMember found) :=
    moves_of_carries fun _ => Translation.carries_closeMember found
  have hlt : (closeMember (member d).1.isSome (member d).2).2.left < d.left := by
    rcases (hm d hd).left_lt_or_current hd with hlt | hcurrent
    · exact Nat.lt_of_le_of_lt ((hclose _).left_le (hm.closed hd)) hlt
    · exact Nat.lt_of_lt_of_le (left_closeMember_lt (hm.closed hd) (by rwa [hcurrent])
        (by rwa [hcurrent]) _) (hm d hd).left_le
  simpa [hend] using Nat.lt_of_lt_of_le hlt hr.left_le

/-! ## Declarations -/

theorem moves_atDeclarationStop : Moves atDeclarationStop :=
  moves_of_carries fun _ => Translation.carries_atDeclarationStop

theorem left_declarationHead_lt (hc : c.Closed) (hk : c.current.kind ≠ .endOfInput) :
    (declarationHead c).2.left < c.left := by
  refine Moves.left_advanceThen_lt (fun name => ?_) hc hk
  have hgenerics : Moves genericParams :=
    moves_of_carries fun _ => Translation.carries_genericParams
  have hrest (generics : Option GenericParams) : Moves (declarationOf name generics) :=
    moves_of_carries fun _ => Translation.carries_declarationOf name generics
  refine .bind (k := _) (fun c _ => .refl c) fun _ => .ite ?_ ?_
  · exact fun c hc => (hgenerics c hc).trans (hrest _ _ (hgenerics.closed hc))
  · exact hrest none

theorem left_declaration_lt (hc : c.Closed) (hk : c.current.kind ≠ .endOfInput) :
    (declaration c).2.left < c.left := by
  have hclose : Moves closeDeclaration :=
    moves_of_carries fun _ => Translation.carries_closeDeclaration
  have hhead : Moves declarationHead :=
    moves_of_carries fun _ => Translation.carries_declarationHead
  have hrest (r : Declaration × Bool) : Moves
      (do
        if r.2 then closeDeclaration else recoverDeclaration
        return r.1) :=
    .ite (.bind hclose fun _ => .pure _) (.bind moves_recoverDeclaration fun _ => .pure _)
  exact Nat.lt_of_le_of_lt ((hrest _).left_le (hhead.closed hc)) (left_declarationHead_lt hc hk)

theorem left_skipGroup_lt (hc : c.Closed) (hk : c.current.kind ≠ .endOfInput) :
    (skipGroup c).2.left < c.left := by
  refine Moves.left_advanceThen_lt (fun _ => ?_) hc hk
  exact .bind (moves_synchronize .closer) fun _ => .bind moves_advance fun _ => .pure ()

/-- Skipping the rest of a declaration consumes the current token: where it does not, it stands at a
terminator, and consumes that. -/
theorem left_recoverDeclaration_lt (hc : c.Closed) (hk : c.current.kind ≠ .endOfInput)
    (hname : c.current.kind ≠ .identifier)
    (hbody : KindSet.bodyStart.contains c.current.kind = false) :
    (recoverDeclaration c).2.left < c.left := by
  by_cases ht : c.current.kind = .terminator
  · have hstay : (skipUntil atDeclarationStop c).2 = c := by
      simp [skipUntil, loop_apply, skipUntilRound, atDeclarationStop, ht]
    simpa [recoverDeclaration, hstay, eat_of_eq ht] using hc.left_advance_lt hk
  · have hstop : (atDeclarationStop c).1 = false := by
      simp only [atDeclarationStop, bind_apply, currentKind_apply]
      exact hbody
    have hskip := moves_atDeclarationStop.skipUntil.closed hc
    exact Nat.lt_of_le_of_lt ((moves_eat .terminator).left_le hskip)
      (left_skipUntil_lt moves_atDeclarationStop hc hk hstop)

theorem left_furtherDeclaration_lt (hc : c.Closed) (h : (furtherDeclaration c).1.again = true) :
    (furtherDeclaration c).2.left < c.left := by
  have hterminators : Moves skipTerminators := moves_skipSet _
  have hu := moves_unexpected [.identifier] c hc
  have hcurrent := current_unexpected [.identifier] c
  by_cases hk : c.current.kind = .endOfInput
  · simp [furtherDeclaration, hk, Round.stop] at h
  have hterm {d : Cursor} (hd : d.Closed) (hlt : d.left < c.left) :
      (skipTerminators d).2.left < c.left :=
    Nat.lt_of_le_of_lt (hterminators.left_le hd) hlt
  have hdeclaration : Moves declaration :=
    moves_of_carries fun _ => Translation.carries_declaration
  have hgroup : Moves skipGroup := moves_of_carries fun _ => Translation.carries_skipGroup
  by_cases hname : c.current.kind = .identifier
  · simpa [furtherDeclaration, hname] using
      hterm (hdeclaration.closed hc) (left_declaration_lt hc hk)
  cases hbody : KindSet.bodyStart.contains c.current.kind with
  | true =>
    have hlt := left_skipGroup_lt (hu.closed hc) (by rwa [hcurrent])
    simpa [furtherDeclaration, hk, hname, hbody] using
      hterm (hgroup.closed (hu.closed hc)) (Nat.lt_of_lt_of_le hlt hu.left_le)
  | false =>
    have hlt := left_recoverDeclaration_lt (hu.closed hc) (by rwa [hcurrent]) (by rwa [hcurrent])
      (by rwa [hcurrent])
    simpa [furtherDeclaration, hk, hname, hbody] using
      hterm (moves_recoverDeclaration.closed (hu.closed hc)) (Nat.lt_of_lt_of_le hlt hu.left_le)

/-- **Every loop makes progress.** A round that is followed by another one leaves fewer tokens. -/
theorem productive_of_isLoop {round : σ → Parser (ForInStep σ)} (h : IsLoop round) :
    Productive round := by
  cases h with
  | terminators => exact productive_skipRound rfl
  | separators => exact productive_skipRound rfl
  | synchronize stop => exact productive_skipUntilRound fun c _ => .refl c
  | recoverDeclaration => exact productive_skipUntilRound moves_atDeclarationStop
  | segments => exact productive_collectRound fun _ => left_furtherSegment_lt
  | genericParams => exact productive_collectRound fun _ => left_genericParam_lt
  | genericArgs => exact productive_collectRound fun _ => left_genericArg_lt
  | params => exact productive_collectRound fun _ => left_furtherParam_lt
  | methods => exact productive_collectRound fun _ => left_furtherMember_lt moves_method
  | variants => exact productive_collectRound fun _ => left_furtherMember_lt moves_variant
  | fields => exact productive_collectRound fun _ => left_furtherMember_lt moves_field
  | elements => exact productive_collectRound fun _ => left_furtherMember_lt moves_element
  | declarations => exact productive_collectRound fun _ => left_furtherDeclaration_lt

end DeclFront
