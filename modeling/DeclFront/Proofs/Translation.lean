import DeclFront.Proofs.Run
import DeclFront.Proofs.TreeMap
import Mathlib.Order.Monotone.Basic

/-!
# Parsers under a translation of cursors

A **translation** reads every cursor as another one: it moves the places of the tokens, or exchanges
tokens that have not been reached. It respects the moves of a cursor, and keeps the kinds of tokens.

**Transport** (`Translation.Carries`). A parser carries a translation when running it on the
translated cursor gives the translated result and the translated cursor. Parsers decide by the kinds
of tokens alone, so every parser made of the primitive ones carries every translation. Transport is
closed under sequencing and loops; the primitive parsers are dealt with here, and the grammar in
`DeclFront.Proofs.Transport`.

**Lost cursors.** A translation need not be faithful everywhere. Where it is `lost`, nothing is
said, and a cursor that is lost stays lost.
-/

namespace DeclFront

open DeclFront.Parser

/-- A way to read cursors as other cursors. -/
structure Translation where
  token : Token → Token
  offset : Nat → Nat
  cursor : Cursor → Cursor
  /-- Holds of the cursors that the laws are about. -/
  valid : Cursor → Prop
  /-- Holds of the cursors that the translation says nothing about. -/
  lost : Cursor → Prop
  kind_token : ∀ t, (token t).kind = t.kind
  start_token : ∀ t, (token t).start = offset t.start
  stop_token : ∀ t, (token t).stop = offset t.stop
  missing_token : ∀ t, token t.missing = (token t).missing
  offset_mono : Monotone offset
  valid_step : ∀ {c d}, Cursor.Step c d → valid c → valid d
  lost_step : ∀ {c d}, Cursor.Step c d → lost c → lost d
  lost_report : ∀ {c} (d), lost c → lost (c.report d)
  closed : ∀ {c}, valid c → c.Closed
  closed_cursor : ∀ {c}, valid c → ¬ lost c → (cursor c).Closed
  current_cursor : ∀ {c}, valid c → ¬ lost c → (cursor c).current = token c.current
  consumedTo_cursor : ∀ {c}, valid c → ¬ lost c → (cursor c).consumedTo = offset c.consumedTo
  left_cursor : ∀ {c d}, valid c → c.Reaches d → ¬ lost d →
    ((cursor d).left < (cursor c).left ↔ d.left < c.left)
  peek_cursor : ∀ {c}, valid c → ¬ lost c →
    (c.current.kind = .identifier ∨ c.current.kind = .leftBracket) →
    (cursor c).peek = (token c.peek.1, cursor c.peek.2)
  advance_cursor : ∀ {c}, valid c → ¬ lost c.advance → (cursor c).advance = cursor c.advance
  report_cursor : ∀ {c} code expected, valid c → ¬ lost c →
    (cursor c).report (Cursor.complaint code expected (token c.current)) =
      cursor (c.report (Cursor.complaint code expected c.current))
  skipEmpty_cursor : ∀ {c code}, Cursor.IsEmptyList code → valid c → ¬ lost (c.skipEmpty code) →
    (cursor c).skipEmpty code = cursor (c.skipEmpty code)

/-- What a monotone function makes of a difference, which is nothing where there is none. -/
theorem sub_eq_of_monotone {w : Nat → Nat} (hw : Monotone w) (a b : Nat) :
    w b - w a = w (a + (b - a)) - w a := by
  rcases Nat.le_total a b with hle | hle
  · rw [Nat.add_sub_cancel' hle]
  · rw [Nat.sub_eq_zero_of_le hle, Nat.add_zero, Nat.sub_self, Nat.sub_eq_zero_of_le (hw hle)]

/-- The step of a loop with its state replaced. -/
def mapStep {σ τ : Type} (F : σ → τ) : ForInStep σ → ForInStep τ
  | .done s => .done (F s)
  | .yield s => .yield (F s)

/-- The round of a list with its item replaced. -/
def Parser.Round.map {α β : Type} (F : α → β) (r : Round α) : Round β := ⟨r.item.map F, r.again⟩

namespace Translation

variable (T : Translation) {α β γ δ σ τ : Type} {n : Nat} {c d : Cursor}

theorem valid_of_reaches (h : c.Reaches d) (hc : T.valid c) : T.valid d := h.keeps T.valid_step hc

theorem not_lost_of_reaches (h : c.Reaches d) (hd : ¬ T.lost d) : ¬ T.lost c :=
  fun hc => hd (h.keeps T.lost_step hc)

/-! ## Transport -/

/-- From the cursor `c`, `q` does on translated cursors what `p` does. -/
def CarriesAt (c : Cursor) (p : Parser α) (q : Parser β) (F : α → β) : Prop :=
  T.valid c → c.Reaches (p c).2 ∧
    (¬ T.lost (p c).2 → q (T.cursor c) = (F (p c).1, T.cursor (p c).2))

/-- From the cursors with fewer than `n` tokens left, `q` does on translated cursors what `p`
does. -/
def Carries (n : Nat) (p : Parser α) (q : Parser β) (F : α → β) : Prop :=
  ∀ c, c.left < n → T.CarriesAt c p q F

variable {T} {p : Parser α} {q : Parser β} {F : α → β} {G : γ → δ}

theorem CarriesAt.bind {k : α → Parser γ} {l : β → Parser δ} (hp : T.CarriesAt c p q F)
    (hk : c.Reaches (p c).2 → T.CarriesAt (p c).2 (k (p c).1) (l (F (p c).1)) G) :
    T.CarriesAt c (p >>= k) (q >>= l) G := by
  intro hc
  obtain ⟨hr, hrun⟩ := hp hc
  obtain ⟨hr', hrun'⟩ := hk hr (T.valid_of_reaches hr hc)
  refine ⟨hr.trans hr', fun hl => ?_⟩
  rw [bind_apply, hrun (T.not_lost_of_reaches hr' hl)]
  exact hrun' hl

theorem Carries.bind {k : α → Parser γ} {l : β → Parser δ} (hp : T.Carries n p q F)
    (hk : ∀ a, T.Carries n (k a) (l (F a)) G) : T.Carries n (p >>= k) (q >>= l) G :=
  fun c hn => (hp c hn).bind fun hr => hk _ _ (Nat.lt_of_le_of_lt hr.left_le hn)

/-- Sequencing behind a result that the translation does not change. -/
theorem Carries.bindSame {q : Parser α} {k : α → Parser γ} {l : α → Parser δ}
    (hp : T.Carries n p q id) (hk : ∀ a, T.Carries n (k a) (l a) G) :
    T.Carries n (p >>= k) (q >>= l) G :=
  hp.bind hk

theorem CarriesAt.pure {a : α} {b : β} (h : F a = b) : T.CarriesAt c (pure a) (pure b) F :=
  fun _ => ⟨.refl c, fun _ => by rw [pure_apply, pure_apply, h]⟩

theorem Carries.pure {a : α} {b : β} (h : F a = b) : T.Carries n (pure a) (pure b) F :=
  fun _ _ => .pure h

theorem CarriesAt.map {H : γ → δ} {f : α → γ} {g : β → δ} (hp : T.CarriesAt c p q F)
    (h : ∀ a, H (f a) = g (F a)) : T.CarriesAt c (f <$> p) (g <$> q) H :=
  fun hc => ⟨(hp hc).1, fun hl => by rw [map_apply, map_apply, (hp hc).2 hl, h]⟩

theorem Carries.map {H : γ → δ} {f : α → γ} {g : β → δ} (hp : T.Carries n p q F)
    (h : ∀ a, H (f a) = g (F a)) : T.Carries n (f <$> p) (g <$> q) H :=
  fun c hn => (hp c hn).map h

theorem CarriesAt.ite {b : Prop} [Decidable b] {p' : Parser α} {q' : Parser β}
    (hp : b → T.CarriesAt c p q F) (hp' : ¬ b → T.CarriesAt c p' q' F) :
    T.CarriesAt c (if b then p else p') (if b then q else q') F := by
  split
  · exact hp ‹_›
  · exact hp' ‹_›

theorem Carries.ite {b : Prop} [Decidable b] {p' : Parser α} {q' : Parser β}
    (hp : T.Carries n p q F) (hp' : T.Carries n p' q' F) :
    T.Carries n (if b then p else p') (if b then q else q') F :=
  fun c hn => .ite (fun _ => hp c hn) fun _ => hp' c hn

theorem Carries.mono {m : Nat} (h : T.Carries n p q F) (hm : m ≤ n) : T.Carries m p q F :=
  fun c hc => h c (Nat.lt_of_lt_of_le hc hm)

/-- A loop carries what its rounds carry. -/
theorem Carries.loop {round : σ → Parser (ForInStep σ)} {round' : τ → Parser (ForInStep τ)}
    {G : σ → τ} (h : ∀ s, T.Carries n (round s) (round' (G s)) (mapStep G)) (s : σ) :
    T.Carries n (loop round s) (loop round' (G s)) G := by
  intro c hn hc
  revert hn hc
  refine loop_induction (P := fun s c r => c.left < n → T.valid c → c.Reaches r.2 ∧
    (¬ T.lost r.2 → Parser.loop round' (G s) (T.cursor c) = (G r.1, T.cursor r.2))) ?_ ?_ ?_ s c
  · intro s c t ht hn hc
    obtain ⟨hr, hrun⟩ := h s c hn hc
    refine ⟨hr, fun hl => ?_⟩
    rw [loop_apply, hrun hl, ht]
    rfl
  · intro s c t ht hle hn hc
    obtain ⟨hr, hrun⟩ := h s c hn hc
    refine ⟨hr, fun hl => ?_⟩
    rw [loop_apply, hrun hl, ht]
    simp only [mapStep]
    rw [if_neg (mt (T.left_cursor hc hr hl).1 hle)]
  · intro s c t r ht hlt ih hn hc
    obtain ⟨hr, hrun⟩ := h s c hn hc
    obtain ⟨hr', hrun'⟩ := ih (Nat.lt_trans hlt hn) (T.valid_of_reaches hr hc)
    refine ⟨hr.trans hr', fun hl => ?_⟩
    have hl' := T.not_lost_of_reaches hr' hl
    rw [loop_apply, hrun hl', ht]
    simp only [mapStep]
    rw [if_pos ((T.left_cursor hc hr hl').2 hlt)]
    exact hrun' hl

theorem Carries.collect {round : Parser (Round α)} {round' : Parser (Round β)}
    (h : T.Carries n round round' (Round.map F)) :
    T.Carries n (collect round) (collect round') (List.map F) := by
  refine .bind (.loop (G := List.map F) (fun found => .bind h fun r => ?_) []) fun found =>
    .pure (by simp)
  obtain ⟨item, again⟩ := r
  refine .pure ?_
  cases item <;> cases again <;> rfl

/-! ## The primitive parsers -/

theorem carries_current : T.Carries n current current T.token :=
  fun c _ hc => ⟨.refl c, fun hl => Prod.ext (T.current_cursor hc hl) rfl⟩

theorem carries_consumedTo : T.Carries n consumedTo consumedTo T.offset :=
  fun c _ hc => ⟨.refl c, fun hl => Prod.ext (T.consumedTo_cursor hc hl) rfl⟩

theorem carries_currentKind : T.Carries n currentKind currentKind id :=
  .bind carries_current fun t => .pure (T.kind_token t).symm

theorem carries_check (k : TokenKind) : T.Carries n (check k) (check k) id :=
  .bind carries_currentKind fun _ => .pure rfl

theorem carries_checkSet (s : KindSet) : T.Carries n (checkSet s) (checkSet s) id :=
  .bind carries_currentKind fun _ => .pure rfl

theorem carries_isAtEnd : T.Carries n isAtEnd isAtEnd id := carries_check .endOfInput

theorem carries_advance : T.Carries n advance advance T.token := by
  intro c _ hc
  have hr : c.Reaches c.advance := Cursor.Step.advance.reaches
  refine ⟨hr, fun hl => Prod.ext ?_ (T.advance_cursor hc hl)⟩
  exact T.current_cursor hc (T.not_lost_of_reaches hr hl)

theorem carries_eat (k : TokenKind) : T.Carries n (eat k) (eat k) (Option.map T.token) :=
  .bindSame (carries_check k) fun _ =>
    .ite (.bind carries_advance fun _ => .pure rfl) (.pure rfl)

/-- The kind of the token behind is asked for where two tokens tell what begins. -/
theorem carriesAt_peekKind (h : c.current.kind = .identifier ∨ c.current.kind = .leftBracket) :
    T.CarriesAt c peekKind peekKind id := by
  intro hc
  have hr : c.Reaches c.peek.2 := (Cursor.Step.peek h).reaches
  refine ⟨hr, fun hl => ?_⟩
  have hpeek := T.peek_cursor hc (T.not_lost_of_reaches hr hl) h
  show ((T.cursor c).peek.1.kind, (T.cursor c).peek.2) = _
  rw [hpeek, T.kind_token]
  rfl

/-- A complaint about the current token. -/
theorem carries_complain {code : DiagnosticCode} (hcode : code.concern = .syntactic)
    (hinvalid : code ≠ .unexpectedToken) (expected : ExpectedKinds) :
    T.Carries n (do report (Cursor.complaint code expected (← current)))
      (do report (Cursor.complaint code expected (← current))) id := by
  intro c _ hc
  have hr : c.Reaches (c.report (Cursor.complaint code expected c.current)) :=
    (Cursor.Step.complain hcode fun h => absurd h hinvalid).reaches
  refine ⟨hr, fun hl => ?_⟩
  have hl' := T.not_lost_of_reaches hr hl
  show ((), (T.cursor c).report (Cursor.complaint code expected (T.cursor c).current)) = _
  rw [T.current_cursor hc hl', T.report_cursor code expected hc hl']
  rfl

theorem carries_missing (k : TokenKind) : T.Carries n (missing k) (missing k) id :=
  carries_complain rfl (by decide) (.singleton k)

theorem carries_unexpected (ks : List TokenKind) :
    T.Carries n (unexpected ks) (unexpected ks) id := by
  intro c _ hc
  have hkind (hl : ¬ T.lost c) : (T.cursor c).current.kind = c.current.kind := by
    rw [T.current_cursor hc hl, T.kind_token]
  by_cases hk : c.current.kind = .invalid
  · rw [unexpected_of_invalid hk]
    exact ⟨.refl c, fun hl => unexpected_of_invalid ((hkind hl).trans hk)⟩
  · rw [unexpected_of_valid hk]
    have hr : c.Reaches (c.report (Cursor.complaint .unexpectedToken (.ofList ks) c.current)) :=
      (Cursor.Step.complain rfl fun _ => hk).reaches
    refine ⟨hr, fun hl => ?_⟩
    have hl' := T.not_lost_of_reaches hr hl
    rw [unexpected_of_valid (by rwa [hkind hl']), T.current_cursor hc hl',
      T.report_cursor _ _ hc hl']

theorem carries_expect (k : TokenKind) :
    T.Carries n (expect k) (expect k) (Option.map T.token) := by
  refine .bind (carries_eat k) fun t => ?_
  cases t with
  | none => exact .bind (carries_missing k) fun _ => .pure rfl
  | some t => exact .pure rfl

theorem carries_skipSet (s : KindSet) : T.Carries n (skipSet s) (skipSet s) id := by
  refine .loop (G := id) (fun _ => .bindSame (carries_checkSet s) fun _ => .ite ?_ ?_) ()
  · exact .bind carries_advance fun _ => .pure rfl
  · exact .pure rfl

theorem carries_skipTerminators : T.Carries n skipTerminators skipTerminators id :=
  carries_skipSet _

end Translation

end DeclFront
