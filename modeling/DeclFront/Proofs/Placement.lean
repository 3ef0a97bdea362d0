import DeclFront.Proofs.Answers
import DeclFront.Proofs.Constituents

/-!
# Where the constituents stand

A placeholder stands at the token that is current when it is made, behind all trivia in front of
that token. What contains it must not end where the last token was consumed. Most parsers see to
that: the constituent they make ends with the last one inside or with the last consumed token,
whatever is behind. Those of headers, arguments, bodies and variants do not; what they make is
**loose** (`Constituent.isLoose`).

**Placed constituents.** Where its parser stops, a constituent ends with the last consumed token or
in front of it, or else with a placeholder at the current token (`Cursor.EndsBy`). Parsers that go
on keep it that way: either the current token stays, or it is consumed. All that is said of a
constituent is in `Placed`: where it stands, that everything in it is framed (`Constituent.Framed`),
and that its placeholders are answered for.

`PlacesAt` says of a parser what holds of its result at the cursor where it stops. The parsers of
the grammar are taken one by one, over types with fewer tokens left.
-/

namespace DeclFront

open DeclFront.Parser

variable {α β : Type} {ts us kept : List Token} {m n : Nat} {c d e : Cursor} {x y : Constituent}

/-! ## Framed constituents -/

namespace Constituent

/-- Whether the constituent ends with the last token that its parser consumed, even if a placeholder
inside stands behind that. -/
def isLoose : Constituent → Bool
  | .header _ | .args _ | .node (.variant _)
  | .node (.type (.protocol ..)) | .node (.type (.union ..))
  | .node (.type (.record ..)) | .node (.type (.tuple ..)) => true
  | _ => false

/-- The constituent ends at one of its placeholders. -/
def EndsLacking (x : Constituent) : Prop := ∃ t ∈ x.tokens, t.isMissing ∧ t.start = x.span.stop

/-- In a text with the tokens `ts`, the constituent has the tokens it stores and the constituents
right below it inside its span. Behind the end of a loose one there may stand the end of one below
that ends at a placeholder, but no token of the text in between. -/
structure Framed (ts : List Token) (x : Constituent) : Prop where
  start_le_stop : x.span.start ≤ x.span.stop
  stop_le : x.span.stop ≤ lastStop 0 ts
  covers_stored : ∀ t ∈ x.stored, x.span.Covers t.span
  covers_children : ∀ y ∈ x.children, x.span.start ≤ y.span.start ∧
    (y.span.stop ≤ x.span.stop ∨ x.isLoose ∧ y.EndsLacking ∧
      ∀ t ∈ ts, t.stop ≤ x.span.stop ∨ y.span.stop ≤ t.start)

end Constituent

/-- The constituent was consumed to its end, or it ends with a placeholder at the current token. -/
def Cursor.EndsBy (c : Cursor) (x : Constituent) : Prop :=
  x.span.stop ≤ c.consumedTo ∨ x.span.stop = c.current.start ∧ x.EndsLacking

/-- At a cursor `c` along the tokens `ts`, the constituent has been made of the text from `n` on. -/
structure Placed (ts : List Token) (n : Nat) (c : Cursor) (x : Constituent) : Prop where
  begins : n ≤ x.span.start
  ends : c.EndsBy x
  framed : x.Everywhere (Constituent.Framed ts)
  answered : ∀ t ∈ x.tokens, t.isMissing → c.Answers t.start

/-- A token of the text between `n` and `m`. -/
structure Taken (n m : Nat) (t : Token) : Prop where
  begins : n ≤ t.start
  ends : t.stop ≤ m
  isMissing : t.isMissing = false

namespace Placed

theorem start_le_stop (h : Placed ts n c x) : x.span.start ≤ x.span.stop :=
  (Constituent.everywhere_iff.1 h.framed).1.start_le_stop

theorem stop_le (h : Placed ts n c x) (hc : c.Along ts) : x.span.stop ≤ c.current.start := by
  rcases h.ends with hle | ⟨heq, -⟩
  · exact Nat.le_trans hle hc.consumedTo_le
  · exact Nat.le_of_eq heq

/-- The parser goes on. -/
theorem mono (h : Placed ts n c x) (hc : c.Along ts) (hr : c.Reaches d) (hm : m ≤ n) :
    Placed ts m d x where
  begins := Nat.le_trans hm h.begins
  ends := by
    obtain ⟨hle, hcurrent⟩ := hr.reached hc
    rcases h.ends with hstop | ⟨hstop, hlacking⟩
    · exact .inl (Nat.le_trans hstop hle)
    rcases hcurrent with hcurrent | hcurrent
    · exact .inr ⟨by rw [hcurrent, hstop], hlacking⟩
    · exact .inl (hstop ▸ hcurrent)
  framed := h.framed
  answered := fun t ht hmissing => hr.answers (h.answered t ht hmissing)

/-- A constituent is placed if those right below it are, and they are inside it or it is loose. -/
theorem of_children (hc : c.Along ts) (hn : n ≤ x.span.start) (hle : x.span.start ≤ x.span.stop)
    (hends : c.EndsBy x)
    (hstored : ∀ t ∈ x.stored, x.span.Covers t.span ∧ (t.isMissing → c.Answers t.start))
    (hchildren : ∀ y ∈ x.children, Placed ts x.span.start c y ∧
      (y.span.stop ≤ x.span.stop ∨ x.isLoose ∧ x.span.stop = c.consumedTo)) :
    Placed ts n c x where
  begins := hn
  ends := hends
  framed := by
    refine Constituent.everywhere_iff.2
      ⟨⟨hle, ?_, fun t ht => (hstored t ht).1, fun y hy => ?_⟩,
        fun y hy => (hchildren y hy).1.framed⟩
    · have hlast := hc.start_le
      rcases hends with hstop | ⟨hstop, -⟩
      · exact Nat.le_trans (Nat.le_trans hstop hc.consumedTo_le) hlast
      · exact hstop ▸ hlast
    · obtain ⟨hy, hinside⟩ := hchildren y hy
      refine ⟨hy.begins, ?_⟩
      rcases hinside with hinside | ⟨hloose, hstop⟩
      · exact .inl hinside
      rcases hy.ends with hinside | ⟨hcurrent, hlacking⟩
      · exact .inl (hstop ▸ hinside)
      · exact .inr ⟨hloose, hlacking, by rw [hstop, hcurrent]; exact hc.apart⟩
  answered := by
    intro t ht hmissing
    rcases Constituent.mem_tokens.1 ht with ht | ⟨y, hy, ht⟩
    · exact (hstored t ht).2 hmissing
    · exact (hchildren y hy).1.answered t ht hmissing

/-- A constituent with nothing below it. -/
theorem of_leaf (hc : c.Along ts) (hleaf : x.children = []) (hspan : x.span = ⟨n, m⟩) (hle : n ≤ m)
    (hm : m ≤ c.consumedTo) (hstored : ∀ t ∈ x.stored, Taken n m t) : Placed ts n c x := by
  have hstart : x.span.start = n := by rw [hspan]
  have hstop : x.span.stop = m := by rw [hspan]
  refine of_children hc (Nat.le_of_eq hstart.symm) (by rwa [hstart, hstop]) (.inl (hstop ▸ hm))
    (fun t ht => ?_) fun y hy => absurd hy (hleaf ▸ List.not_mem_nil)
  obtain ⟨hbegins, hends, hmissing⟩ := hstored t ht
  exact ⟨⟨hstart ▸ hbegins, hstop ▸ hends⟩, fun h => by simp [hmissing] at h⟩

/-- A loose constituent ends with the last consumed token. -/
theorem of_loose (hc : c.Along ts) (hspan : x.span = ⟨n, c.consumedTo⟩) (hle : n ≤ c.consumedTo)
    (hloose : x.isLoose) (hstored : ∀ t ∈ x.stored, Taken n c.consumedTo t)
    (hchildren : ∀ y ∈ x.children, Placed ts n c y) : Placed ts n c x := by
  have hstart : x.span.start = n := by rw [hspan]
  have hstop : x.span.stop = c.consumedTo := by rw [hspan]
  refine of_children hc (Nat.le_of_eq hstart.symm) (by rwa [hstart, hstop])
    (.inl (Nat.le_of_eq hstop)) (fun t ht => ?_)
    fun y hy => ⟨hstart ▸ hchildren y hy, .inr ⟨hloose, hstop⟩⟩
  obtain ⟨hbegins, hends, hmissing⟩ := hstored t ht
  exact ⟨⟨hstart ▸ hbegins, hstop ▸ hends⟩, fun h => by simp [hmissing] at h⟩

/-- Other constituents end with the last one inside, or with a consumed token if that is behind. -/
theorem of_tight (hc : c.Along ts) (hm : m ≤ c.consumedTo) (hy : y ∈ x.children)
    (hspan : x.span = ⟨n, max m y.span.stop⟩) (hstored : ∀ t ∈ x.stored, Taken n m t)
    (hchildren : ∀ z ∈ x.children, Placed ts n c z ∧ z.span.stop ≤ max m y.span.stop) :
    Placed ts n c x := by
  have hstart : x.span.start = n := by rw [hspan]
  have hstop : x.span.stop = max m y.span.stop := by rw [hspan]
  have hplaced := (hchildren y hy).1
  refine of_children hc (Nat.le_of_eq hstart.symm) ?_ ?_ (fun t ht => ?_)
    fun z hz => ⟨hstart ▸ (hchildren z hz).1, .inl (hstop ▸ (hchildren z hz).2)⟩
  · calc x.span.start = n := hstart
      _ ≤ y.span.start := hplaced.begins
      _ ≤ y.span.stop := hplaced.start_le_stop
      _ ≤ x.span.stop := hstop ▸ Nat.le_max_right _ _
  · rcases hplaced.ends with hle | ⟨heq, t, ht, hlacking⟩
    · exact .inl (hstop ▸ Nat.max_le.2 ⟨hm, hle⟩)
    · have hmax : x.span.stop = y.span.stop := by
        rw [hstop, heq, Nat.max_eq_right (Nat.le_trans hm hc.consumedTo_le)]
      refine .inr ⟨hmax.trans heq, t, Constituent.mem_tokens.2 (.inr ⟨y, hy, ht⟩), ?_⟩
      rwa [hmax]
  · obtain ⟨hbegins, hends, hmissing⟩ := hstored t ht
    exact ⟨⟨hstart ▸ hbegins, hstop ▸ Nat.le_trans hends (Nat.le_max_left _ _)⟩,
      fun h => by simp [hmissing] at h⟩

end Placed

theorem Taken.mono {t : Token} {n' m' : Nat} (h : Taken n m t) (hn : n' ≤ n) (hm : m ≤ m') :
    Taken n' m' t :=
  ⟨Nat.le_trans hn h.begins, Nat.le_trans h.ends hm, h.isMissing⟩

/-- What stands behind consumed tokens stands behind the start of each of them. -/
theorem Taken.start_le {t : Token} (h : Taken n c.consumedTo t) (hc : c.Along ts) :
    t.start ≤ c.current.start := by
  calc t.start ≤ t.stop := Nat.le_add_right _ _
    _ ≤ c.consumedTo := h.ends
    _ ≤ c.current.start := hc.consumedTo_le

/-! ## What a parser places -/

/-- From a cursor along the tokens `ts`, `p` gives a result of which `Q` holds at the cursor where
it stops. -/
def PlacesAt (ts : List Token) (c : Cursor) (p : Parser α) (Q : Cursor → α → Prop) : Prop :=
  c.Along ts → c.Reaches (p c).2 ∧ Q (p c).2 (p c).1

variable {p : Parser α} {k : α → Parser β} {Q : Cursor → α → Prop} {R : Cursor → β → Prop}

namespace PlacesAt

theorem congr {q : Parser α} (h : p c = q c) (hq : PlacesAt ts c q Q) : PlacesAt ts c p Q := by
  unfold PlacesAt at *
  rwa [h]

theorem mono {Q' : Cursor → α → Prop} (hp : PlacesAt ts c p Q)
    (h : ∀ d a, c.Reaches d → d.Along ts → Q d a → Q' d a) : PlacesAt ts c p Q' := by
  intro hc
  obtain ⟨hr, hQ⟩ := hp hc
  exact ⟨hr, h _ _ hr (hr.along hc) hQ⟩

theorem and {Q' : Cursor → α → Prop} (hp : PlacesAt ts c p Q) (hp' : PlacesAt ts c p Q') :
    PlacesAt ts c p fun d a => Q d a ∧ Q' d a :=
  fun hc => ⟨(hp hc).1, (hp hc).2, (hp' hc).2⟩

/-- The cursor may be taken to be along the text. -/
theorem along (h : c.Along ts → PlacesAt ts c p Q) : PlacesAt ts c p Q := fun hc => h hc hc

theorem pure {a : α} (h : c.Along ts → Q c a) : PlacesAt ts c (pure a) Q :=
  fun hc => ⟨.refl c, h hc⟩

theorem pureThen {a : α} (h : PlacesAt ts c (k a) R) : PlacesAt ts c (Pure.pure a >>= k) R := h

theorem of_moves (hp : Moves p) : PlacesAt ts c p fun _ _ => True :=
  fun hc => ⟨hp c hc.closed, trivial⟩

theorem bind (hp : PlacesAt ts c p Q)
    (hk : ∀ a d, c.Reaches d → d.Along ts → Q d a → PlacesAt ts d (k a) R) :
    PlacesAt ts c (p >>= k) R := by
  intro hc
  obtain ⟨hr, hQ⟩ := hp hc
  obtain ⟨hr', hR⟩ := hk _ _ hr (hr.along hc) hQ (hr.along hc)
  exact ⟨hr.trans hr', hR⟩

/-- Behind a parser whose result does not matter. -/
theorem pass (hp : Moves p) (hk : ∀ a d, c.Reaches d → d.Along ts → PlacesAt ts d (k a) R) :
    PlacesAt ts c (p >>= k) R :=
  .bind (.of_moves hp) fun a d hr hd _ => hk a d hr hd

/-- A parser that only looks. -/
theorem look {a : α} (h : p c = (a, c)) (hk : PlacesAt ts c (k a) R) :
    PlacesAt ts c (p >>= k) R := by
  refine congr ?_ hk
  rw [bind_apply, h]

theorem ite {b : Prop} [Decidable b] {q : Parser α} (hp : b → PlacesAt ts c p Q)
    (hq : ¬ b → PlacesAt ts c q Q) : PlacesAt ts c (if b then p else q) Q := by
  split
  · exact hp ‹_›
  · exact hq ‹_›

theorem map {F : α → β} (hp : PlacesAt ts c p fun d a => R d (F a)) : PlacesAt ts c (F <$> p) R :=
  hp

/-- What holds of the result holds of it where it is the one that was found. -/
theorem found (hp : PlacesAt ts c p Q) : PlacesAt ts c (some <$> p) fun d o => ∀ a ∈ o, Q d a :=
  .map (hp.mono fun _ _ _ _ h _ hb => Option.some.inj hb ▸ h)

/-- What is found, with what the parser keeps beside it. -/
theorem foundKeeping {I : Cursor → Prop} (hp : PlacesAt ts c p fun d a => I d ∧ Q d a) :
    PlacesAt ts c (some <$> p) fun d o => I d ∧ ∀ a ∈ o, Q d a :=
  .map (hp.mono fun _ _ _ _ h => ⟨h.1, fun _ hb => Option.some.inj hb ▸ h.2⟩)

theorem advance {k : Token → Parser β} (h : PlacesAt ts c.advance (k c.current) R) :
    PlacesAt ts c (Parser.advance >>= k) R :=
  fun hc => ⟨Cursor.Step.advance.reaches.trans (h hc.advance).1, (h hc.advance).2⟩

theorem eatThen {kind : TokenKind} {k : Option Token → Parser β}
    (hsome : c.current.kind = kind → PlacesAt ts c.advance (k (some c.current)) R)
    (hnone : c.current.kind ≠ kind → PlacesAt ts c (k none) R) :
    PlacesAt ts c (eat kind >>= k) R := by
  by_cases h : c.current.kind = kind
  · refine congr ?_ (advance (k := fun t => k (some t)) (hsome h))
    rw [bind_apply, eat_of_eq h]
    rfl
  · exact look (eat_of_ne h) (hnone h)

/-- Looking behind the current token. -/
theorem peekKind {k : TokenKind → Parser β}
    (h : c.current.kind = .identifier ∨ c.current.kind = .leftBracket)
    (hk : PlacesAt ts c.peek.2 (k c.peek.1.kind) R) : PlacesAt ts c (Parser.peekKind >>= k) R := by
  intro hc
  have hs : c.Step c.peek.2 := .peek h
  obtain ⟨hr, hR⟩ := hk (hs.along hc)
  exact ⟨hs.reaches.trans hr, hR⟩

/-! ## Complaints -/

/-- A complaint that a token is unexpected answers for the current token, even if it is muted. -/
theorem unexpected (kinds : List TokenKind) : PlacesAt ts c (Parser.unexpected kinds) fun d _ =>
    d.current = c.current ∧ d.Answers c.current.start := by
  intro hc
  by_cases hk : c.current.kind = .invalid
  · rw [unexpected_of_invalid hk]
    exact ⟨.refl c, rfl, hc.answers_invalid _ List.mem_cons_self hk⟩
  · have hs : c.Step (c.report (Cursor.complaint .unexpectedToken (.ofList kinds) c.current)) :=
      .complain rfl fun _ => hk
    rw [unexpected_of_valid hk]
    exact ⟨hs.reaches, Cursor.current_report _ _, hc.answers_report _ (by decide)⟩

theorem report (code : DiagnosticCode) (expected : ExpectedKinds)
    (hcode : code.concern = .syntactic) (hne : code ≠ .unexpectedToken) :
    PlacesAt ts c (Parser.report (Cursor.complaint code expected c.current)) fun d _ =>
      d.current = c.current ∧ (code ∈ Cursor.answering → d.Answers c.current.start) :=
  fun hc => ⟨(Cursor.Step.complain hcode fun h => absurd h hne).reaches,
    Cursor.current_report _ _, fun hanswer => hc.answers_report _ hanswer⟩

theorem missing (kind : TokenKind) : PlacesAt ts c (Parser.missing kind) fun d _ =>
    d.current = c.current ∧ d.Answers c.current.start := by
  intro hc
  obtain ⟨hr, hcurrent, hanswer⟩ :=
    report .missingToken (.singleton kind) rfl (by decide) hc
  exact ⟨hr, hcurrent, hanswer (by decide)⟩

/-- A token that is expected is consumed, or a complaint says that it is missing. -/
theorem expectThen {kind : TokenKind} {k : Option Token → Parser β}
    (hsome : c.current.kind = kind → PlacesAt ts c.advance (k (some c.current)) R)
    (hnone : c.current.kind ≠ kind →
      PlacesAt ts c (Parser.missing kind >>= fun _ => k none) R) :
    PlacesAt ts c (expect kind >>= k) R := by
  by_cases h : c.current.kind = kind
  · refine congr ?_ (advance (k := fun t => k (some t)) (hsome h))
    rw [bind_apply, expect_of_eq h]
    rfl
  · refine congr ?_ (hnone h)
    rw [bind_apply, expect_of_ne h]
    rfl

/-! ## Lists -/

/-- What the rounds of a list keep while further ones follow, what the last one comes to, and what
holds of the items when they are found and goes on to hold. -/
theorem collectUntil {I J : Cursor → Prop} {round : Parser (Round α)}
    (hstable : ∀ d e a, d.Along ts → d.Reaches e → Q d a → Q e a) (hI : I c)
    (hround : ∀ d, c.Reaches d → I d → PlacesAt ts d round fun e r =>
      (if r.again then I e ∧ (e.left < d.left ∨ J e) else J e) ∧ ∀ a ∈ r.item, Q e a) :
    PlacesAt ts c (collect round) fun d as => J d ∧ ∀ a ∈ as, Q d a := by
  have hfound {found : List α} {d : Cursor} (hd : c.Reaches d) (hI : I d) (h : d.Along ts)
      (hQ : ∀ a ∈ found, Q d a) : PlacesAt ts d (collectRound round found) fun e r =>
        (match r with
          | .yield _ => I e ∧ (e.left < d.left ∨ J e)
          | .done _ => J e) ∧ ∀ a ∈ r.value, Q e a := by
    refine .bind (hround d hd hI) fun r e hr _ ⟨hJ, hitem⟩ => .pure fun _ => ?_
    have hall : ∀ a ∈ r.item.toList ++ found, Q e a := fun a ha => by
      rcases List.mem_append.1 ha with ha | ha
      · exact hitem a (by simpa using ha)
      · exact hstable d e a h hr (hQ a ha)
    cases hagain : r.again with
    | true => exact ⟨by simpa [hagain] using hJ, hall⟩
    | false => exact ⟨by simpa [hagain] using hJ, hall⟩
  have hloop : PlacesAt ts c (loop (collectRound round) []) fun d as => J d ∧ ∀ a ∈ as, Q d a := by
    intro hc
    refine loop_induction (P := fun found d r => c.Reaches d → I d → d.Along ts →
      (∀ a ∈ found, Q d a) → d.Reaches r.2 ∧ J r.2 ∧ ∀ a ∈ r.1, Q r.2 a) ?_ ?_ ?_ [] c (.refl c) hI
      hc (by simp)
    · intro found d as hdone hd hI h hQ
      have := hfound hd hI h hQ h
      rwa [hdone] at this
    · intro found d as hyield hle hd hI h hQ
      obtain ⟨hr, hJ, hQ'⟩ := hfound hd hI h hQ h
      rw [hyield] at hJ hQ'
      exact ⟨hr, hJ.2.resolve_left hle, hQ'⟩
    · intro found d as r hyield _ ih hd hI h hQ
      obtain ⟨hr, hI', hQ'⟩ := hfound hd hI h hQ h
      rw [hyield] at hI' hQ'
      obtain ⟨hr', hJ, hQ''⟩ := ih (hd.trans hr) hI'.1 (hr.along h) hQ'
      exact ⟨hr.trans hr', hJ, hQ''⟩
  exact .bind hloop fun as d _ _ h => .pure fun _ => by simpa using h

/-- What every round of a list keeps. -/
theorem collectKeeping {I : Cursor → Prop} {round : Parser (Round α)}
    (hstable : ∀ d e a, d.Along ts → d.Reaches e → Q d a → Q e a) (hI : I c)
    (hround : ∀ d, c.Reaches d → I d → PlacesAt ts d round fun e r =>
      I e ∧ ∀ a ∈ r.item, Q e a) :
    PlacesAt ts c (collect round) fun d as => I d ∧ ∀ a ∈ as, Q d a := by
  refine .collectUntil hstable hI fun d hr hd =>
    (hround d hr hd).mono fun e r _ _ ⟨he, h⟩ => ⟨?_, h⟩
  split
  · exact ⟨he, .inr he⟩
  · exact he

/-- What holds of the items of a list when they are found, and goes on to hold. -/
theorem collect {round : Parser (Round α)}
    (hstable : ∀ d e a, d.Along ts → d.Reaches e → Q d a → Q e a)
    (hround : ∀ d, c.Reaches d → PlacesAt ts d round fun e r => ∀ a ∈ r.item, Q e a) :
    PlacesAt ts c (collect round) fun d as => ∀ a ∈ as, Q d a := by
  have h : PlacesAt ts c (Parser.collect round) fun d as => True ∧ ∀ a ∈ as, Q d a :=
    .collectKeeping (I := fun _ => True) hstable trivial fun d hr _ =>
      (hround d hr).mono fun _ _ _ _ h => ⟨trivial, h⟩
  exact h.mono fun _ _ _ _ h => h.2

end PlacesAt

end DeclFront
