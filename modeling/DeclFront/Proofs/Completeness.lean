import DeclFront.Proofs.Soundness

/-!
# What is in the grammar is parsed without a complaint

As long as a parser has nothing to complain about, it is a function of the tokens: it **runs** over
some of them, looks at most at those behind, and does nothing else to the cursor (`Runs`). Whatever
the lexer complains about on the way is not its business. No cursor is mentioned in what follows,
only lists of tokens and the place where the last consumed one ended. Complaints of the parser can
be told as well (`RunsWith`), and add up where parsers follow each other.

A phrase is run over by its parser wherever the token behind it does not carry the phrase on
(`Stops`). Every derivation has the tree that its parser gives, so no list of tokens has two trees.
-/

namespace DeclFront

open DeclFront.Parser DeclFront.Grammar

variable {α β : Type} {n : Nat} {p : Parser α} {ts us rest : List Token} {a : α} {t : Token}

namespace Cursor

variable {c d : Cursor}

/-- The tokens stand in order and end with the end of input. -/
structure Tidy (c : Cursor) : Prop where
  closed : c.Closed
  ordered : Ordered c.tokens

/-- A move without a complaint. -/
inductive Glide : Cursor → Cursor → Prop
  | peek {c : Cursor} : Glide c c.peek.2
  | advance {c : Cursor} : Glide c c.advance

/-- By moves without a complaint, and by the complaints `xs` in this order, the first cursor comes
to be the second one. -/
inductive Raises : List Diagnostic → Cursor → Cursor → Prop
  | refl (c : Cursor) : Raises [] c c
  | glide {xs : List Diagnostic} {c d e : Cursor} (h : Glide c d) (hrest : Raises xs d e) :
    Raises xs c e
  | report {x : Diagnostic} {xs : List Diagnostic} {c d : Cursor}
    (hrest : Raises xs (c.report x) d) : Raises (x :: xs) c d

theorem Raises.trans {xs ys : List Diagnostic} {e : Cursor} (h : c.Raises xs d)
    (h' : d.Raises ys e) : c.Raises (xs ++ ys) e := by
  induction h with
  | refl => exact h'
  | glide hs _ ih => exact .glide hs (ih h')
  | report _ ih => exact .report (ih h')

theorem Raises.tidy {xs : List Diagnostic} (h : c.Raises xs d) (hc : c.Tidy) : d.Tidy := by
  induction h with
  | refl => exact hc
  | glide hs _ ih =>
    refine ih ?_
    cases hs with
    | peek => exact ⟨by simpa [Closed] using hc.closed, by simpa using hc.ordered⟩
    | advance =>
      exact ⟨closed_advance hc.closed, hc.ordered.sublist (tokens_advance_suffix _).sublist⟩
  | report _ ih => exact ih ⟨by simpa [Closed] using hc.closed, by simpa using hc.ordered⟩

theorem Glide.raises (h : Glide c d) : c.Raises [] d := .glide h (.refl d)

/-- What every move without a complaint keeps, every sequence of them keeps. -/
theorem Raises.keeps {P : Cursor → Prop} (hstep : ∀ {c d}, Glide c d → P c → P d)
    (h : c.Raises [] d) (hc : P c) : P d := by
  generalize hxs : ([] : List Diagnostic) = xs at h
  induction h with
  | refl => exact hc
  | glide hs _ ih => exact ih (hstep hs hc) hxs
  | report => cases hxs

/-- Sound, and nothing has been raised. -/
structure Clean (c : Cursor) : Prop where
  sound : c.Sound
  silent : c.raised = []

theorem Clean.tidy (h : c.Clean) : c.Tidy := ⟨h.sound.closed, h.sound.ordered⟩

/-- On a clean cursor the lexer has nothing to complain about either. -/
theorem Raises.clean (h : c.Raises [] d) (hc : c.Clean) : d.Clean := by
  refine h.keeps (fun hs hc => ?_) hc
  cases hs with
  | peek => exact ⟨hc.sound.sound_peek, hc.sound.raised_peek.trans hc.silent⟩
  | advance => exact ⟨hc.sound.sound_advance, hc.sound.raised_advance.trans hc.silent⟩

end Cursor

/-- From a tidy cursor that was consumed to `n` and stands before `ts` and `rest`, `p` passes `ts`,
with result `a`, and complains with `xs`. -/
def RunsWith (xs : List Diagnostic) (n : Nat) (p : Parser α) (ts rest : List Token) (a : α) :
    Prop :=
  ∀ c : Cursor, c.Tidy → c.tokens = ts ++ rest → c.consumedTo = n →
    (p c).1 = a ∧ c.Raises xs (p c).2 ∧ (p c).2.tokens = rest ∧ (p c).2.consumedTo = lastStop n ts

/-- From a tidy cursor that was consumed to `n` and stands before `ts` and `rest`, `p` passes `ts`,
with result `a`, and complains about nothing. -/
def Runs (n : Nat) (p : Parser α) (ts rest : List Token) (a : α) : Prop := RunsWith [] n p ts rest a

/-- The token behind a phrase is none of the kinds `ks`. -/
def Stops (ks : List TokenKind) (rest : List Token) : Prop := ∃ t us, rest = t :: us ∧ t.kind ∉ ks

theorem Stops.cons {ks : List TokenKind} (h : t.kind ∉ ks) : Stops ks (t :: us) := ⟨t, us, rfl, h⟩

theorem Stops.mono {ks js : List TokenKind} (h : Stops ks rest) (hjs : js ⊆ ks) :
    Stops js rest := by
  obtain ⟨t, us, rfl, ht⟩ := h
  exact ⟨t, us, rfl, fun hmem => ht (hjs hmem)⟩

namespace RunsWith

variable {xs ys : List Diagnostic}

theorem bind {k : α → Parser β} {b : β} (hp : RunsWith xs n p ts (us ++ rest) a)
    (hk : RunsWith ys (lastStop n ts) (k a) us rest b) :
    RunsWith (xs ++ ys) n (p >>= k) (ts ++ us) rest b := by
  intro c hc ht hn
  obtain ⟨rfl, hd, hdt, hdn⟩ := hp c hc (by rw [ht, List.append_assoc]) hn
  obtain ⟨rfl, he, het, hen⟩ := hk _ (hd.tidy hc) hdt hdn
  exact ⟨rfl, hd.trans he, het, by rw [bind_apply, hen, lastStop_append]⟩

/-- A parser that only looks. -/
theorem look {k : α → Parser β} {b : β}
    (h : ∀ c : Cursor, c.tokens = ts ++ rest → c.consumedTo = n → p c = (a, c))
    (hk : RunsWith xs n (k a) ts rest b) : RunsWith xs n (p >>= k) ts rest b := by
  intro c hc ht hn
  have := hk c hc ht hn
  rwa [bind_apply, h c ht hn]

theorem currentKind {k : TokenKind → Parser β} {b : β} {vs : List Token} (h : ts ++ rest = t :: vs)
    (hk : RunsWith xs n (k t.kind) ts rest b) :
    RunsWith xs n (Parser.currentKind >>= k) ts rest b :=
  look (fun c ht _ => by rw [currentKind_apply, (List.cons.inj (ht.trans h)).1]) hk

theorem map {f : α → β} (hp : RunsWith xs n p ts rest a) :
    RunsWith xs n (f <$> p) ts rest (f a) := by
  intro c hc ht hn
  obtain ⟨rfl, h⟩ := hp c hc ht hn
  exact ⟨rfl, h⟩

section

variable {σ : Type} {round : σ → Parser (ForInStep σ)} {r s s' : σ}

theorem loop_done (h : RunsWith xs n (round s) ts rest (.done r)) :
    RunsWith xs n (loop round s) ts rest r := by
  intro c hc ht hn
  obtain ⟨hround, hd⟩ := h c hc ht hn
  rw [loop_apply, hround]
  exact ⟨rfl, hd⟩

theorem loop_yield (h : RunsWith xs n (round s) ts (us ++ rest) (.yield s')) (hne : ts ≠ [])
    (hloop : RunsWith ys (lastStop n ts) (loop round s') us rest r) :
    RunsWith (xs ++ ys) n (loop round s) (ts ++ us) rest r := by
  intro c hc ht hn
  obtain ⟨hround, hd, hdt, hdn⟩ := h c hc (by rw [ht, List.append_assoc]) hn
  have hlt : (round s c).2.left < c.left := by
    have hlength := congrArg List.length ht
    have hlength' := congrArg List.length hdt
    have hpos := List.length_pos_iff.2 hne
    simp only [Cursor.length_tokens, List.length_append] at hlength hlength'
    omega
  obtain ⟨hr, he, het, hen⟩ := hloop _ (hd.tidy hc) hdt hdn
  rw [loop_apply, hround]
  simp only [hlt, if_true]
  rw [lastStop_append]
  exact ⟨hr, hd.trans he, het, hen⟩

end

section

variable {round : Parser (Round α)} {item : Option α} {found r : List α}

theorem collectRound {again : Bool} (h : RunsWith xs n round ts rest ⟨item, again⟩) :
    RunsWith xs n (Parser.collectRound round found) ts rest
      (if again then .yield (item.toList ++ found) else .done (item.toList ++ found)) := by
  intro c hc ht hn
  obtain ⟨hround, hd⟩ := h c hc ht hn
  refine ⟨?_, hd⟩
  simp [Parser.collectRound, hround]

theorem loop_last (h : RunsWith xs n round ts rest ⟨item, false⟩) :
    RunsWith xs n (loop (Parser.collectRound round) found) ts rest (item.toList ++ found) :=
  loop_done (collectRound h)

theorem loop_more (h : RunsWith xs n round ts (us ++ rest) ⟨item, true⟩) (hne : ts ≠ [])
    (hloop : RunsWith ys (lastStop n ts) (loop (Parser.collectRound round) (item.toList ++ found))
      us rest r) :
    RunsWith (xs ++ ys) n (loop (Parser.collectRound round) found) (ts ++ us) rest r :=
  loop_yield (collectRound h) hne hloop

theorem collect {as : List α}
    (h : RunsWith xs n (loop (Parser.collectRound round) []) ts rest as.reverse) :
    RunsWith xs n (Parser.collect round) ts rest as := by
  rw [← List.reverse_reverse as]
  exact map (f := List.reverse) h

end

end RunsWith

namespace Runs

theorem pure : Runs n (pure a) [] rest a := fun c _ ht hn => ⟨rfl, .refl c, ht, hn⟩

theorem pureEq {b : α} (h : a = b) : Runs n (Pure.pure a) [] rest b := h ▸ pure

theorem bind {k : α → Parser β} {b : β} (hp : Runs n p ts (us ++ rest) a)
    (hk : Runs (lastStop n ts) (k a) us rest b) : Runs n (p >>= k) (ts ++ us) rest b :=
  RunsWith.bind hp hk

/-- The complaints come from the second part. -/
theorem bindWith {xs : List Diagnostic} {k : α → Parser β} {b : β}
    (hp : Runs n p ts (us ++ rest) a) (hk : RunsWith xs (lastStop n ts) (k a) us rest b) :
    RunsWith xs n (p >>= k) (ts ++ us) rest b :=
  RunsWith.bind hp hk

/-- The complaints come from the first part. -/
theorem withBind {xs : List Diagnostic} {k : α → Parser β} {b : β}
    (hp : RunsWith xs n p ts (us ++ rest) a) (hk : Runs (lastStop n ts) (k a) us rest b) :
    RunsWith xs n (p >>= k) (ts ++ us) rest b := by
  rw [← List.append_nil xs]
  exact RunsWith.bind hp hk

/-- The complaints come from the first part, and the second one passes nothing. -/
theorem withBindNil {xs : List Diagnostic} {k : α → Parser β} {b : β}
    (hp : RunsWith xs n p ts rest a) (hk : Runs (lastStop n ts) (k a) [] rest b) :
    RunsWith xs n (p >>= k) ts rest b := by
  rw [← List.append_nil ts]
  exact withBind hp hk

/-- The first part is over one token. -/
theorem bindCons {k : α → Parser β} {b : β} (hp : Runs n p [t] (us ++ rest) a)
    (hk : Runs t.stop (k a) us rest b) : Runs n (p >>= k) (t :: us) rest b :=
  bind hp hk

/-- The first part passes nothing. -/
theorem bindFree {k : α → Parser β} {b : β} (hp : Runs n p [] (us ++ rest) a)
    (hk : Runs n (k a) us rest b) : Runs n (p >>= k) us rest b :=
  bind hp hk

/-- The second part passes nothing. -/
theorem bindNil {k : α → Parser β} {b : β} (hp : Runs n p ts rest a)
    (hk : Runs (lastStop n ts) (k a) [] rest b) : Runs n (p >>= k) ts rest b := by
  rw [← List.append_nil ts]
  exact bind hp hk

theorem map {f : α → β} (hp : Runs n p ts rest a) : Runs n (f <$> p) ts rest (f a) :=
  RunsWith.map hp

/-- The tokens may be taken to stand in order. -/
theorem ordered (h : Ordered (ts ++ rest) → Runs n p ts rest a) : Runs n p ts rest a :=
  fun c hc ht hn => h (ht ▸ hc.ordered) c hc ht hn

/-- A parser that only looks. -/
theorem look {k : α → Parser β} {b : β}
    (h : ∀ c : Cursor, c.tokens = ts ++ rest → c.consumedTo = n → p c = (a, c))
    (hk : Runs n (k a) ts rest b) : Runs n (p >>= k) ts rest b :=
  RunsWith.look h hk

section

variable {k : Token → Parser β} {b : β} {vs : List Token}

theorem current (h : ts ++ rest = t :: vs) (hk : Runs n (k t) ts rest b) :
    Runs n (Parser.current >>= k) ts rest b :=
  look (fun c ht _ => by rw [current_apply, (List.cons.inj (ht.trans h)).1]) hk

end

section

variable {b : β} {vs : List Token} {j : TokenKind}

theorem currentKind {k : TokenKind → Parser β} (h : ts ++ rest = t :: vs)
    (hk : Runs n (k t.kind) ts rest b) : Runs n (Parser.currentKind >>= k) ts rest b :=
  RunsWith.currentKind h hk

theorem check {k : Bool → Parser β} (h : ts ++ rest = t :: vs)
    (hk : Runs n (k (t.kind == j)) ts rest b) : Runs n (Parser.check j >>= k) ts rest b :=
  look (fun c ht _ => by rw [check_apply, (List.cons.inj (ht.trans h)).1]) hk

theorem checkSet {s : KindSet} {k : Bool → Parser β} (h : ts ++ rest = t :: vs)
    (hk : Runs n (k (s.contains t.kind)) ts rest b) : Runs n (Parser.checkSet s >>= k) ts rest b :=
  look (fun c ht _ => by rw [checkSet_apply, (List.cons.inj (ht.trans h)).1]) hk

theorem isAtEnd {k : Bool → Parser β} (h : ts ++ rest = t :: vs)
    (hk : Runs n (k (t.kind == .endOfInput)) ts rest b) :
    Runs n (Parser.isAtEnd >>= k) ts rest b :=
  check h hk

theorem consumedTo {k : Nat → Parser β} (hk : Runs n (k n) ts rest b) :
    Runs n (Parser.consumedTo >>= k) ts rest b :=
  look (fun c _ hn => by rw [consumedTo_apply, hn]) hk

theorem peekKind {u : Token} {k : TokenKind → Parser β} (h : ts ++ rest = t :: u :: vs)
    (hk : Runs n (k u.kind) ts rest b) : Runs n (Parser.peekKind >>= k) ts rest b := by
  intro c hc ht hn
  have hahead : c.ahead ≠ [] := fun hnil => by
    have := ht.trans h
    simp [Cursor.tokens, hnil] at this
  have hu : c.peek.1 = u := by
    rw [← Cursor.current_advance]
    have := (Cursor.tokens_advance_of_ne_nil hahead).symm.trans (ht.trans h)
    exact (List.cons.inj (List.cons.inj this).2).1
  have hpeek : c.Raises [] c.peek.2 := Cursor.Glide.peek.raises
  obtain ⟨hb, hd, hdt, hdn⟩ := hk c.peek.2 (hpeek.tidy hc) (by simpa using ht) (by simpa using hn)
  rw [bind_apply, peekKind_apply, hu]
  exact ⟨hb, hpeek.trans hd, hdt, hdn⟩

end

/-! ## Consuming -/

theorem advance (hk : t.kind ≠ .endOfInput) : Runs n Parser.advance [t] rest t := by
  intro c hc ht hn
  obtain ⟨hcurrent, -⟩ := List.cons.inj ht
  have hpass := hc.closed.passes_advance (by rwa [hcurrent])
  refine ⟨hcurrent, Cursor.Glide.advance.raises, ?_, ?_⟩
  · exact (List.cons.inj (hpass.tokens.symm.trans ht)).2
  · rw [advance_apply, hpass.consumedTo, hcurrent]
    rfl

theorem eat {k : TokenKind} (h : t.kind = k) (hk : k ≠ .endOfInput) :
    Runs n (Parser.eat k) [t] rest (some t) := by
  intro c hc ht hn
  have hcurrent : c.current = t := (List.cons.inj ht).1
  have := advance (by rwa [h]) c hc ht hn
  rw [eat_of_eq (by rwa [hcurrent]), hcurrent]
  exact ⟨rfl, this.2⟩

theorem eatNone {k : TokenKind} (h : Stops [k] rest) : Runs n (Parser.eat k) [] rest none := by
  intro c hc ht hn
  obtain ⟨t, us, rfl, hk⟩ := h
  have hne : c.current.kind ≠ k := by
    rw [(List.cons.inj ht).1]
    simpa using hk
  rw [eat_of_ne hne]
  exact ⟨rfl, .refl c, ht, hn⟩

theorem expect {k : TokenKind} (h : t.kind = k) (hk : k ≠ .endOfInput) :
    Runs n (Parser.expect k) [t] rest (some t) :=
  bindNil (eat h hk) pure

/-- A token that may be there, or not. -/
theorem eatMark {k : TokenKind} {b : Bool} (h : IsMark k ts b) (hk : k ≠ .endOfInput)
    (hstop : ts = [] → Stops [k] rest) :
    ∃ o, Option.isSome o = b ∧ Runs n (Parser.eat k) ts rest o := by
  cases h with
  | absent => exact ⟨none, rfl, eatNone (hstop rfl)⟩
  | present h => exact ⟨some _, rfl, eat h hk⟩

/-! ## Loops -/

section

variable {round : Parser (Round α)} {item : Option α} {found r : List α}

theorem loop_last (h : Runs n round ts rest ⟨item, false⟩) :
    Runs n (loop (collectRound round) found) ts rest (item.toList ++ found) :=
  RunsWith.loop_last h

theorem loop_more (h : Runs n round ts (us ++ rest) ⟨item, true⟩) (hne : ts ≠ [])
    (hloop : Runs (lastStop n ts) (loop (collectRound round) (item.toList ++ found)) us rest r) :
    Runs n (loop (collectRound round) found) (ts ++ us) rest r :=
  RunsWith.loop_more h hne hloop

theorem collect {as : List α} (h : Runs n (loop (collectRound round) []) ts rest as.reverse) :
    Runs n (Parser.collect round) ts rest as :=
  RunsWith.collect h

end

theorem skipSet {s : KindSet} (hs : s.contains .endOfInput = false)
    (hts : ∀ t ∈ ts, s.contains t.kind = true) (hstop : ∃ t us, rest = t :: us ∧
      s.contains t.kind = false) : Runs n (Parser.skipSet s) ts rest () := by
  induction ts generalizing n with
  | nil =>
    obtain ⟨t, us, rfl, ht⟩ := hstop
    have hround : Runs n (skipRound s ()) [] (t :: us) (.done ()) := by
      refine .checkSet rfl ?_
      rw [ht]
      exact .pure
    exact RunsWith.loop_done hround
  | cons t ts ih =>
    have ht := hts t List.mem_cons_self
    have hne : t.kind ≠ .endOfInput := fun h => by simp [h, hs] at ht
    have hround : Runs n (skipRound s ()) [t] (ts ++ rest) (.yield ()) := by
      refine .checkSet rfl ?_
      rw [ht]
      exact .bindNil (.advance hne) .pure
    exact RunsWith.loop_yield hround (List.cons_ne_nil _ _)
      (ih fun u hu => hts u (List.mem_cons_of_mem t hu))

end Runs

/-! ## Names -/

theorem runs_furtherSegment {sep : Token} (hsep : sep.kind = .dot ∨ sep.kind = .colonColon)
    (ht : t.kind = .identifier) : Runs n furtherSegment [sep, t] rest (.more t) := by
  have hne : sep.kind ≠ .endOfInput := by rcases hsep with h | h <;> simp [h]
  refine .check rfl (.check rfl ?_)
  rw [if_pos (by simpa using hsep)]
  exact .bindCons (.advance hne) (.bindNil (.eat ht (by decide)) .pure)

theorem runs_furtherSegment_stop (h : Stops [.dot, .colonColon] rest) :
    Runs n furtherSegment [] rest .stop := by
  obtain ⟨t, us, rfl, ht⟩ := h
  refine .check rfl (.check rfl ?_)
  rw [if_neg (by simpa using ht)]
  exact .pure

theorem runs_segments {segments found : List Token} (h : Segments ts segments)
    (hstop : Stops [.dot, .colonColon] rest) :
    Runs n (loop (collectRound furtherSegment) found) ts rest (segments.reverse ++ found) := by
  induction h generalizing n found with
  | nil => exact .loop_last (runs_furtherSegment_stop hstop)
  | @cons sep t ts segments hsep ht hrest ih =>
    rw [List.reverse_cons, List.append_assoc]
    show Runs n _ ([sep, t] ++ ts) rest _
    exact .loop_more (runs_furtherSegment hsep ht) (by simp) ih

theorem runs_path {name : Path} (h : IsPath ts name) (hstop : Stops [.dot, .colonColon] rest) :
    Runs n path ts rest name := by
  cases h with
  | @mk t ts segments ht hrest =>
    refine .ordered fun hordered => ?_
    rw [← ofSegments_eq hrest (List.pairwise_append.1 hordered).1]
    have hsegments : Runs t.stop (collect furtherSegment) ts rest segments := by
      refine .collect ?_
      rw [← List.append_nil segments.reverse]
      exact runs_segments hrest hstop
    exact .bindCons (.eat ht (by decide)) (.bindNil hsegments .pure)

/-! ## Lists in brackets -/

/-- What `commaAndMore` finds behind an item: a comma and a further item, a comma at the end, or the
end. -/
inductive ListEnd : List Token → List Token → Bool → Prop
  | more {comma : Token} {rest : List Token} (hcomma : comma.kind = .comma)
    (hnext : Stops [.rightBracket] rest) : ListEnd [comma] rest true
  | trailing {comma close : Token} {us : List Token} (hcomma : comma.kind = .comma)
    (hclose : close.kind = .rightBracket) : ListEnd [comma] (close :: us) false
  | last {close : Token} {us : List Token} (hclose : close.kind = .rightBracket) :
    ListEnd [] (close :: us) false

theorem runs_commaAndMore {again : Bool} (h : ListEnd ts rest again) :
    Runs n commaAndMore ts rest again := by
  cases h with
  | more hcomma hnext =>
    obtain ⟨t, us, rfl, ht⟩ := hnext
    have hne : (t.kind == .rightBracket) = false := by simpa using ht
    refine .bindNil (.eat hcomma (by decide)) (.check rfl ?_)
    rw [hne]
    exact .pure
  | trailing hcomma hclose =>
    refine .bindNil (.eat hcomma (by decide)) (.check rfl ?_)
    rw [hclose]
    exact .pure
  | last hclose => exact .bindFree (.eatNone (.cons (by simp [hclose]))) .pure

/-- What may stand behind an item of a list in brackets. -/
theorem ListEnd.stops {again : Bool} {ks : List TokenKind} (h : ListEnd ts rest again)
    (hcomma : .comma ∉ ks) (hclose : .rightBracket ∉ ks) : Stops ks (ts ++ rest) := by
  cases h with
  | more h => exact .cons (by rwa [h])
  | trailing h => exact .cons (by rwa [h])
  | last h => exact .cons (by rwa [h])

/-- A round of a list in brackets runs over the items that have at most `m` tokens. -/
def RoundRuns (m : Nat) (round : Parser (Round α)) (item : Phrase α) : Prop :=
  ∀ n ts a us rest again, ts.length ≤ m → item ts a → ListEnd us rest again →
    Runs n round (ts ++ us) rest ⟨some a, again⟩

theorem runs_commaList {m : Nat} {round : Parser (Round α)} {item : Phrase α} {as : List α}
    {found : List α} {close : Token} (hround : RoundRuns m round item)
    (hitem : ∀ ts a, item ts a → ∀ us, Stops [.rightBracket] (ts ++ us))
    (h : CommaList item ts as) (hm : ts.length ≤ m) (hclose : close.kind = .rightBracket) :
    Runs n (loop (collectRound round) found) ts (close :: rest) (as.reverse ++ found) := by
  induction h generalizing n found with
  | @one ts a ha =>
    have := hround n ts a [] (close :: rest) false hm ha (.last hclose)
    exact .loop_last (by simpa using this)
  | @trailing ts a comma ha hcomma =>
    have hm : ts.length ≤ m := by simp at hm; omega
    exact .loop_last (hround n ts a [comma] (close :: rest) false hm ha (.trailing hcomma hclose))
  | @cons ts us a as comma ha hcomma hrest ih =>
    have hm' : ts.length ≤ m ∧ us.length ≤ m := by simp at hm; omega
    have hnext : Stops [.rightBracket] (us ++ close :: rest) := by
      cases hrest with
      | one h => exact hitem _ _ h _
      | trailing h => simpa using hitem _ _ h _
      | cons h => simpa using hitem _ _ h _
    have hfirst := hround n ts a [comma] (us ++ close :: rest) true hm'.1 ha (.more hcomma hnext)
    rw [List.reverse_cons, List.append_assoc, ← List.singleton_append (l := us),
      ← List.append_assoc]
    exact .loop_more hfirst (by simp) (ih hm'.2)

theorem runs_closeBracket {close : Token} (hclose : close.kind = .rightBracket) :
    Runs n closeBracket [close] rest () :=
  .bindNil (.eat hclose (by decide)) .pure

theorem runs_bracketed {m : Nat} {empty : DiagnosticCode} {round : Parser (Round α)}
    {item : Phrase α} {as : List α} (hround : RoundRuns m round item)
    (hitem : ∀ ts a, item ts a → ∀ us, Stops [.rightBracket] (ts ++ us))
    (h : Bracketed item ts as) (hm : ts.length ≤ m + 1) :
    Runs n (bracketed empty round) ts rest (as, .ofTokens ts) := by
  cases h with
  | @mk bracket close ts as hbracket h hclose =>
    have hm : ts.length ≤ m := by simp at hm; omega
    have hnext : Stops [.rightBracket] (ts ++ [close] ++ rest) := by
      rw [List.append_assoc]
      cases h with
      | one h => exact hitem _ _ h _
      | trailing h => simpa using hitem _ _ h _
      | cons h => simpa using hitem _ _ h _
    have hlist : Runs bracket.stop (collect round) ts ([close] ++ rest) as := by
      refine .collect ?_
      rw [← List.append_nil as.reverse]
      exact runs_commaList hround hitem h hm hclose
    refine .bindCons (.advance (by simp [hbracket])) (.bindFree (.eatNone hnext) ?_)
    refine .bind hlist (.bindNil (runs_closeBracket hclose) (.bindFree .pure (.consumedTo ?_)))
    rw [← lastStop_append]
    exact .pure

theorem runs_genericParam (m : Nat) : RoundRuns m genericParam IsIdentifier := by
  rintro n _ t us rest again - ⟨ht⟩ hend
  exact .bindCons (.eat ht (by decide)) (.bindNil (runs_commaAndMore hend) .pure)

theorem runs_genericParams {params : GenericParams} (h : IsGenericParams ts params) :
    Runs n genericParams ts rest params := by
  cases h with
  | mk h =>
    refine .bindNil (runs_bracketed (runs_genericParam ts.length) ?_ h (Nat.le_succ _)) .pure
    rintro _ t ⟨ht⟩ us
    exact .cons (by simp [ht])

/-! ## Function types -/

/-- The kinds that carry a type on. -/
def typeMore : List TokenKind := [.dot, .colonColon, .leftBracket, .question]

/-- Behind a phrase that may be absent stands its first token, or what stands behind it. -/
theorem Stops.of_mark {k : TokenKind} {b : Bool} {ks : List TokenKind} (h : IsMark k ts b)
    (hk : k ∉ ks) (hrest : Stops ks rest) : Stops ks (ts ++ rest) := by
  cases h with
  | absent => exact hrest
  | present h => exact .cons (by rwa [h])

theorem Stops.of_args {type : Phrase TypeExpr} {args : Option GenericArgs} {ks : List TokenKind}
    (h : Optional (IsGenericArgs type) ts args) (hk : .leftBracket ∉ ks) (hrest : Stops ks rest) :
    Stops ks (ts ++ rest) := by
  cases h with
  | absent => exact hrest
  | present h =>
    obtain ⟨⟨hbracket⟩⟩ := h
    exact .cons (by rwa [hbracket])

/-- No colon stands behind an identifier that begins a type. -/
theorem IsType.notColon {x : TypeExpr} (h : IsType (t :: ts) x) (ht : t.kind = .identifier)
    (hrest : Stops [.colon] rest) : Stops [.colon] (ts ++ rest) := by
  generalize hus : t :: ts = us at h
  cases h with
  | reference h => cases h with
    | @mk held us vs ws _ _ _ _ hheld hname hargs hoptional =>
      cases hheld with
      | own h | borrow h =>
        obtain ⟨rfl, -⟩ := List.cons.inj hus
        simp [ht] at h
      | unspecified =>
        cases hname with
        | @mk u us _ hu hsegments =>
          obtain ⟨rfl, rfl⟩ := List.cons.inj hus
          cases hsegments with
          | cons hsep =>
            refine .cons ?_
            rcases hsep with h | h <;> simp [h]
          | nil =>
            show Stops [.colon] (vs ++ ws ++ rest)
            rw [List.append_assoc]
            exact .of_args hargs (by decide) (.of_mark hoptional (by decide) hrest)
  | protocol h | union h | record h | tuple h | function h =>
    obtain ⟨u, _, rfl, hu⟩ := h.begins
    obtain ⟨rfl, -⟩ := List.cons.inj hus
    simp [ht] at hu

theorem runs_paramName {name : Option Token} {x : TypeExpr} (hname : IsParamName ts name)
    (h : IsType us x) (hrest : Stops [.colon] rest) : Runs n paramName ts (us ++ rest) name := by
  cases hname with
  | present hname hcolon =>
    refine .check rfl ?_
    rw [hname]
    refine .peekKind rfl ?_
    rw [hcolon]
    exact .bindCons (.advance (by simp [hname])) (.bindNil (.advance (by simp [hcolon])) .pure)
  | absent =>
    obtain ⟨u, us, rfl, -⟩ := h.begins
    refine .check rfl ?_
    by_cases hu : u.kind = .identifier
    · obtain ⟨v, vs, hvs, hv⟩ := IsType.notColon h hu hrest
      have hne : (v.kind == .colon) = false := by simpa using hv
      rw [hu]
      refine .peekKind (by rw [List.nil_append, List.cons_append, hvs]) ?_
      rw [hne]
      exact .pure
    · have hne : (u.kind == .identifier) = false := by simpa using hu
      rw [hne]
      exact .pure

theorem param_stops {param : Param} {ks : List TokenKind} (h : IsParam IsType ts param)
    (hks : ∀ k ∈ ks, KindSet.typeStart.contains k = false) : Stops ks (ts ++ rest) := by
  have hfirst {k : TokenKind} (hk : KindSet.typeStart.contains k = true) : k ∉ ks :=
    fun hmem => by simp [hks k hmem] at hk
  cases h with
  | mk hname h =>
    cases hname with
    | absent =>
      obtain ⟨u, us, rfl, hu⟩ := h.begins
      exact .cons (hfirst hu)
    | present hname =>
      exact .cons (hfirst (by rw [hname]; rfl))

theorem Ordered.left (h : Ordered (ts ++ rest)) : Ordered ts := (List.pairwise_append.1 h).1

section

variable {m : Nat} (htype : ∀ n ts x rest, ts.length < m → IsType ts x → Stops typeMore rest →
  Runs n type ts rest x)

include htype

theorem runs_param {param : Param} (h : IsParam IsType ts param) (hm : ts.length < m)
    (hstop : Stops (.colon :: typeMore) rest) : Runs n (Parser.param type) ts rest param := by
  cases h with
  | @mk ts us name x hname h =>
    refine .ordered fun hordered => ?_
    have hm : us.length < m := by simp at hm; omega
    obtain ⟨t, vs, htv⟩ : ∃ t vs, ts ++ us = t :: vs :=
      List.exists_cons_of_ne_nil (by simp [h.ne_nil])
    have hstop' := hstop.mono (List.subset_cons_self _ _)
    refine .current (by rw [htv]; rfl) ?_
    refine .bind (runs_paramName hname h (hstop.mono (by simp))) ?_
    refine .bindNil (htype _ us x rest hm h hstop') (.consumedTo ?_)
    rw [← lastStop_append, h.span_eq,
      span_max hordered.left (List.suffix_append ts us).isInfix h.ne_nil htv]
    exact .pure

theorem runs_furtherParam {param : Param} (h : IsParam IsType ts param) (hm : ts.length < m)
    (hstop : Stops (.colon :: typeMore) (us ++ rest)) {o : Option Token}
    (hcomma : ∀ n, Runs n (Parser.eat .comma) us rest o) :
    Runs n (furtherParam type) (ts ++ us) rest ⟨some param, o.isSome⟩ := by
  obtain ⟨t, vs, htv, ht⟩ : Stops [.rightParen, .endOfInput] (ts ++ (us ++ rest)) :=
    param_stops h (by decide)
  rw [← List.append_assoc] at htv
  refine .check htv (.isAtEnd htv ?_)
  rw [if_neg (by simpa using ht)]
  exact .bind (runs_param htype h hm hstop) (.bindNil (hcomma _) .pure)

omit htype in
theorem runs_furtherParam_stop {close : Token} (hclose : close.kind = .rightParen) :
    Runs n (furtherParam type) [] (close :: rest) .stop := by
  refine .check rfl (.isAtEnd rfl ?_)
  rw [if_pos (by simp [hclose])]
  exact .pure

theorem runs_paramList {params found : List Param} {close : Token}
    (h : CommaList (IsParam IsType) ts params) (hm : ts.length < m)
    (hclose : close.kind = .rightParen) :
    Runs n (loop (collectRound (furtherParam type)) found) ts (close :: rest)
      (params.reverse ++ found) := by
  induction h generalizing n found with
  | @one ts param h =>
    have hfirst : Runs n (furtherParam type) (ts ++ []) (close :: rest)
        ⟨some param, Option.isSome none⟩ :=
      runs_furtherParam htype h hm (.cons (by simp [hclose, typeMore])) fun _ =>
        .eatNone (.cons (by simp [hclose]))
    rw [List.append_nil] at hfirst
    exact .loop_last hfirst
  | @trailing ts param comma h hcomma =>
    have hm : ts.length < m := by simp at hm; omega
    have hfirst : Runs n (furtherParam type) (ts ++ [comma]) (close :: rest)
        ⟨some param, Option.isSome (some comma)⟩ :=
      runs_furtherParam htype h hm (.cons (by simp [hcomma, typeMore])) fun _ =>
        .eat hcomma (by decide)
    rw [← List.append_nil (ts ++ [comma])]
    exact .loop_more hfirst (by simp) (.loop_last (runs_furtherParam_stop hclose))
  | @cons ts us param params comma h hcomma hrest ih =>
    have hm' : ts.length < m ∧ us.length < m := by simp at hm; omega
    have hfirst : Runs n (furtherParam type) (ts ++ [comma]) (us ++ close :: rest)
        ⟨some param, Option.isSome (some comma)⟩ :=
      runs_furtherParam htype h hm'.1 (.cons (by simp [hcomma, typeMore])) fun _ =>
        .eat hcomma (by decide)
    rw [List.append_cons ts, List.reverse_cons, List.append_assoc params.reverse]
    exact .loop_more hfirst (by simp) (ih hm'.2)

theorem runs_params {params : List Param} {close : Token} (h : IsParams IsType ts params)
    (hm : ts.length < m) (hclose : close.kind = .rightParen) :
    Runs n (Parser.params type) (ts ++ [close]) rest params := by
  have hlist : Runs n (collect (furtherParam type)) ts ([close] ++ rest) params := by
    refine .collect ?_
    rw [← List.append_nil params.reverse]
    cases h with
    | none => exact .loop_last (runs_furtherParam_stop hclose)
    | some h => exact runs_paramList htype h hm hclose
  exact .bind hlist (.bindNil (.eat hclose (by decide)) .pure)

theorem runs_function {x : FunctionType} (h : IsFunction IsType ts x) (hm : ts.length ≤ m)
    (hstop : Stops typeMore rest) : Runs n (function type) ts rest x := by
  cases h with
  | @mk ts us vs paren close arrow isAsync params result hasync hparen hparams hclose harrow
      hresult =>
    refine .ordered fun hordered => ?_
    have hm : us.length < m ∧ vs.length < m := by simp at hm; omega
    obtain ⟨t, ws, htw⟩ : ∃ t ws, ts ++ paren :: us ++ close :: arrow :: vs = t :: ws :=
      List.exists_cons_of_ne_nil (by simp)
    have hsplit : ts ++ paren :: us ++ close :: arrow :: vs =
        ts ++ (paren :: (us ++ [close] ++ (arrow :: vs))) := by simp
    refine .current (by rw [htw]; rfl) ?_
    have hparenStop : Stops [.async] (paren :: (us ++ [close] ++ arrow :: vs) ++ rest) :=
      .cons (by simp [hparen])
    obtain ⟨o, rfl, ho⟩ := Runs.eatMark (n := n) hasync (by decide) fun _ => hparenStop
    have hinfix : vs <:+: ts ++ paren :: us ++ close :: arrow :: vs :=
      ⟨ts ++ paren :: us ++ [close, arrow], [], by simp⟩
    have hspan := span_max hordered.left hinfix hresult.ne_nil htw n
    rw [← hspan, hsplit, ← hresult.span_eq]
    refine .bind ho (.bindCons (.expect hparen (by decide)) ?_)
    refine .bind (runs_params htype hparams hm.1 hclose) ?_
    refine .bindNil
      (.bindCons (.eat harrow (by decide)) (htype _ vs result rest hm.2 hresult hstop))
      (.consumedTo (.pureEq ?_))
    simp only [lastStop_append, lastStop]

end

/-! ## Bodies in braces -/

/-- The kinds that carry a member on. -/
def memberMore : List TokenKind := .leftParen :: .equal :: typeMore

theorem Stops.of_memberStop {ks : List TokenKind}
    (h : KindSet.memberStop.contains t.kind = true)
    (hks : ∀ k ∈ ks, KindSet.memberStop.contains k = false) : Stops ks (t :: us) :=
  .cons fun hmem => by simp [hks _ hmem] at h

/-- A parser of members that runs over those with fewer than `m` tokens. -/
def MemberRuns (m : Nat) (member : Parser (Option α)) (item : Phrase α) : Prop :=
  ∀ n ts a rest, ts.length < m → item ts a → Stops memberMore rest → Runs n member ts rest (some a)

theorem runs_closeMember (h : KindSet.memberStop.contains t.kind = true) :
    Runs n (closeMember true) [] (t :: rest) () := by
  refine .checkSet rfl (.isAtEnd rfl ?_)
  rw [if_pos (by simp [h])]
  exact .pure

theorem contains_separator {seps : List Token} (h : ∀ t ∈ seps, IsSeparator t) :
    ∀ t ∈ seps, KindSet.separator.contains t.kind = true :=
  fun t ht => isSeparator_iff.2 (h t ht)

section

variable {m : Nat} {member : Parser (Option α)} {item : Phrase α} {seps : List Token}
  {close : Token}

theorem runs_furtherMember (hmember : MemberRuns m member item) (hitem : Begins item)
    (hseps : ∀ t ∈ seps, IsSeparator t) (h : item ts a) (hm : ts.length < m)
    (ht : KindSet.memberStop.contains t.kind = true) :
    Runs n (furtherMember member) (seps ++ ts) (t :: rest) ⟨some a, true⟩ := by
  obtain ⟨u, us, rfl, hu, hend⟩ := hitem ts a h
  have hne : KindSet.separator.contains u.kind = false ∧ u.kind ≠ .rightBrace := by
    simpa [KindSet.memberStop, KindSet.insert] using hu
  have hskip : Runs n (skipSet .separator) seps (u :: us ++ t :: rest) () :=
    .skipSet rfl (contains_separator hseps) ⟨u, us ++ t :: rest, rfl, hne.1⟩
  refine .bind hskip (.bindFree (.eatNone (.cons (by simpa using hne.2))) (.isAtEnd rfl ?_))
  rw [if_neg (by simpa using hend)]
  refine .bindNil (hmember _ _ a _ hm h (.of_memberStop ht (by decide))) ?_
  exact .bindFree (runs_closeMember ht) .pure

theorem runs_furtherMember_stop (hseps : ∀ t ∈ seps, IsSeparator t)
    (hclose : close.kind = .rightBrace) :
    Runs n (furtherMember member) (seps ++ [close]) rest .stop := by
  have hskip : Runs n (skipSet .separator) seps ([close] ++ rest) () :=
    .skipSet rfl (contains_separator hseps) ⟨close, rest, rfl, by rw [hclose]; rfl⟩
  exact .bind hskip (.bindNil (.eat hclose (by decide)) .pure)

/-- The rounds of a body, in front of which separators stand. -/
theorem runs_members {as found : List α} (hmember : MemberRuns m member item)
    (hitem : Begins item) (h : Members item ts as) (hm : ts.length < m)
    (hseps : ∀ t ∈ seps, IsSeparator t) (hclose : close.kind = .rightBrace) :
    Runs n (loop (collectRound (furtherMember member)) found) (seps ++ ts ++ [close]) rest
      (as.reverse ++ found) := by
  have happend {seps us : List Token} (hseps : ∀ t ∈ seps, IsSeparator t)
      (hus : ∀ t ∈ us, IsSeparator t) : ∀ t ∈ seps ++ us, IsSeparator t := fun t ht =>
    (List.mem_append.1 ht).elim (hseps t) (hus t)
  induction h generalizing n found seps with
  | nil hts => exact .loop_last (runs_furtherMember_stop (happend hseps hts) hclose)
  | @last us ts a hus h =>
    have hm : ts.length < m := by simp at hm; omega
    have hfirst : Runs n (furtherMember member) (seps ++ us ++ ts) (close :: rest) ⟨some a, true⟩ :=
      runs_furtherMember hmember hitem (happend hseps hus) h hm (by rw [hclose]; rfl)
    have hstop : Runs (lastStop n (seps ++ us ++ ts)) (furtherMember member) ([] ++ [close]) rest
        .stop :=
      runs_furtherMember_stop (by simp) hclose
    have hsplit : seps ++ (us ++ ts) ++ [close] = seps ++ us ++ ts ++ ([] ++ [close]) := by simp
    rw [hsplit]
    exact .loop_more hfirst (by simp [hitem.ne_nil h]) (.loop_last hstop)
  | @cons us ts vs a as sep hus h hsep hrest ih =>
    have hm' : ts.length < m ∧ vs.length < m := by simp at hm; omega
    have hfirst : Runs n (furtherMember member) (seps ++ us ++ ts) (sep :: (vs ++ [close] ++ rest))
        ⟨some a, true⟩ :=
      runs_furtherMember hmember hitem (happend hseps hus) h hm'.1 (memberStop_of_separator hsep)
    have hlast : Runs (lastStop n (seps ++ us ++ ts)) (loop (collectRound (furtherMember member))
        (a :: found)) ([sep] ++ vs ++ [close]) rest (as.reverse ++ (a :: found)) :=
      ih hm'.2 (by simpa using hsep)
    have hsplit : seps ++ (us ++ ts ++ sep :: vs) ++ [close] =
        seps ++ us ++ ts ++ ([sep] ++ vs ++ [close]) := by simp
    rw [hsplit, List.reverse_cons, List.append_assoc as.reverse]
    exact .loop_more hfirst (by simp [hitem.ne_nil h]) hlast

theorem runs_braced {k : TokenKind} {as : List α} (hmember : MemberRuns m member item)
    (hitem : Begins item) (h : Braced k item ts as) (hk : k ≠ .endOfInput) (hm : ts.length ≤ m) :
    Runs n (braced member) ts rest (as, .ofTokens ts) := by
  cases h with
  | @mk brace close ts as hbrace h hclose =>
    have hm : ts.length < m := by simp at hm; omega
    have hlist : Runs brace.stop (collect (furtherMember member)) (ts ++ [close]) rest as := by
      refine .collect ?_
      rw [← List.append_nil as.reverse]
      exact runs_members hmember hitem h hm (List.forall_mem_nil _) hclose
    exact .bindCons (.advance (by rwa [hbrace])) (.bindNil hlist (.consumedTo .pure))

end

/-! ## Members -/

theorem runs_memberName (ht : t.kind = .identifier) : Runs n memberName [t] rest (some t) :=
  .bindNil (.eat ht (by decide)) .pure

theorem runs_memberColon {next : KindSet} (ht : t.kind = .colon) :
    Runs n (memberColon next) [t] rest true :=
  .bindNil (.eat ht (by decide)) .pure

/-- What is assigned, if anything. -/
def assignedOf : Option Token → Assigned
  | none => .nothing
  | some t => .value t

theorem runs_assigned {ks : List TokenKind} {value : Option Token}
    (h : Optional (IsAssigned ks) ts value) (hks : .endOfInput ∉ ks) (hstop : Stops [.equal] rest) :
    Runs n (assigned ks) ts rest (assignedOf value) := by
  cases h with
  | absent => exact .bindFree (.eatNone hstop) .pure
  | present h => cases h with
    | @mk equal value hequal hvalue =>
      refine .bindCons (.eat hequal (by decide)) (.checkSet rfl ?_)
      rw [if_pos (by simpa [KindSet.ofList] using hvalue)]
      exact .bindNil (.advance fun h => hks (h ▸ hvalue)) .pure

theorem Stops.of_assigned {ks js : List TokenKind} {value : Option Token}
    (h : Optional (IsAssigned ks) ts value) (hjs : .equal ∉ js) (hrest : Stops js rest) :
    Stops js (ts ++ rest) := by
  cases h with
  | absent => exact hrest
  | present h =>
    obtain ⟨hequal⟩ := h
    exact .cons (by rwa [hequal])

section

variable {m : Nat} (htype : ∀ n ts x rest, ts.length < m → IsType ts x → Stops typeMore rest →
  Runs n type ts rest x)

include htype

theorem runs_method : MemberRuns m (method type) (IsMethod IsType) := by
  rintro n _ _ rest hm ⟨hname, hcolon, h⟩ hstop
  rename_i name colon ts signature
  refine .ordered fun hordered => ?_
  have hm : ts.length ≤ m := by simp at hm; omega
  obtain ⟨t, us, rfl, ht⟩ : ∃ t us, ts = t :: us ∧
      KindSet.functionStart.contains t.kind = true := by
    cases h with
    | mk hasync hparen => cases hasync with
      | absent => exact ⟨_, _, rfl, by rw [hparen]; rfl⟩
      | present h => exact ⟨_, _, rfl, by rw [h]; rfl⟩
  refine .bindCons (runs_memberName hname) (.bindCons (runs_memberColon hcolon) (.checkSet rfl ?_))
  rw [if_pos ht]
  refine .bindNil (runs_function htype h hm (hstop.mono (by decide))) (.pureEq ?_)
  have hordered : Ordered (name :: [colon] ++ t :: us) := hordered.left
  rw [h.span_eq, merge_ofTokens hordered (by simp)]
  rfl

theorem runs_payload {payload : Option TypeExpr} (h : Optional (IsPayload IsType) ts payload)
    (hm : ts.length < m) (hstop : Stops [.leftParen] rest) :
    Runs n (Parser.payload type) ts rest payload := by
  cases h with
  | absent => exact .bindFree (.eatNone hstop) .pure
  | present h => cases h with
    | @mk paren close ts x hparen h hclose =>
      have hm : ts.length < m := by simp at hm; omega
      refine .bindCons (.eat hparen (by decide)) ?_
      exact .bind (htype _ ts _ _ hm h (.cons (by simp [hclose, typeMore])))
        (.bindNil (.eat hclose (by decide)) .pure)

theorem runs_variant : MemberRuns m (variant type) (IsVariant IsType) := by
  rintro n _ _ rest hm ⟨htag, hpayload, hdiscriminant⟩ hstop
  rename_i tag ts us payload discriminant
  have hm : ts.length < m := by simp at hm; omega
  have hstop' : Stops [.leftParen] (us ++ rest) :=
    .of_assigned hdiscriminant (by decide) (hstop.mono (by decide))
  have hassigned (k : Nat) := runs_assigned (n := k) hdiscriminant (by decide)
    (hstop.mono (by decide))
  refine .bindCons (runs_memberName htag) (.bind (runs_payload htype hpayload hm hstop')
    (.bindNil (hassigned _) ?_))
  have hspan : lastStop (lastStop tag.stop ts) us = lastStop tag.stop (ts ++ us) :=
    (lastStop_append _ ts us).symm
  cases discriminant with
  | none =>
    refine .consumedTo (.pureEq ?_)
    rw [hspan]
    rfl
  | some t =>
    refine .consumedTo (.pureEq ?_)
    rw [hspan]
    rfl

theorem runs_field : MemberRuns m (field type) (IsRecordField IsType) := by
  rintro n _ _ rest hm ⟨hname, hcolon, h, hdefault⟩ hstop
  rename_i name colon ts us x default
  refine .ordered fun hordered => ?_
  have hm : ts.length < m := by simp at hm; omega
  have hstop' : Stops typeMore (us ++ rest) :=
    .of_assigned hdefault (by decide) (hstop.mono (by decide))
  have hassigned (k : Nat) := runs_assigned (n := k) hdefault (by decide) (hstop.mono (by decide))
  refine .bindCons (runs_memberName hname) (.bindCons (runs_memberColon hcolon) ?_)
  refine .bind (htype _ ts x _ hm h hstop') (.bindNil (hassigned _) ?_)
  have hspan := span_max hordered.left ⟨[name, colon], us, rfl⟩ h.ne_nil rfl n
  have hlast : lastStop (lastStop colon.stop ts) us =
      lastStop n (name :: colon :: ts ++ us) := (lastStop_append _ ts us).symm
  cases default with
  | none =>
    refine .consumedTo (.pureEq ?_)
    rw [h.span_eq, hlast, hspan]
  | some t =>
    refine .consumedTo (.pureEq ?_)
    rw [h.span_eq, hlast, hspan]

/-! ## Types -/

theorem runs_genericArg {k : Nat} (hk : k < m) : RoundRuns k (genericArg type) IsType :=
  fun _ ts x _ _ _ hm h hend =>
    .bind (htype _ ts x _ (Nat.lt_of_le_of_lt hm hk) h (hend.stops (by decide) (by decide)))
      (.bindNil (runs_commaAndMore hend) .pure)

theorem runs_genericArgs {args : GenericArgs} (h : IsGenericArgs IsType ts args)
    (hm : ts.length ≤ m) : Runs n (genericArgs type) ts rest args := by
  cases h with
  | mk h =>
    have hlt : ts.length - 1 < m := by
      obtain ⟨hbracket, hlist, hclose⟩ := h
      simp at hm ⊢
      omega
    refine .bindNil (runs_bracketed (runs_genericArg htype hlt) ?_ h (by omega)) .pure
    intro ts x hx us
    obtain ⟨u, vs, rfl, hu⟩ := hx.begins
    refine .cons fun hmem => ?_
    rw [List.mem_singleton.1 hmem] at hu
    exact absurd hu (by decide)

omit htype in
theorem runs_ownership {held : Ownership} (h : IsOwnership ts held)
    (hstop : Stops [.own, .borrow] rest) : Runs n ownership ts rest held := by
  cases h with
  | unspecified =>
    exact .bindFree (.eatNone (hstop.mono (by simp))) (.bindFree (.eatNone (hstop.mono (by simp)))
      .pure)
  | own h => exact .bindNil (.eat h (by decide)) .pure
  | @borrow t h =>
    exact .bindFree (.eatNone (.cons (by simp [h]))) (.bindNil (.eat h (by decide)) .pure)

theorem runs_reference {ref : TypeRef} (h : IsReference IsType ts ref) (hm : ts.length ≤ m)
    (hstop : Stops typeMore rest) : Runs n (reference type) ts rest ref := by
  cases h with
  | @mk ts us vs ws held name args optional hheld hname hargs hoptional =>
    refine .ordered fun hordered => ?_
    obtain ⟨t, zs, htz⟩ : ∃ t zs, ts ++ us ++ vs ++ ws = t :: zs :=
      List.exists_cons_of_ne_nil (by simp [hname.ne_nil])
    have hinfix : us <:+: ts ++ us ++ vs ++ ws := ⟨ts, vs ++ ws, by simp⟩
    have hspan := span_max hordered.left hinfix hname.ne_nil htz n
    have hm : vs.length ≤ m := by simp at hm; omega
    have hbehind {ks : List TokenKind} (hks : ks ⊆ typeMore) (hbracket : .leftBracket ∉ ks)
        (hquestion : .question ∉ ks) : Stops ks (vs ++ (ws ++ rest)) :=
      .of_args hargs hbracket (.of_mark hoptional hquestion (hstop.mono hks))
    have hquestion : Stops [.question] rest := hstop.mono (by decide)
    obtain ⟨o, rfl, ho⟩ :=
      Runs.eatMark (n := lastStop n (ts ++ us ++ vs)) hoptional (by decide) fun _ => hquestion
    refine .current (by rw [htz]; rfl) ?_
    rw [← hspan, ← hname.span_eq, List.append_assoc, List.append_assoc]
    refine .bind (runs_ownership hheld ?_) (.bind (runs_path hname ?_) ?_)
    · obtain ⟨u, us, rfl, hu⟩ := hname.begins
      exact .cons (by simp [hu])
    · simpa using hbehind (by decide) (by decide) (by decide)
    · have hrest {k : Nat} (hk : k = lastStop n (ts ++ us ++ vs)) : Runs k
          (do
            let optional := (← Parser.eat .question).isSome
            return (⟨held, name, args, optional,
              ⟨t.start, max (← consumedTo) name.span.stop⟩⟩ : TypeRef)) ws rest
          ⟨held, name, args, o.isSome,
            ⟨t.start, max (lastStop n (ts ++ (us ++ (vs ++ ws)))) name.span.stop⟩⟩ := by
        subst hk
        refine .bindNil ho (.consumedTo (.pureEq ?_))
        rw [← lastStop_append]
        simp
      cases hargs with
      | absent =>
        obtain ⟨u, xs, hux, hu⟩ : Stops [.leftBracket] (ws ++ rest) :=
          .of_mark hoptional (by decide) (hstop.mono (by decide))
        have hne : (u.kind == .leftBracket) = false := by simpa using hu
        refine .check hux ?_
        rw [hne]
        exact hrest (by simp [lastStop_append])
      | present h =>
        obtain ⟨u, xs, rfl, hu⟩ : ∃ u xs, vs = u :: xs ∧ u.kind = .leftBracket := by
          obtain ⟨⟨hbracket⟩⟩ := h
          exact ⟨_, _, rfl, hbracket⟩
        refine .check rfl ?_
        rw [hu]
        exact .bind (.map (runs_genericArgs htype h hm)) (hrest (by simp [lastStop_append]))

theorem runs_typeLayer {x : TypeExpr} (h : IsType ts x) (hm : ts.length ≤ m)
    (hstop : Stops typeMore rest) : Runs n (typeLayer type) ts rest x := by
  cases h with
  | protocol h =>
    obtain ⟨t, us, htu, hk⟩ := h.begins
    refine .currentKind (by rw [htu]; rfl) ?_
    rw [hk]
    exact .bindNil (runs_braced (runs_method htype) begins_method h (by decide) hm) .pure
  | union h =>
    obtain ⟨t, us, htu, hk⟩ := h.begins
    refine .currentKind (by rw [htu]; rfl) ?_
    rw [hk]
    exact .bindNil (runs_braced (runs_variant htype) begins_variant h (by decide) hm) .pure
  | record h =>
    obtain ⟨t, us, htu, hk⟩ := h.begins
    refine .currentKind (by rw [htu]; rfl) ?_
    rw [hk]
    exact .bindNil (runs_braced (runs_field htype) begins_field h (by decide) hm) .pure
  | tuple h =>
    have helement : MemberRuns m (some <$> type) IsType := fun n ts x rest hm h hstop =>
      .map (htype n ts x rest hm h (hstop.mono (by decide)))
    obtain ⟨t, us, htu, hk⟩ := h.begins
    refine .currentKind (by rw [htu]; rfl) ?_
    rw [hk]
    exact .bindNil (runs_braced helement begins_type h (by decide) hm) .pure
  | function h =>
    have hfunction := runs_function htype (n := n) h hm hstop
    obtain ⟨t, us, htu, hk⟩ := h.begins
    refine .currentKind (by rw [htu]; rfl) ?_
    rcases hk with hk | hk <;> rw [hk] <;> exact .bindNil hfunction .pure
  | reference h =>
    have hreference := runs_reference htype (n := n) h hm hstop
    obtain ⟨t, us, htu, hk⟩ := h.begins
    refine .currentKind (by rw [htu]; rfl) ?_
    rcases hk with hk | hk | hk <;> rw [hk] <;> exact .bindNil hreference .pure

end

/-- **The parser of types runs over every type.** -/
theorem runs_type {x : TypeExpr} (h : IsType ts x) (hstop : Stops typeMore rest) :
    Runs n type ts rest x := by
  have hall : ∀ m n ts x rest, ts.length < m → IsType ts x → Stops typeMore rest →
      Runs n type ts rest x := by
    intro m
    induction m with
    | zero => exact fun n ts x rest hm => absurd hm (Nat.not_lt_zero _)
    | succ m ih =>
      intro n ts x rest hm h hstop c hc ht hn
      rw [← typeLayer_type hc.closed]
      exact runs_typeLayer ih h (Nat.le_of_lt_succ hm) hstop c hc ht hn
  exact hall _ n ts x rest (Nat.lt_succ_self _) h hstop

/-! ## Modules -/

theorem runs_closeHeader {close₁ close₂ : Token} (h₁ : close₁.kind = .rightBracket)
    (h₂ : close₂.kind = .rightBracket) : Runs n closeHeader [close₁, close₂] rest () :=
  .bindCons (.expect h₁ (by decide)) (.bindNil (.expect h₂ (by decide)) .pure)

theorem runs_header {header : ModuleHeader} (h : IsHeader ts header) :
    Runs n Parser.header ts rest header := by
  cases h with
  | @mk open₁ open₂ close₁ close₂ ts name hopen₁ hopen₂ h hclose₁ hclose₂ =>
    refine .current rfl (.check rfl ?_)
    rw [hopen₁]
    refine .peekKind rfl ?_
    rw [hopen₂]
    have hne : open₁.kind ≠ .endOfInput ∧ open₂.kind ≠ .endOfInput := by simp [hopen₁, hopen₂]
    refine .bindFree .pure (.bindCons (.advance hne.1) (.bindCons (.advance hne.2) ?_))
    refine .bind (runs_path h (.cons (by simp [hclose₁]))) ?_
    refine .bindNil (runs_closeHeader hclose₁ hclose₂) (.consumedTo (.pureEq ?_))
    rw [← lastStop_append]
    rfl

theorem runs_definedType {define : Token} {x : TypeExpr} (isGeneric : Bool)
    (hdefine : define.kind = .colonEqual) (h : IsType ts x) (hstop : Stops typeMore rest) :
    Runs n (definedType isGeneric) (define :: ts) rest (some x) :=
  .bindCons (.eat hdefine (by decide)) (.bindNil (runs_type h hstop) .pure)

theorem runs_declarationHead {d : Declaration} (h : IsDeclaration ts d)
    (hstop : Stops typeMore rest) : Runs n declarationHead ts rest (d, true) := by
  cases h with
  | @mk name define ts us generics x hname hgenerics hdefine h =>
    refine .ordered fun hordered => ?_
    have hinfix : us <:+: name :: ts ++ define :: us := ⟨name :: ts ++ [define], [], by simp⟩
    have hspan := span_max hordered.left hinfix h.ne_nil rfl n
    have hrest {k : Nat} (hk : k = lastStop n (name :: ts)) :
        Runs k (declarationOf name generics) (define :: us) rest
          (⟨name, generics, x, .ofTokens (name :: ts ++ define :: us)⟩, true) := by
      subst hk
      refine .bindNil (runs_definedType _ hdefine h hstop) (.consumedTo (.pureEq ?_))
      rw [← lastStop_append, h.span_eq, hspan]
    refine .bindCons (.advance (by simp [hname])) ?_
    cases hgenerics with
    | absent =>
      refine .check rfl ?_
      rw [hdefine]
      exact hrest rfl
    | present hgenerics =>
      obtain ⟨t, vs, rfl, ht⟩ : ∃ t vs, ts = t :: vs ∧ t.kind = .leftBracket := by
        obtain ⟨⟨hbracket⟩⟩ := hgenerics
        exact ⟨_, _, rfl, hbracket⟩
      refine .check rfl ?_
      rw [ht]
      exact .bind (.map (runs_genericParams hgenerics)) (hrest rfl)

theorem runs_skipTerminators (hts : ∀ t ∈ ts, t.kind = .terminator)
    (hstop : Stops [.terminator] rest) : Runs n skipTerminators ts rest () := by
  obtain ⟨t, us, rfl, ht⟩ := hstop
  refine .skipSet rfl (fun u hu => ?_) ⟨t, us, rfl, by simpa [KindSet.ofList] using ht⟩
  simp [KindSet.ofList, hts u hu]

/-- The end of a declaration takes the first of the terminators behind it. -/
theorem runs_closeDeclaration {run : List Token} (hrun : ∀ t ∈ run, t.kind = .terminator)
    (hend : run = [] → Stops [] rest ∧ ∀ t us, rest = t :: us → t.kind = .endOfInput) :
    Runs n closeDeclaration (run.take 1) (run.drop 1 ++ rest) () := by
  cases run with
  | nil =>
    obtain ⟨⟨t, us, rfl, -⟩, hkind⟩ := hend rfl
    refine .currentKind rfl ?_
    rw [hkind t us rfl]
    exact .pure
  | cons t run =>
    have ht := hrun t List.mem_cons_self
    refine .currentKind rfl ?_
    rw [ht]
    exact .bindNil (.advance (by simp [ht])) .pure

/-- A declaration is followed by terminators, or by the end of the text. -/
theorem runs_furtherDeclaration {d : Declaration} {run : List Token} (h : IsDeclaration ts d)
    (hrun : ∀ t ∈ run, t.kind = .terminator) (hstop : Stops [.terminator] rest)
    (hend : run = [] → ∃ t us, rest = t :: us ∧ t.kind = .endOfInput) :
    Runs n furtherDeclaration (ts ++ run) rest ⟨some d, true⟩ := by
  obtain ⟨t, us, hts, ht⟩ : ∃ t us, ts = t :: us ∧ t.kind = .identifier := by
    cases h with
    | mk hname => exact ⟨_, _, rfl, hname⟩
  have htokens : ts ++ run ++ rest = t :: (us ++ run ++ rest) := by simp [hts]
  refine .isAtEnd htokens ?_
  rw [if_neg (by simp [ht])]
  refine .check htokens (.checkSet htokens ?_)
  rw [if_pos (by simp [ht])]
  have hnext : Stops typeMore (run ++ rest) := by
    cases run with
    | cons u run => exact .cons (by simp [hrun u List.mem_cons_self, typeMore])
    | nil =>
      obtain ⟨u, us, rfl, hu⟩ := hend rfl
      exact .cons (by simp [hu, typeMore])
  have hclose : Runs (lastStop n ts) closeDeclaration (run.take 1) (run.drop 1 ++ rest) () := by
    refine runs_closeDeclaration hrun fun hnil => ?_
    obtain ⟨u, us, rfl, hu⟩ := hend hnil
    exact ⟨.cons (by simp), fun _ _ heq => (List.cons.inj heq).1 ▸ hu⟩
  have hdeclaration : Runs n declaration (ts ++ run.take 1) (run.drop 1 ++ rest) d := by
    refine .bind (runs_declarationHead h ?_) (.bindNil hclose .pure)
    rwa [← List.append_assoc, List.take_append_drop]
  have hskip (k : Nat) : Runs k skipTerminators (run.drop 1) rest () :=
    runs_skipTerminators (fun u hu => hrun u (List.mem_of_mem_drop hu)) hstop
  rw [← List.take_append_drop 1 run, ← List.append_assoc]
  exact .bind (.map hdeclaration) (.bindNil (hskip _) .pure)

theorem runs_furtherDeclaration_stop (ht : t.kind = .endOfInput) :
    Runs n furtherDeclaration [] (t :: us) .stop := by
  refine .isAtEnd rfl ?_
  rw [ht]
  exact .pure

theorem stops_terminator {ds : List Declaration} (h : Declarations ts ds)
    (ht : t.kind = .endOfInput) : Stops [.terminator] (ts ++ t :: us) := by
  have hfirst {ts : List Token} {d : Declaration} (h : IsDeclaration ts d) (vs : List Token) :
      Stops [.terminator] (ts ++ vs) := by
    cases h with
    | mk hname => exact .cons (by simp [hname])
  cases h with
  | nil => exact .cons (by simp [ht])
  | last h => exact hfirst h _
  | cons h =>
    rw [List.append_assoc, List.append_assoc]
    exact hfirst h _

theorem runs_declarations {ds found : List Declaration} (h : Declarations ts ds)
    (ht : t.kind = .endOfInput) :
    Runs n (loop (collectRound furtherDeclaration) found) ts [t] (ds.reverse ++ found) := by
  induction h generalizing n found with
  | nil => exact .loop_last (runs_furtherDeclaration_stop ht)
  | @last ts d h =>
    have hfirst : Runs n furtherDeclaration (ts ++ []) [t] ⟨some d, true⟩ :=
      runs_furtherDeclaration h (by simp) (.cons (by simp [ht])) fun _ => ⟨t, [], rfl, ht⟩
    rw [List.append_nil] at hfirst
    have hne : ts ≠ [] := by cases h; simp
    rw [← List.append_nil ts]
    exact .loop_more hfirst hne (.loop_last (runs_furtherDeclaration_stop ht))
  | @cons ts run us d ds h hrun hne hrest ih =>
    have hfirst : Runs n furtherDeclaration (ts ++ run) (us ++ [t]) ⟨some d, true⟩ :=
      runs_furtherDeclaration h hrun (stops_terminator hrest ht) fun hnil => absurd hnil hne
    rw [List.reverse_cons, List.append_assoc ds.reverse]
    exact .loop_more hfirst (by simp [hne]) ih

/-- **The parser of modules runs over every module.** -/
theorem runs_module {r : ModuleHeader × List Declaration} (h : IsModule ts r) :
    ∃ us t, ts = us ++ [t] ∧ t.kind = .endOfInput ∧ Runs n module us [t] r := by
  cases h with
  | @mk before hs run us last header ds hbefore hheader hrun hds hlast =>
    refine ⟨before ++ hs ++ run ++ us, last, rfl, hlast, ?_⟩
    have hdeclarations (k : Nat) : Runs k (collect furtherDeclaration) us [last] ds := by
      refine .collect ?_
      rw [← List.append_nil ds.reverse]
      exact runs_declarations hds hlast
    rw [List.append_assoc, List.append_assoc]
    refine .bind (runs_skipTerminators hbefore ?_) (.bind (runs_header hheader) ?_)
    · cases hheader with
      | mk hopen₁ => exact .cons (by simp [hopen₁])
    · refine .bind (runs_skipTerminators hrun ?_) (.bindNil (hdeclarations _) .pure)
      exact stops_terminator hds hlast

end DeclFront
