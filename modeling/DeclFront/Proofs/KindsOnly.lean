import DeclFront.Proofs.Shift
import DeclFront.Proofs.Tiling
import DeclFront.Proofs.Whereabouts

/-!
# Parsing looks at the kinds of tokens alone

The **rank** of an offset is the number of significant tokens that begin in front of it, so the rank
of a token is its index. Two texts whose tokens have the same kinds are parsed in the same way: the
trees agree once all tokens and offsets are replaced by their ranks, and so do the complaints of the
parser.

Offsets do decide something, for of the complaints about one offset only the first is kept. But the
offsets that a parser compares are those of tokens, and these are different just where the ranks are
(`Spaced.rank_inj`). Reading every cursor at the ranks of its tokens is therefore a translation
(`Translation.ranked`), which every parser carries. Both texts are translated to one and the same
cursor, before the tokens that their kinds alone tell (`Cursor.ranked_ofChars`).

**Theorem (`Module.ranked_eq_of_kinds_eq`).** Blanks, comments and the spellings of tokens do not
change what is parsed.
-/

namespace DeclFront

open DeclFront.Parser

variable {ts : List Token}

/-! ## Ranks -/

/-- How many of the tokens begin in front of the offset. At the offset of a token, that is the index
of the token. -/
def rank (ts : List Token) (n : Nat) : Nat := ts.countP (·.start < n)

/-- The token with its index for a place, and with a length that counts tokens. -/
def Token.ranked (ts : List Token) (t : Token) : Token :=
  ⟨t.kind, ⟨rank ts t.start, 1, 1⟩, rank ts t.stop - rank ts t.start⟩

/-- The diagnostic at the index of the token that it is about, with a length that counts tokens. -/
def Diagnostic.ranked (ts : List Token) (x : Diagnostic) : Diagnostic :=
  { x with
    position := ⟨rank ts x.offset, 1, 1⟩
    length := rank ts (x.offset + x.length) - rank ts x.offset }

/-- The header with every token and every offset replaced by its rank. -/
def ModuleHeader.ranked (ts : List Token) (h : ModuleHeader) : ModuleHeader :=
  h.map (.ranked ts) (rank ts)

/-- The declaration with every token and every offset replaced by its rank. -/
def Declaration.ranked (ts : List Token) (d : Declaration) : Declaration :=
  d.map (.ranked ts) (rank ts)

theorem rank_mono (ts : List Token) : Monotone (rank ts) := fun n m h =>
  List.countP_mono_left fun t _ ht => by
    simp only [decide_eq_true_eq] at ht ⊢
    exact Nat.lt_of_lt_of_le ht h

theorem Token.stop_ranked (ts : List Token) (t : Token) : (t.ranked ts).stop = rank ts t.stop :=
  Nat.add_sub_cancel' (rank_mono ts (Nat.le_add_right _ _))

/-- The tokens in front of a place that none of the others is in front of. -/
theorem rank_of_append {us vs : List Token} {n : Nat} (hus : ∀ u ∈ us, u.start < n)
    (hvs : ∀ v ∈ vs, n ≤ v.start) : rank (us ++ vs) n = us.length := by
  have hfront : us.countP (·.start < n) = us.length :=
    List.countP_eq_length.2 fun u hu => decide_eq_true (hus u hu)
  have hbehind : vs.countP (·.start < n) = 0 :=
    List.countP_eq_zero.2 fun v hv => by simpa using hvs v hv
  rw [rank, List.countP_append, hfront, hbehind, Nat.add_zero]

namespace Spaced

variable {t u : Token} {us vs : List Token}

theorem start_le (h : Spaced (us ++ t :: vs)) :
    (∀ u ∈ us, u.start < t.start) ∧ ∀ v ∈ t :: vs, t.start ≤ v.start := by
  obtain ⟨-, hvs, hus⟩ := List.pairwise_append.1 h.pairwise
  refine ⟨fun u hu => hus u hu t List.mem_cons_self, fun v hv => ?_⟩
  rcases List.mem_cons.1 hv with rfl | hv
  · exact Nat.le_refl _
  · exact Nat.le_of_lt ((List.pairwise_cons.1 hvs).1 v hv)

theorem rank_start (h : Spaced (us ++ t :: vs)) : rank (us ++ t :: vs) t.start = us.length :=
  rank_of_append h.start_le.1 h.start_le.2

theorem rank_stop (h : Spaced (us ++ t :: vs)) : rank (us ++ t :: vs) t.stop =
    us.length + if t.kind = .endOfInput then 0 else 1 := by
  by_cases hk : t.kind = .endOfInput
  · have hlength : t.length = 0 := (h.length_eq_zero_iff t (by simp)).2 hk
    rw [if_pos hk, Token.stop, hlength]
    exact h.rank_start
  · have hlength := Nat.pos_of_ne_zero (mt (h.length_eq_zero_iff t (by simp)).1 hk)
    have hstop : t.start < t.stop := Nat.lt_add_of_pos_right hlength
    have hordered := List.pairwise_cons.1 (List.pairwise_append.1 h.ordered).2.1
    rw [if_neg hk, List.append_cons]
    refine (rank_of_append (fun u hu => ?_) hordered.1).trans (by simp)
    rcases List.mem_append.1 hu with hu | hu
    · exact Nat.lt_trans (h.start_le.1 u hu) hstop
    · rwa [List.mem_singleton.1 hu]

/-- The rank of a token is its index. -/
theorem rank_getElem (h : Spaced ts) {i : Nat} (hi : i < ts.length) : rank ts ts[i].start = i := by
  have hsplit : ts = ts.take i ++ ts[i] :: ts.drop (i + 1) := by simp
  have hrank := rank_start (hsplit ▸ h)
  rw [← hsplit] at hrank
  simpa [Nat.min_eq_left (Nat.le_of_lt hi)] using hrank

/-- Tokens at different places have different ranks. -/
theorem rank_inj (h : Spaced ts) (ht : t ∈ ts) (hu : u ∈ ts) :
    rank ts t.start = rank ts u.start ↔ t.start = u.start := by
  refine ⟨fun heq => ?_, congrArg _⟩
  obtain ⟨i, hi, rfl⟩ := List.getElem_of_mem ht
  obtain ⟨j, hj, rfl⟩ := List.getElem_of_mem hu
  rw [h.rank_getElem hi, h.rank_getElem hj] at heq
  subst heq
  rfl

end Spaced

/-! ## The tokens that only kinds tell -/

/-- Tokens of the kinds, one byte long each, of which the first stands at `n`. The end of input is
empty. -/
def unitTokens (n : Nat) : List TokenKind → List Token
  | [] => []
  | k :: ks => ⟨k, ⟨n, 1, 1⟩, if k = .endOfInput then 0 else 1⟩ :: unitTokens (n + 1) ks

theorem Spaced.map_ranked (h : Spaced ts) :
    ts.map (.ranked ts) = unitTokens 0 (ts.map (·.kind)) := by
  have hrest (us vs : List Token) (hts : ts = us ++ vs) :
      vs.map (.ranked ts) = unitTokens us.length (vs.map (·.kind)) := by
    induction vs generalizing us with
    | nil => rfl
    | cons t vs ih =>
      have hstart := rank_start (hts ▸ h)
      have hstop := rank_stop (hts ▸ h)
      rw [← hts] at hstart hstop
      have ih := ih (us ++ [t]) (by rw [hts, List.append_cons])
      rw [List.length_append, List.length_singleton] at ih
      rw [List.map_cons, List.map_cons, unitTokens, ih, Token.ranked, hstart, hstop,
        Nat.add_sub_cancel_left]
  exact hrest [] ts rfl

/-! ## Ranked cursors -/

def Diagnostic.isParsing (x : Diagnostic) : Bool := x.phase == .parsing

namespace Cursor

variable {c d : Cursor} {k : TokenKind}

/-- The complaints of the parser, the latest first. -/
def parsed (c : Cursor) : List Diagnostic := c.raised.filter Diagnostic.isParsing

/-- The cursor that stands at the ranks of the tokens. What the lexer noticed is left out. -/
def ranked (ts : List Token) (c : Cursor) : Cursor where
  current := c.current.ranked ts
  ahead := c.ahead.map fun r => ⟨.token (r.answer.value.ranked ts), [], []⟩
  left := c.left
  left_eq := by rw [c.left_eq, List.length_map]
  raised := c.parsed.map (.ranked ts)
  passed := []
  consumedTo := rank ts c.consumedTo
  complainedAt := c.complainedAt.map (rank ts)

/-- Before some of the tokens `ts`, at which the parser has complained. What is still to be noticed
comes from the lexer. -/
structure Among (ts : List Token) (c : Cursor) : Prop where
  spaced : Spaced ts
  suffix : c.tokens <:+ ts
  closed : c.Closed
  complainedAt : ∀ n, c.complainedAt = some n → ∃ t ∈ ts, t.start = n
  lexed : ∀ r ∈ c.ahead, ∀ x ∈ r.complaints, x.isParsing = false

theorem tokens_ranked (ts : List Token) (c : Cursor) :
    (c.ranked ts).tokens = c.tokens.map (.ranked ts) := by
  simp [tokens, ranked, Function.comp_def, Answer.value]

theorem filter_lexed {r : Reading} (h : ∀ x ∈ r.complaints, x.isParsing = false)
    (xs : List Diagnostic) :
    (r.complaints.reverse ++ xs).filter Diagnostic.isParsing = xs.filter Diagnostic.isParsing := by
  have hnil : r.complaints.reverse.filter Diagnostic.isParsing = [] :=
    List.filter_eq_nil_iff.2 fun x hx => by simp [h x (List.mem_reverse.1 hx)]
  rw [List.filter_append, hnil, List.nil_append]

namespace Among

variable (h : c.Among ts)

include h

theorem current_mem : c.current ∈ ts := h.suffix.subset List.mem_cons_self

/-- What comes behind the current token does not begin before it. -/
theorem start_le_advance : c.current.start ≤ c.advance.current.start := by
  by_cases hk : c.current.kind = .endOfInput
  · rw [h.closed.advance_of_end hk]
  · have hpairwise := h.spaced.pairwise.sublist h.suffix.sublist
    rw [h.closed.tokens_advance hk] at hpairwise
    exact Nat.le_of_lt ((List.pairwise_cons.1 hpairwise).1 _ List.mem_cons_self)

theorem parsed_advance : c.advance.parsed = c.parsed := by
  cases hr : c.ahead with
  | nil => rw [advance_of_ahead_nil hr]
  | cons r rs =>
    rw [advance_of_ahead hr]
    exact filter_lexed (h.lexed r (by simp [hr])) _

theorem parsed_peek : c.peek.2.parsed = c.parsed := by
  cases hr : c.ahead with
  | nil => rw [peek_of_ahead_nil hr]
  | cons r rs =>
    rw [peek_of_ahead hr]
    exact filter_lexed (h.lexed r (by simp [hr])) _

theorem advance : c.advance.Among ts := by
  refine ⟨h.spaced, (tokens_advance_suffix c).trans h.suffix, closed_advance h.closed, ?_, ?_⟩
  · rw [complainedAt_advance]
    exact h.complainedAt
  · cases hr : c.ahead with
    | nil =>
      rw [advance_of_ahead_nil hr]
      exact h.lexed
    | cons r rs =>
      rw [advance_of_ahead hr]
      exact fun r' hr' => h.lexed r' (by simp [hr, hr'])

theorem peek : c.peek.2.Among ts := by
  refine ⟨h.spaced, by simpa using h.suffix, by simpa [Closed] using h.closed,
    by simpa using h.complainedAt, ?_⟩
  cases hr : c.ahead with
  | nil =>
    rw [peek_of_ahead_nil hr]
    exact h.lexed
  | cons r rs =>
    rw [peek_of_ahead hr]
    intro r' hr' x hx
    rcases List.mem_cons.1 hr' with rfl | hr'
    · simp [quiet] at hx
    · exact h.lexed r' (by simp [hr, hr']) x hx

theorem report {x : Diagnostic} (hx : ∃ t ∈ ts, t.start = x.offset) : (c.report x).Among ts := by
  refine ⟨h.spaced, by simpa using h.suffix, by simpa [Closed] using h.closed, fun n hn => ?_,
    by simpa using h.lexed⟩
  rcases complainedAt_report c x with heq | ⟨-, heq⟩
  · exact h.complainedAt n (heq ▸ hn)
  · exact Option.some.inj (heq.symm.trans hn) ▸ hx

theorem step (hs : Step c d) : d.Among ts := by
  cases hs with
  | peek => exact h.peek
  | advance => exact h.advance
  | complain => exact h.report ⟨_, h.current_mem, rfl⟩
  | skipEmpty => exact h.advance.advance.report ⟨_, h.current_mem, rfl⟩

theorem advance_ranked : (c.ranked ts).advance = c.advance.ranked ts := by
  cases hr : c.ahead with
  | nil => rw [advance_of_ahead_nil hr, advance_of_ahead_nil (by simp [ranked, hr])]
  | cons r rs =>
    have hranked : (c.ranked ts).ahead = ⟨.token (r.answer.value.ranked ts), [], []⟩ ::
        rs.map fun r => ⟨.token (r.answer.value.ranked ts), [], []⟩ := by
      simp [ranked, hr]
    have hparsed := h.parsed_advance
    rw [advance_of_ahead hr, parsed] at hparsed
    rw [advance_of_ahead hr, advance_of_ahead hranked]
    simp only [ranked, parsed, hparsed, List.length_map, List.reverse_nil, List.nil_append,
      Answer.value]
    congr 1
    exact Token.stop_ranked ts c.current

theorem peek_ranked : (c.ranked ts).peek = (c.peek.1.ranked ts, c.peek.2.ranked ts) := by
  cases hr : c.ahead with
  | nil => rw [peek_of_ahead_nil hr, peek_of_ahead_nil (by simp [ranked, hr])]; rfl
  | cons r rs =>
    have hranked : (c.ranked ts).ahead = ⟨.token (r.answer.value.ranked ts), [], []⟩ ::
        rs.map fun r => ⟨.token (r.answer.value.ranked ts), [], []⟩ := by
      simp [ranked, hr]
    have hparsed := h.parsed_peek
    rw [peek_of_ahead hr, parsed] at hparsed
    rw [peek_of_ahead hr, peek_of_ahead hranked]
    simp only [ranked, parsed, hparsed, List.map_cons, List.reverse_nil, List.nil_append,
      Answer.value, quiet]

theorem report_ranked {x : Diagnostic} (hx : ∃ t ∈ ts, t.start = x.offset)
    (hphase : x.phase = .parsing) :
    (c.ranked ts).report (x.ranked ts) = (c.report x).ranked ts := by
  have hparsing : x.isParsing = true := by simp [Diagnostic.isParsing, hphase]
  have hat : (c.ranked ts).complainedAt = some (x.ranked ts).offset ↔
      c.complainedAt = some x.offset := by
    cases hc : c.complainedAt with
    | none => simp [ranked, hc]
    | some n =>
      obtain ⟨t, ht, rfl⟩ := h.complainedAt n hc
      obtain ⟨u, hu, heq⟩ := hx
      show c.complainedAt.map (rank ts) = some (rank ts x.offset) ↔ _
      rw [hc, ← heq, Option.map_some, Option.some.injEq, Option.some.injEq]
      exact h.spaced.rank_inj ht hu
  have hcode : (x.ranked ts).code = x.code := rfl
  unfold Cursor.report
  rw [hcode]
  split
  · by_cases hc : c.complainedAt = some x.offset
    · rw [if_pos hc, if_pos (hat.2 hc)]
    · rw [if_neg hc, if_neg (mt hat.1 hc)]
      simp only [ranked, parsed, List.filter_cons_of_pos hparsing, List.map_cons]
      rfl
  · simp only [ranked, parsed, List.filter_cons_of_pos hparsing, List.map_cons]

theorem skipEmpty_ranked (code : DiagnosticCode) :
    (c.ranked ts).skipEmpty code = (c.skipEmpty code).ranked ts := by
  have hcomplaint : emptyComplaint code (c.current.ranked ts) (c.advance.current.ranked ts) =
      (emptyComplaint code c.current c.advance.current).ranked ts := by
    rw [emptyComplaint, Token.stop_ranked]
    exact congrArg (Diagnostic.about code .parsing (c.current.ranked ts).position)
      (sub_eq_of_monotone (rank_mono ts) c.current.start c.advance.current.stop)
  rw [skipEmpty, h.advance_ranked, h.advance.advance_ranked]
  exact (congrArg _ hcomplaint).trans
    (h.advance.advance.report_ranked ⟨_, h.current_mem, rfl⟩ rfl)

end Among

end Cursor

/-- Reading cursors as those at the ranks of their tokens. -/
def Translation.ranked (ts : List Token) : Translation where
  token := Token.ranked ts
  offset := rank ts
  cursor := Cursor.ranked ts
  valid := Cursor.Among ts
  lost := fun _ => False
  kind_token := fun _ => rfl
  start_token := fun _ => rfl
  stop_token := Token.stop_ranked ts
  missing_token := fun _ => by simp [Token.ranked, Token.missing, Token.start, Token.stop]
  offset_mono := rank_mono ts
  valid_step := fun hs h => h.step hs
  lost_step := fun _ => id
  lost_report := fun _ => id
  closed := Cursor.Among.closed
  closed_cursor := fun h _ => by
    rw [Cursor.Closed, Cursor.tokens_ranked]
    exact Cursor.terminated_map (f := Token.ranked ts) (fun _ => rfl) h.closed
  current_cursor := fun _ _ => rfl
  consumedTo_cursor := fun _ _ => rfl
  left_cursor := fun _ _ _ => Iff.rfl
  peek_cursor := fun h _ _ => h.peek_ranked
  advance_cursor := fun h _ => h.advance_ranked
  report_cursor := fun code expected h _ =>
    h.report_ranked (x := Cursor.complaint code expected _) ⟨_, h.current_mem, rfl⟩ rfl
  skipEmpty_cursor := fun _ h _ => h.skipEmpty_ranked _

/-! ## The cursor before a text -/

/-- The cursor before tokens about which nothing was noticed. -/
def Cursor.bare (us : List Token) : Cursor := ofReadings (us.map fun t => ⟨.token t, [], []⟩)

theorem Segment.isParsing_of_mem_complaints {cs : List Char} {x : Diagnostic}
    (h : x ∈ complaints cs) : x.isParsing = false := by
  have hlexical : x.phase = .lexing := by
    simpa [Cursor.isLexical] using isLexical_of_mem_complaints h
  simp [Diagnostic.isParsing, hlexical]

namespace Cursor

theorem ranked_ofReadings {rs : List Reading} (hne : rs ≠ [])
    (h : ∀ x ∈ rs.flatMap (·.complaints), x.isParsing = false) (ts : List Token) :
    (ofReadings rs).ranked ts = bare ((rs.map (·.answer.value)).map (.ranked ts)) := by
  cases rs with
  | nil => exact absurd rfl hne
  | cons r rs =>
    have hr : ∀ x ∈ r.complaints, x.isParsing = false :=
      fun x hx => h x (List.mem_flatMap.2 ⟨r, List.mem_cons_self, hx⟩)
    have hparsed := filter_lexed hr []
    rw [List.append_nil] at hparsed
    simp [ranked, bare, ofReadings, parsed, hparsed, Answer.value, Function.comp_def, rank]

variable (cs : List Char)

theorem isParsing_of_mem_readings {x : Diagnostic}
    (hx : x ∈ (Segment.readings TokenKind.isTrivia cs).flatMap (·.complaints)) :
    x.isParsing = false := by
  rw [Segment.readings, flatMap_complaints_gather] at hx
  exact Segment.isParsing_of_mem_complaints hx

/-- Before a text, only the kinds of its tokens tell where its ranked cursor stands. -/
theorem ranked_ofChars : (ofChars cs).ranked (ofChars cs).tokens =
    bare (unitTokens 0 ((ofChars cs).tokens.map (·.kind))) := by
  have hne : Segment.readings TokenKind.isTrivia cs ≠ [] := gather_ne_nil _ _ _
  rw [← (spaced_ofChars cs).map_ranked]
  generalize hts : (ofChars cs).tokens = ts
  rw [ofReadings_eq, ranked_ofReadings hne fun x hx => isParsing_of_mem_readings cs hx,
    ← tokens_ofReadings hne, ← ofReadings_eq, hts]

/-- Before a text, the parser has not complained yet. -/
theorem parsed_ofChars : (ofChars cs).parsed = [] := by
  refine List.filter_eq_nil_iff.2 fun x hx => ?_
  rw [isParsing_of_mem_readings cs]
  · exact Bool.false_ne_true
  · rw [← complaints_ofReadings, ← ofReadings_eq]
    exact List.mem_append_left _ (List.mem_reverse.2 hx)

theorem among_ofChars : (ofChars cs).Among (ofChars cs).tokens := by
  refine ⟨spaced_ofChars cs, List.suffix_refl _, closed_ofChars cs, fun n hn => ?_,
    fun r hr x hx => ?_⟩
  · rw [ofReadings_eq] at hn
    cases hrs : Segment.readings TokenKind.isTrivia cs <;> simp [hrs, ofReadings] at hn
  · refine isParsing_of_mem_readings cs ?_
    rw [← complaints_ofReadings, ← ofReadings_eq]
    exact List.mem_append_right _ (List.mem_flatMap.2 ⟨r, hr, hx⟩)

/-! ## The order of the complaints of the parser -/

/-- The complaints of the parser were raised in the order of the tokens, and none of them is behind
the current token. -/
structure Progressive (ts : List Token) (c : Cursor) : Prop extends c.Among ts where
  anchored : ∀ x ∈ c.parsed, ∃ t ∈ ts, t.start = x.offset
  sorted : c.parsed.Pairwise fun x y => y.offset ≤ x.offset
  le_start : ∀ x ∈ c.parsed, x.offset ≤ c.current.start

namespace Progressive

variable {c d : Cursor}

theorem advance (h : c.Progressive ts) : c.advance.Progressive ts := by
  refine ⟨h.toAmong.advance, ?_, ?_, fun x hx => ?_⟩
  · rw [h.parsed_advance]
    exact h.anchored
  · rw [h.parsed_advance]
    exact h.sorted
  · rw [h.parsed_advance] at hx
    exact Nat.le_trans (h.le_start x hx) h.start_le_advance

theorem report (h : c.Progressive ts) {x : Diagnostic} (hx : ∃ t ∈ ts, t.start = x.offset)
    (hle : ∀ y ∈ c.parsed, y.offset ≤ x.offset) (hstart : x.offset ≤ c.current.start) :
    (c.report x).Progressive ts := by
  have hparsed : (c.report x).parsed = c.parsed ∨ (c.report x).parsed = x :: c.parsed := by
    rcases raised_report c x with hr | ⟨-, hr⟩
    · cases hphase : x.isParsing <;> simp [parsed, hr, hphase]
    · exact .inl (by rw [parsed, hr, parsed])
  refine ⟨h.toAmong.report hx, ?_, ?_, ?_⟩
  · rcases hparsed with hparsed | hparsed <;> rw [hparsed]
    · exact h.anchored
    · exact List.forall_mem_cons.2 ⟨hx, h.anchored⟩
  · rcases hparsed with hparsed | hparsed <;> rw [hparsed]
    · exact h.sorted
    · exact List.pairwise_cons.2 ⟨hle, h.sorted⟩
  · rw [current_report]
    rcases hparsed with hparsed | hparsed <;> rw [hparsed]
    · exact h.le_start
    · exact List.forall_mem_cons.2 ⟨hstart, h.le_start⟩

theorem step (hs : Step c d) (h : c.Progressive ts) : d.Progressive ts := by
  cases hs with
  | peek =>
    refine ⟨h.toAmong.peek, ?_, ?_, ?_⟩
    · rw [h.parsed_peek]
      exact h.anchored
    · rw [h.parsed_peek]
      exact h.sorted
    · rw [h.parsed_peek, current_peek]
      exact h.le_start
  | advance => exact h.advance
  | complain => exact h.report ⟨_, h.current_mem, rfl⟩ h.le_start (Nat.le_refl _)
  | skipEmpty =>
    refine h.advance.advance.report ⟨_, h.current_mem, rfl⟩ ?_ ?_
    · rw [h.advance.parsed_advance, h.parsed_advance]
      exact h.le_start
    · exact Nat.le_trans h.start_le_advance h.advance.start_le_advance

end Progressive

end Cursor

/-! ## Parsing a text -/

namespace Module

variable (cs : List Char)

/-- Parsing the tokens that the kinds tell gives the tree and the complaints of a text at the ranks
of its tokens. -/
theorem module_unitTokens :
    Parser.module (.bare (unitTokens 0 ((Cursor.ofChars cs).tokens.map (·.kind)))) =
      (Prod.map (ModuleHeader.ranked (Cursor.ofChars cs).tokens)
        (List.map (Declaration.ranked (Cursor.ofChars cs).tokens))
          (Parser.module (Cursor.ofChars cs)).1,
        (lastCursor cs).ranked (Cursor.ofChars cs).tokens) := by
  rw [← Cursor.ranked_ofChars]
  exact (Translation.carries_module (T := .ranked _) _ (Nat.lt_succ_self _)
    (Cursor.among_ofChars cs)).2 not_false

theorem progressive_lastCursor : (lastCursor cs).Progressive (Cursor.ofChars cs).tokens := by
  refine (reaches_lastCursor cs).keeps Cursor.Progressive.step ⟨Cursor.among_ofChars cs, ?_, ?_, ?_⟩
  all_goals rw [Cursor.parsed_ofChars]
  · simp
  · exact .nil
  · simp

/-- The complaints of the parser were raised in the order of display. -/
theorem pairwise_parsed : (lastCursor cs).parsed.reverse.Pairwise (Sink.precedes · ·) := by
  have hmarker {x : Diagnostic} (hx : x ∈ (lastCursor cs).parsed) : Sink.isMarker x = false :=
    (offset_of_mem_raised (List.mem_filter.1 hx).1).1
  rw [List.pairwise_reverse]
  refine (progressive_lastCursor cs).sorted.imp_of_mem fun hx hy hle =>
    Sink.precedes_iff.2 (.inl ⟨?_, hle⟩)
  rw [hmarker hx, hmarker hy]

/-- The complaints of the parser are shown as they were raised. -/
theorem filter_isParsing_diagnostics :
    ((lastCursor cs).diagnostics 0).filter Diagnostic.isParsing =
      (lastCursor cs).parsed.reverse := by
  have hfilter : (lastCursor cs).raised.reverse.filter Diagnostic.isParsing =
      (lastCursor cs).parsed.reverse := List.filter_reverse
  rw [Cursor.diagnostics_zero, Sink.filter_mergeSort, hfilter]
  rw [hfilter]
  exact pairwise_parsed cs

/-- The rank of a complaint of the parser is the index of the token that it is about. -/
theorem exists_anchor {x : Diagnostic} (hx : x ∈ (lastCursor cs).parsed) :
    ∃ t, (Cursor.ofChars cs).tokens[rank (Cursor.ofChars cs).tokens x.offset]? = some t ∧
      t.start = x.offset := by
  obtain ⟨t, ht, hstart⟩ := (progressive_lastCursor cs).anchored x hx
  obtain ⟨i, hi, rfl⟩ := List.getElem_of_mem ht
  refine ⟨_, ?_, hstart⟩
  rw [← hstart, (Cursor.spaced_ofChars cs).rank_getElem hi, List.getElem?_eq_getElem hi]

/-- **Parsing looks at the kinds of tokens alone.** Two texts whose significant tokens have the same
kinds have the same header, the same members and the same complaints of the parser, once every token
and every offset is replaced by its rank. The rank of a complaint is the index of the token that it
is about. -/
theorem ranked_eq_of_kinds_eq {s s' : Source}
    (h : (lexSignificant s 0).tokens.map (·.kind) = (lexSignificant s' 0).tokens.map (·.kind))
    (policy policy' : TriviaPolicy) :
    let ts := (lexSignificant s 0).tokens
    let ts' := (lexSignificant s' 0).tokens
    let m := ofSource s 0 policy
    let m' := ofSource s' 0 policy'
    m.header.ranked ts = m'.header.ranked ts' ∧
    m.members.map (Declaration.ranked ts) = m'.members.map (Declaration.ranked ts') ∧
    (m.diagnostics.filter Diagnostic.isParsing).map (Diagnostic.ranked ts) =
      (m'.diagnostics.filter Diagnostic.isParsing).map (Diagnostic.ranked ts') ∧
    ∀ x ∈ m.diagnostics, x.isParsing = true →
      ∃ t, ts[rank ts x.offset]? = some t ∧ t.start = x.offset := by
  simp only [tokens_lexSignificant, ← Cursor.tokens_ofChars] at h ⊢
  have hrun := module_unitTokens s.chars
  rw [h, module_unitTokens s'.chars] at hrun
  obtain ⟨htree, hcursor⟩ := Prod.mk.inj hrun
  obtain ⟨hheader, hmembers⟩ := Prod.mk.inj htree
  have hraised : (lastCursor s'.chars).parsed.map (Diagnostic.ranked _) =
      (lastCursor s.chars).parsed.map (Diagnostic.ranked _) := congrArg Cursor.raised hcursor
  have hshown (cs : List Char) (ts : List Token) :
      (((lastCursor cs).diagnostics 0).filter Diagnostic.isParsing).map (Diagnostic.ranked ts) =
        ((lastCursor cs).parsed.map (Diagnostic.ranked ts)).reverse := by
    rw [filter_isParsing_diagnostics, List.map_reverse]
  refine ⟨hheader.symm, hmembers.symm,
    (hshown _ _).trans ((congrArg List.reverse hraised.symm).trans (hshown _ _).symm),
    fun x hx hparsing => exists_anchor _ ?_⟩
  rw [← List.mem_reverse, ← filter_isParsing_diagnostics]
  exact List.mem_filter.2 ⟨hx, hparsing⟩

/-- Two spellings of one module, which both lack the type. There is one complaint, about the token
that stands in its place. -/
theorem ranked_eq_of_kinds_eq_spellings :
    let s : Source := ⟨"[[a]]\nb :=", none⟩
    let s' : Source := ⟨"[[ alpha ]]; beta := // nothing", none⟩
    let ts := (lexSignificant s 0).tokens
    let ts' := (lexSignificant s' 0).tokens
    let m := ofSource s 0 .discard
    let m' := ofSource s' 0 .collect
    ts.map (·.kind) = ts'.map (·.kind) ∧
      m.members.map (Declaration.ranked ts) = m'.members.map (Declaration.ranked ts') ∧
      m.diagnostics.length = 1 ∧
      (m.diagnostics.filter Diagnostic.isParsing).map (Diagnostic.ranked ts) =
        (m'.diagnostics.filter Diagnostic.isParsing).map (Diagnostic.ranked ts') ∧
      ∀ x ∈ m.diagnostics, ∃ t, ts[rank ts x.offset]? = some t ∧ t.start = x.offset := by
  intro s s' ts ts' m m'
  have h : ts.map (·.kind) = ts'.map (·.kind) := by decide +kernel
  have hone : m.diagnostics.length = 1 := by decide +kernel
  have hparsing : ∀ x ∈ m.diagnostics, x.isParsing = true := by decide +kernel
  obtain ⟨-, hmembers, hdiagnostics, hindex⟩ := ranked_eq_of_kinds_eq h .discard .collect
  exact ⟨h, hmembers, hone, hdiagnostics, fun x hx => hindex x hx (hparsing x hx)⟩

end Module

end DeclFront
