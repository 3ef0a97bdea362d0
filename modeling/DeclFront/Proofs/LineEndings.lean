import DeclFront.Proofs.Slices
import DeclFront.Proofs.Stretch

/-!
# Line endings

**Theorem (`lexes_and_parses_crlf`).** A text without carriage returns may have one put in front of
each line feed. Its tokens, its diagnostics and its tree stay as they are, with their lines and
columns, and only the offsets move (`crlfOffset`).

Every segment but a line feed ends at the next line break at the latest, and is the same whether
that is one character or two (`Piece.scan_crlf`). So the segments of the new text are those of the
old one, in their new places (`Segment.ofText_crlf`), and the rest is stretching.
-/

namespace DeclFront

open Character

/-! ## The new text -/

/-- The text with a carriage return in front of each line feed. -/
def crlf (cs : List Char) : List Char := cs.flatMap fun c => if c = '\n' then ['\r', '\n'] else [c]

/-- The source with a carriage return in front of each line feed. -/
def Source.crlf (s : Source) : Source := { s with text := String.ofList (DeclFront.crlf s.chars) }

/-- How many line feeds stand in front of the offset. -/
def lineFeedsBefore : List Char → Nat → Nat
  | [], _ => 0
  | c :: cs, n =>
    if n < c.utf8Size then 0 else [c].count '\n' + lineFeedsBefore cs (n - c.utf8Size)

/-- Where the offset comes to stand. -/
def crlfOffset (cs : List Char) (n : Nat) : Nat := n + lineFeedsBefore cs n

variable {c : Char} {cs ds front : List Char} {n : Nat}

theorem crlf_append (cs ds : List Char) : crlf (cs ++ ds) = crlf cs ++ crlf ds :=
  List.flatMap_append

theorem crlf_lineFeed (cs : List Char) : crlf ('\n' :: cs) = '\r' :: '\n' :: crlf cs := rfl

theorem crlf_cons_of_ne (hc : c ≠ '\n') (cs : List Char) : crlf (c :: cs) = c :: crlf cs := by
  rw [crlf, List.flatMap_cons, if_neg hc]
  rfl

/-- Inside of a line there is nothing to replace. -/
theorem crlf_eq_self (h : '\n' ∉ cs) : crlf cs = cs := by
  induction cs with
  | nil => rfl
  | cons c cs ih =>
    rw [List.mem_cons, not_or] at h
    rw [crlf_cons_of_ne (Ne.symm h.1), ih h.2]

theorem byteLength_crlf (cs : List Char) :
    byteLength (crlf cs) = byteLength cs + cs.count '\n' := by
  induction cs with
  | nil => rfl
  | cons c cs ih =>
    by_cases hc : c = '\n'
    · subst hc
      have hreturn : Char.utf8Size '\r' = 1 := by decide
      rw [crlf_lineFeed, byteLength_cons, byteLength_cons, byteLength_cons, ih,
        List.count_cons_self, hreturn]
      omega
    · rw [crlf_cons_of_ne hc, byteLength_cons, byteLength_cons, ih, List.count_cons_of_ne hc,
        Nat.add_assoc]

theorem lineFeedsBefore_mono (cs : List Char) : Monotone (lineFeedsBefore cs) := by
  induction cs with
  | nil => exact monotone_const
  | cons c cs ih =>
    intro n m hle
    rw [lineFeedsBefore, lineFeedsBefore]
    by_cases hn : n < c.utf8Size
    · rw [if_pos hn]
      exact Nat.zero_le _
    · rw [if_neg hn, if_neg fun hm => hn (Nat.lt_of_le_of_lt hle hm)]
      exact Nat.add_le_add_left (ih (Nat.sub_le_sub_right hle _)) _

theorem crlfOffset_strictMono (cs : List Char) : StrictMono (crlfOffset cs) := fun _ _ hlt =>
  Nat.add_lt_add_of_lt_of_le hlt (lineFeedsBefore_mono cs (Nat.le_of_lt hlt))

theorem lineFeedsBefore_byteLength (front cs : List Char) :
    lineFeedsBefore (front ++ cs) (byteLength front) = front.count '\n' := by
  induction front with
  | nil =>
    cases cs with
    | nil => rfl
    | cons c cs => exact if_pos c.utf8Size_pos
  | cons c front ih =>
    have hle : ¬ byteLength (c :: front) < c.utf8Size := Nat.not_lt.2 (Nat.le_add_right _ _)
    rw [List.cons_append, lineFeedsBefore, if_neg hle, byteLength_cons, Nat.add_sub_cancel_left, ih,
      ← List.count_append, List.singleton_append]

theorem crlfOffset_byteLength (h : front <+: cs) :
    crlfOffset cs (byteLength front) = byteLength (crlf front) := by
  obtain ⟨rest, rfl⟩ := h
  rw [crlfOffset, lineFeedsBefore_byteLength, byteLength_crlf]

theorem crlfOffset_zero (cs : List Char) : crlfOffset cs 0 = 0 :=
  crlfOffset_byteLength List.nil_prefix

/-! ## Places -/

namespace Position

/-- Lines and columns are counted in the new text as in the old one. -/
theorem line_column_after_crlf {p q : Position} (hline : q.line = p.line)
    (hcolumn : q.column = p.column) (cs : List Char) :
    (q.after (DeclFront.crlf cs)).line = (p.after cs).line ∧
      (q.after (DeclFront.crlf cs)).column = (p.after cs).column := by
  induction cs generalizing p q with
  | nil => exact ⟨hline, hcolumn⟩
  | cons c cs ih =>
    by_cases hc : c = '\n'
    · subst hc
      exact ih (p := p.advance '\n') (q := (q.advance '\r').advance '\n')
        (congrArg (· + 1) hline) rfl
    · rw [crlf_cons_of_ne hc, after_cons, after_cons]
      refine ih ?_ ?_
      · rw [advance, advance, if_neg hc, if_neg hc, hline]
      · rw [advance, advance, if_neg hc, if_neg hc, hcolumn]

theorem after_crlf (h : front <+: cs) :
    origin.after (DeclFront.crlf front) = (origin.after front).stretch (crlfOffset cs) := by
  obtain ⟨hline, hcolumn⟩ := line_column_after_crlf (p := origin) (q := origin) rfl rfl front
  rw [stretch, ← hline, ← hcolumn, offset_after_origin, crlfOffset_byteLength h,
    ← offset_after_origin]

end Position

/-! ## Segments -/

/-- In front of a line feed, a text is read as in front of a carriage return and a line feed. -/
theorem Piece.scan_crlf (hc : '\r' ∉ c :: cs) : scan c (crlf cs) = scan c cs ∧
    (crlf cs).take (scan c cs).more = crlf (cs.take (scan c cs).more) ∧
    (crlf cs).drop (scan c cs).more = crlf (cs.drop (scan c cs).more) := by
  by_cases hmem : '\n' ∈ cs
  · obtain ⟨u, v, rfl, hu⟩ := List.eq_append_cons_of_mem hmem
    have hseam : Seam (c :: u) ('\n' :: v) := fun hlast =>
      absurd (List.mem_append_left ('\n' :: v) (List.mem_of_getLast? hlast)) hc
    have hline : scan c (u ++ '\n' :: v) = scan c u := scan_append_of_atLineBreak rfl hseam
    have hline' : scan c (u ++ '\r' :: '\n' :: crlf v) = scan c u :=
      scan_append_of_atLineBreak rfl fun _ => by simp
    have hle : (scan c u).more ≤ u.length := more_le c u
    have htake : '\n' ∉ u.take (scan c u).more := fun h => hu (List.mem_of_mem_take h)
    have hdrop : '\n' ∉ u.drop (scan c u).more := fun h => hu (List.mem_of_mem_drop h)
    rw [crlf_append, crlf_lineFeed, crlf_eq_self hu, hline]
    refine ⟨hline', ?_, ?_⟩
    · rw [List.take_append_of_le_length hle, List.take_append_of_le_length hle, crlf_eq_self htake]
    · rw [List.drop_append_of_le_length hle, List.drop_append_of_le_length hle, crlf_append,
        crlf_lineFeed, crlf_eq_self hdrop]
  · have htake : '\n' ∉ cs.take (scan c cs).more := fun h => hmem (List.mem_of_mem_take h)
    have hdrop : '\n' ∉ cs.drop (scan c cs).more := fun h => hmem (List.mem_of_mem_drop h)
    rw [crlf_eq_self hmem, crlf_eq_self htake, crlf_eq_self hdrop]
    exact ⟨rfl, rfl, rfl⟩

namespace Segment

/-- The segment in the new text. -/
def crlf (w : Nat → Nat) (s : Segment) : Segment :=
  { s with position := s.position.stretch w, text := DeclFront.crlf s.text }

/-- The first segment of the new text, and what stands behind it. -/
theorem exists_first_crlf (w : Nat → Nat) (p : Position) (hcr : '\r' ∉ c :: cs) :
    ∃ d ds, DeclFront.crlf (c :: cs) = d :: ds ∧
      first (p.stretch w) d ds = (first p c cs).crlf w ∧
      ds.drop (Piece.scan d ds).more = DeclFront.crlf (cs.drop (Piece.scan c cs).more) := by
  by_cases hc : c = '\n'
  · subst hc
    refine ⟨'\r', '\n' :: DeclFront.crlf cs, rfl, ?_, ?_⟩
    · rw [first, first, Piece.scan_lineBreak, Piece.scan_lineFeed]
      rfl
    · rw [Piece.scan_lineBreak, Piece.scan_lineFeed]
      rfl
  · obtain ⟨hscan, htake, hdrop⟩ := Piece.scan_crlf hcr
    refine ⟨c, DeclFront.crlf cs, crlf_cons_of_ne hc cs, ?_, ?_⟩
    · rw [first, hscan, htake, ← crlf_cons_of_ne hc]
      rfl
    · rw [hscan, hdrop]

/-- The segments of the new text are those of the old one. -/
theorem ofText_crlf (hcr : '\r' ∉ cs) : ofText .origin (DeclFront.crlf cs) =
    (ofText .origin cs).map (.crlf (crlfOffset cs)) := by
  have horigin : Position.origin.stretch (crlfOffset cs) = .origin :=
    (Position.after_crlf List.nil_prefix).symm
  conv_lhs => rw [← horigin]
  refine ofText_induction
    (P := fun p ds ss => ∀ front, p = .after .origin front → front ++ ds = cs →
      ofText (p.stretch (crlfOffset cs)) (DeclFront.crlf ds) = ss.map (.crlf (crlfOffset cs)))
    ?_ ?_ .origin cs [] rfl rfl
  · intro p front _ _
    exact ofText_nil _
  · intro p c ds ih front hp hfront
    have htext : front ++ (first p c ds).text ++ ds.drop (Piece.scan c ds).more = cs := by
      rw [← hfront, List.append_assoc]
      exact congrArg (front ++ c :: ·) (List.take_append_drop _ ds)
    have hstop : (first p c ds).stop = .after .origin (front ++ (first p c ds).text) := by
      rw [Position.after_append, ← hp]
      rfl
    have hcr : '\r' ∉ c :: ds := fun h => hcr (hfront ▸ List.mem_append_right front h)
    obtain ⟨d, es, hcrlf, hfirst, hrest⟩ := exists_first_crlf (crlfOffset cs) p hcr
    have hnext : ((first p c ds).crlf (crlfOffset cs)).stop =
        (first p c ds).stop.stretch (crlfOffset cs) := by
      rw [hstop, ← Position.after_crlf ⟨_, htext⟩, crlf_append, Position.after_append,
        Position.after_crlf ⟨_, hfront⟩, ← hp]
      rfl
    rw [hcrlf, ofText_cons, hfirst, hrest, hnext, ih _ hstop htext, List.map_cons]

variable {s : Segment}

/-- The bytes of a segment of the new text. -/
theorem length_crlf (hs : s ∈ ofText .origin cs) : (s.crlf (crlfOffset cs)).length =
    crlfOffset cs s.stop.offset - crlfOffset cs s.position.offset := by
  obtain ⟨front, hfront, hposition, hstop⟩ := exists_prefix_of_mem hs
  have hbefore : front <+: cs := (List.prefix_append _ _).trans hfront
  rw [hposition, hstop, Position.recount, Position.recount, crlfOffset_byteLength hfront,
    crlfOffset_byteLength hbefore, crlf_append, byteLength_append, Nat.add_sub_cancel_left]
  rfl

theorem token?_crlf (hs : s ∈ ofText .origin cs) :
    (s.crlf (crlfOffset cs)).token? = s.token?.map (.stretch (crlfOffset cs)) := by
  have hlength := length_crlf hs
  rw [stop, Position.offset_after] at hlength
  cases hk : s.kind with
  | none => simp [token?, crlf, hk]
  | some k =>
    simp only [token?, crlf, hk, Option.map_some, Token.stretch, Option.some.injEq, Token.mk.injEq,
      true_and]
    exact hlength

theorem diagnostic?_crlf (hs : s ∈ ofText .origin cs) :
    (s.crlf (crlfOffset cs)).diagnostic? = s.diagnostic?.map (.stretch (crlfOffset cs)) := by
  have hlength := length_crlf hs
  rw [stop, Position.offset_after] at hlength
  cases hx : s.complaint with
  | none => simp [diagnostic?, crlf, hx]
  | some code =>
    simp only [diagnostic?, crlf, hx, Option.map_some, Diagnostic.stretch, Diagnostic.about,
      Option.some.injEq, Diagnostic.mk.injEq, true_and, and_true]
    exact hlength

/-- A segment has a line feed inside only if it is one. -/
theorem text_eq_of_mem (hs : s ∈ ofText .origin cs) (hcr : '\r' ∉ cs) (hmem : '\n' ∈ s.text) :
    s.kind = some .terminator ∧ s.text = ['\n'] := by
  obtain ⟨front, ⟨behind, hbehind⟩, -, -⟩ := exists_prefix_of_mem hs
  have hcr : '\r' ∉ s.text := fun h =>
    hcr (hbehind ▸ List.mem_append_left behind (List.mem_append_right front h))
  obtain ⟨q, d, ds, rfl⟩ := exists_first_of_mem hs
  by_cases hk : (Piece.scan d ds).kind = some .terminator
  · refine ⟨hk, ?_⟩
    rcases (Piece.isLexeme_of_terminator hk).eq_of_terminator with htext | htext | htext
    · exact htext
    · exact absurd (show '\r' ∈ d :: ds.take _ by rw [htext]; decide) hcr
    · exact absurd (show '\n' ∈ d :: ds.take _ from hmem) (by rw [htext]; decide)
  · obtain ⟨before, after, htext⟩ := List.append_of_mem hmem
    exact Bool.noConfusion
      (Piece.unbroken_scan hk ('\n' :: after) ⟨before, htext.symm⟩ (List.cons_ne_nil _ _))

end Segment

/-! ## Reading the new text -/

theorem stop_crlf (cs : List Char) : Position.origin.after (crlf cs) =
    (Position.origin.after cs).stretch (crlfOffset cs) :=
  Position.after_crlf (List.prefix_refl cs)

theorem endOfInput_crlf (cs : List Char) :
    endOfInput (crlf cs) = (endOfInput cs).stretch (crlfOffset cs) := by
  rw [endOfInput, stop_crlf]
  simp [Token.stretch, endOfInput, Token.stop, Token.start]

theorem readings_crlf (skips : TokenKind → Bool) (hcr : '\r' ∉ cs) :
    Segment.readings skips (crlf cs) =
      (Segment.readings skips cs).map (Reading.stretch (crlfOffset cs)) := by
  rw [Segment.readings, Segment.ofText_crlf hcr, stop_crlf]
  refine gather_map (fun _ => rfl) ?_ (fun s => Segment.token?_crlf)
    fun s => Segment.diagnostic?_crlf
  simp [Token.stretch, Token.stop, Token.start]

theorem Segment.tokens_crlf (hcr : '\r' ∉ cs) :
    tokens (DeclFront.crlf cs) = (tokens cs).map (.stretch (crlfOffset cs)) := by
  rw [tokens, ofText_crlf hcr, List.filterMap_map, tokens, List.map_filterMap]
  exact List.filterMap_congr fun s hs => token?_crlf hs

theorem Segment.complaints_crlf (hcr : '\r' ∉ cs) :
    complaints (DeclFront.crlf cs) = (complaints cs).map (.stretch (crlfOffset cs)) := by
  rw [complaints, ofText_crlf hcr, List.filterMap_map, complaints, List.map_filterMap]
  exact List.filterMap_congr fun s hs => diagnostic?_crlf hs

theorem Source.chars_crlf (s : Source) : s.crlf.chars = DeclFront.crlf s.chars :=
  String.toList_ofList

variable {s : Source} {limit : Nat}

theorem lexRaw_crlf (hcr : '\r' ∉ s.chars) :
    lexRaw s.crlf limit = (lexRaw s limit).stretch (crlfOffset s.chars) := by
  have htokens : (lexRaw s.crlf limit).tokens =
      (lexRaw s limit).tokens.map (.stretch (crlfOffset s.chars)) := by
    rw [tokens_lexRaw, tokens_lexRaw, s.chars_crlf, Segment.tokens_crlf hcr, endOfInput_crlf,
      List.map_append]
    rfl
  have hdiagnostics : (lexRaw s.crlf limit).diagnostics =
      (lexRaw s limit).diagnostics.map (.stretch (crlfOffset s.chars)) := by
    rw [diagnostics_lexRaw, diagnostics_lexRaw, s.chars_crlf, Segment.complaints_crlf hcr]
    exact Sink.sorted_reportAll_stretch (crlfOffset_strictMono _) limit _
  rw [LexOutput.stretch, ← htokens, ← hdiagnostics]

/-- The text of a token is the same in the new text, unless it is a line feed. -/
theorem tokenText_crlf (hcr : '\r' ∉ s.chars) {t : Token} (ht : t ∈ (lexRaw s limit).tokens) :
    t.kind = .terminator ∧ s.tokenText t = "\n" ∧
        s.crlf.tokenText (t.stretch (crlfOffset s.chars)) = "\r\n" ∨
      s.crlf.tokenText (t.stretch (crlfOffset s.chars)) = s.tokenText t := by
  rw [tokens_lexRaw] at ht
  rcases List.mem_append.1 ht with ht | ht
  · obtain ⟨x, hx, htoken⟩ := List.mem_filterMap.1 ht
    have hx' : x.crlf (crlfOffset s.chars) ∈ Segment.ofText .origin s.crlf.chars := by
      rw [s.chars_crlf, Segment.ofText_crlf hcr]
      exact List.mem_map_of_mem hx
    have htoken' : (x.crlf (crlfOffset s.chars)).token? =
        some (t.stretch (crlfOffset s.chars)) := by
      rw [Segment.token?_crlf hx, htoken]
      rfl
    rw [Segment.tokenText_eq hx htoken, Segment.tokenText_eq hx' htoken', Segment.crlf]
    by_cases hmem : '\n' ∈ x.text
    · obtain ⟨hkind, htext⟩ := Segment.text_eq_of_mem hx hcr hmem
      obtain ⟨k, hk, rfl⟩ := Option.map_eq_some_iff.1 htoken
      rw [htext]
      exact .inl ⟨Option.some.inj (hk.symm.trans hkind), rfl, rfl⟩
    · exact .inr (congrArg String.ofList (crlf_eq_self hmem))
  · rw [List.mem_singleton.1 ht, ← endOfInput_crlf, ← s.chars_crlf, tokenText_endOfInput,
      tokenText_endOfInput]
    exact .inr rfl

/-- **Line endings.** A text without carriage returns gives the same tokens, diagnostics and tree
when one is put in front of each line feed. Kinds, lines, columns and what is expected stay, and
every offset moves by the number of line feeds in front of it. The texts of the tokens stay as well,
but for the line feeds. -/
theorem lexes_and_parses_crlf (s : Source) (hcr : '\r' ∉ s.chars) (limit : Nat)
    (policy : TriviaPolicy) :
    lexRaw s.crlf limit = (lexRaw s limit).stretch (crlfOffset s.chars) ∧
    (∀ t ∈ (lexRaw s limit).tokens,
      t.kind = .terminator ∧ s.tokenText t = "\n" ∧
          s.crlf.tokenText (t.stretch (crlfOffset s.chars)) = "\r\n" ∨
        s.crlf.tokenText (t.stretch (crlfOffset s.chars)) = s.tokenText t) ∧
    Module.ofSource s.crlf limit policy =
      (Module.ofSource s limit policy).stretch (crlfOffset s.chars) := by
  refine ⟨lexRaw_crlf hcr, fun t ht => tokenText_crlf hcr ht, ?_⟩
  rw [Module.ofSource, s.chars_crlf]
  refine Module.ofChars_stretch (crlfOffset_strictMono _) ?_ limit policy
  rw [Cursor.ofReadings_eq, readings_crlf _ hcr, Cursor.ofReadings_eq]
  exact Cursor.ofReadings_stretch (crlfOffset_zero _) (gather_ne_nil _ _ _)

/-- Comments, an open string and a rune in front of line feeds, and a declaration that lacks its
type. -/
theorem lexes_and_parses_crlf_open_string :
    let s : Source := ⟨"[[m]] // c\nA := \"b\\\n'c\n", none⟩
    '\r' ∉ s.chars ∧ lexRaw s.crlf 0 = (lexRaw s 0).stretch (crlfOffset s.chars) ∧
      Module.ofSource s.crlf 1 .collect =
        (Module.ofSource s 1 .collect).stretch (crlfOffset s.chars) := by
  intro s
  have hcr : '\r' ∉ s.chars := by decide
  exact ⟨hcr, (lexes_and_parses_crlf s hcr 0 .collect).1,
    (lexes_and_parses_crlf s hcr 1 .collect).2.2⟩

end DeclFront
