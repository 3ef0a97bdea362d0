import DeclFront.Proofs.Anchors
import DeclFront.Proofs.Boundaries
import DeclFront.Proofs.LongestMatch
import DeclFront.Proofs.Reach

/-!
# What stands behind an opening quote

Strings and runes end in the same way. Behind the opening quote come plain characters and pairs of a
backslash and the character that it escapes, up to a closing quote. A line break or the end of
the text ends them too, also right behind a backslash.

This is a grammar (`QuotedBody`) of which every text has exactly one beginning. The scanner of
strings follows it character by character (`StringLiteral.scan_of_quotedBody`). The scanner of
runes, which counts an escape by code as one rune, ends where the grammar says all the same
(`RuneLiteral.scan_of_quotedBody`), as there is no quote among the characters that it takes at once.

A token is told by the place where it begins: the rule for one segment gives its kind, its text and
what is complained about in its span (`exists_readAt`).
-/

namespace DeclFront

open Character

/-! ## Bodies -/

/-- The text is at its end or at a line break. -/
def LineStops (cs : List Char) : Prop := cs = [] ∨ atLineBreak cs = true

/-- `QuotedBody q body behind closed`: of the text `body ++ behind`, which stands behind an opening
quote `q`, the characters `body` belong to the literal, the closing quote included if it is
closed. -/
inductive QuotedBody (q : Char) : List Char → List Char → Bool → Prop
  | close {behind : List Char} : QuotedBody q [q] behind true
  | stop {behind : List Char} (h : LineStops behind) : QuotedBody q [] behind false
  /-- A backslash in front of a line break or the end escapes nothing. -/
  | stopEscape {behind : List Char} (h : LineStops behind) : QuotedBody q ['\\'] behind false
  | escape {c : Char} {body behind : List Char} {closed : Bool}
    (hc : atLineBreak (c :: (body ++ behind)) = false) (h : QuotedBody q body behind closed) :
    QuotedBody q ('\\' :: c :: body) behind closed
  | plain {c : Char} {body behind : List Char} {closed : Bool} (hquote : c ≠ q)
    (hbackslash : c ≠ '\\') (hc : atLineBreak (c :: (body ++ behind)) = false)
    (h : QuotedBody q body behind closed) : QuotedBody q (c :: body) behind closed

variable {q c : Char} {cs body behind : List Char} {closed : Bool} {n : Nat}

theorem lineStops_or (c : Char) (cs : List Char) :
    LineStops (c :: cs) ∨ atLineBreak (c :: cs) = false := by
  cases h : atLineBreak (c :: cs) with
  | true => exact .inl (.inr h)
  | false => exact .inr rfl

theorem LineStops.cases_cons (h : LineStops (c :: cs)) :
    atLineBreak (c :: cs) = true ∧ (c = '\n' ∨ c = '\r' ∧ cs.head? = some '\n') := by
  have hc : atLineBreak (c :: cs) = true := h.resolve_left (List.cons_ne_nil _ _)
  refine ⟨hc, ?_⟩
  rw [atLineBreak_cons] at hc
  simpa using hc

theorem LineStops.head?_ne (h : LineStops cs) : cs.head? ≠ some '{' := by
  cases cs with
  | nil => simp
  | cons c cs => rcases h.cases_cons.2 with rfl | ⟨rfl, -⟩ <;> simp

/-- Every text goes on as a literal does. -/
theorem exists_quotedBody (q : Char) (cs : List Char) :
    ∃ body behind closed, cs = body ++ behind ∧ QuotedBody q body behind closed := by
  match cs with
  | [] => exact ⟨[], [], false, rfl, .stop (.inl rfl)⟩
  | c :: cs =>
    rcases lineStops_or c cs with hstop | hc
    · exact ⟨[], c :: cs, false, rfl, .stop hstop⟩
    by_cases hquote : c = q
    · exact ⟨[c], cs, true, rfl, hquote ▸ .close⟩
    by_cases hbackslash : c = '\\'
    · subst hbackslash
      match cs with
      | [] => exact ⟨['\\'], [], false, rfl, .stopEscape (.inl rfl)⟩
      | d :: cs =>
        rcases lineStops_or d cs with hstop | hd
        · exact ⟨['\\'], d :: cs, false, rfl, .stopEscape hstop⟩
        · obtain ⟨body, behind, closed, rfl, h⟩ := exists_quotedBody q cs
          exact ⟨'\\' :: d :: body, behind, closed, rfl, .escape hd h⟩
    · obtain ⟨body, behind, closed, rfl, h⟩ := exists_quotedBody q cs
      exact ⟨c :: body, behind, closed, rfl, .plain hquote hbackslash hc h⟩
termination_by cs.length

/-! ## Scanners -/

namespace StringLiteral

theorem walk_of_lineStops {escaped : Bool} (h : LineStops cs) : walk escaped n cs = (n, false) := by
  cases cs with
  | nil => rfl
  | cons c cs => rw [walk, if_pos h.cases_cons.1]

theorem walk_of_quotedBody (h : QuotedBody '"' body behind closed) (n : Nat) :
    walk false n (body ++ behind) = (n + body.length, closed) := by
  induction h generalizing n with
  | close => simp [walk, atLineBreak_cons]
  | stop h => exact walk_of_lineStops h
  | stopEscape h => simp [walk, atLineBreak_cons, walk_of_lineStops h]
  | escape hc h ih =>
    simp only [List.cons_append, List.length_cons]
    rw [walk, if_neg (by simp [atLineBreak_cons]), if_neg Bool.false_ne_true, if_neg (by decide),
      walk, if_neg (by simp [hc]), if_pos (by decide), ih]
    simp only [Nat.add_assoc, Nat.add_comm 1]
  | plain hquote hbackslash hc h ih =>
    simp only [List.cons_append, List.length_cons]
    rw [walk, if_neg (by simp [hc]), if_neg Bool.false_ne_true, if_neg (by simpa),
      beq_false_of_ne hbackslash, ih, Nat.add_assoc, Nat.add_comm 1]

/-- A string ends where the grammar says. -/
theorem scan_of_quotedBody (h : QuotedBody '"' body behind closed) :
    scan (body ++ behind) = (body.length, closed) := by
  rw [scan, walk_of_quotedBody h, Nat.zero_add]

end StringLiteral

namespace RuneLiteral

variable {e : Escape} {k : Nat}

/-- A character that no escape takes, and with which the literal does not end, is a rune, or it
begins one. -/
theorem walk_of_next?_eq_none (h : e.next? c cs = none) (hquote : c ≠ '\'')
    (hc : atLineBreak (c :: cs) = false) :
    walk e n k (c :: cs) = walk (if c == '\\' then .backslash else .idle) (n + 1) (k + 1) cs := by
  rw [walk, h]
  simp [hquote, hc]

theorem walk_of_next?_eq_some {f : Escape} (h : e.next? c cs = some f) :
    walk e n k (c :: cs) = walk f (n + 1) k cs := by
  rw [walk, h]

/-- No escape takes a line break. -/
theorem walk_of_lineStops (h : LineStops cs) (he : e ≠ .beforeBrace) :
    walk e n k cs = ⟨n, k, false⟩ := by
  cases cs with
  | nil => rfl
  | cons c cs =>
    obtain ⟨hc, hcases⟩ := h.cases_cons
    have hquote : c ≠ '\'' := by rcases hcases with rfl | ⟨rfl, -⟩ <;> decide
    have hnext : e.next? c cs = none := by
      rcases hcases with rfl | ⟨rfl, -⟩ <;> cases e <;> first | rfl | exact absurd rfl he
    rw [walk, hnext]
    simp [hquote, hc]

/-- An escape that has come to an end, or an escape by code in front of its brace or behind it. -/
def Escape.Fits (cs : List Char) : Escape → Prop
  | .idle | .digits => True
  | .backslash => False
  | .beforeBrace => cs.head? = some '{'

theorem Escape.Fits.ne_beforeBrace (he : e.Fits cs) (h : cs.head? ≠ some '{') :
    e ≠ .beforeBrace := by
  rintro rfl
  exact h he

/-- A backslash begins an escape wherever it stands. -/
theorem walk_begin_escape (he : e.Fits ('\\' :: cs)) :
    walk e n k ('\\' :: cs) = walk .backslash (n + 1) (k + 1) cs := by
  have hnext : e.next? '\\' cs = none := by
    cases e with
    | idle | digits => rfl
    | backslash => exact he.elim
    | beforeBrace => simp [Escape.Fits] at he
  exact walk_of_next?_eq_none hnext (by decide) (by simp [atLineBreak_cons])

/-- Behind a backslash, an escape by code goes on, or the escape ends. A carriage return is not
escaped; it is a rune by itself. -/
theorem exists_walk_backslash (hc : atLineBreak (c :: cs) = false) (k : Nat) : ∃ e k',
    e.Fits cs ∧ ∀ n, walk .backslash n k (c :: cs) = walk e (n + 1) k' cs := by
  by_cases hcode : c = 'u' ∧ cs.head? = some '{'
  · exact ⟨.beforeBrace, k, hcode.2, fun n => walk_of_next?_eq_some (by simp [Escape.next?, hcode])⟩
  have hfeed : c ≠ '\n' := by
    rintro rfl
    simp [atLineBreak_cons] at hc
  by_cases hreturn : c = '\r'
  · subst hreturn
    exact ⟨.idle, k + 1, trivial, fun n => walk_of_next?_eq_none rfl (by decide) hc⟩
  · exact ⟨.idle, k, trivial, fun n => walk_of_next?_eq_some
      (by simpa [Escape.next?, hfeed, hreturn] using hcode)⟩

/-- Any other character that does not end the literal is passed. -/
theorem exists_walk_plain (he : e.Fits (c :: cs)) (hquote : c ≠ '\'') (hbackslash : c ≠ '\\')
    (hc : atLineBreak (c :: cs) = false) (k : Nat) :
    ∃ e' k', e'.Fits cs ∧ ∀ n, walk e n k (c :: cs) = walk e' (n + 1) k' cs := by
  cases hnext : e.next? c cs with
  | none =>
    refine ⟨.idle, k + 1, trivial, fun n => ?_⟩
    rw [walk_of_next?_eq_none hnext hquote hc, if_neg (by simpa)]
  | some e' =>
    refine ⟨e', k, ?_, fun n => walk_of_next?_eq_some hnext⟩
    -- Behind a brace or a digit there are digits or the end of the escape, and these fit any text.
    cases e with
    | idle => simp [Escape.next?] at hnext
    | backslash => exact he.elim
    | beforeBrace =>
      obtain rfl := Option.some.inj hnext
      trivial
    | digits =>
      simp only [Escape.next?] at hnext
      split_ifs at hnext <;> obtain rfl := Option.some.inj hnext <;> trivial

theorem walk_of_quotedBody (h : QuotedBody '\'' body behind closed) (he : e.Fits (body ++ behind))
    (n k : Nat) : ∃ k', walk e n k (body ++ behind) = ⟨n + body.length, k', closed⟩ := by
  induction h generalizing e n k with
  | close =>
    cases e with
    | idle | digits => exact ⟨k, rfl⟩
    | backslash => exact he.elim
    | beforeBrace => simp [Escape.Fits] at he
  | stop h => exact ⟨k, walk_of_lineStops h (he.ne_beforeBrace h.head?_ne)⟩
  | stopEscape h =>
    refine ⟨k + 1, ?_⟩
    rw [List.cons_append, List.nil_append] at he ⊢
    rw [walk_begin_escape he]
    exact walk_of_lineStops h (by decide)
  | @escape c body behind closed hc h ih =>
    obtain ⟨e', k', he', hwalk⟩ := exists_walk_backslash hc (k + 1)
    obtain ⟨k'', hk''⟩ := ih he' (n + 1 + 1) k'
    refine ⟨k'', ?_⟩
    rw [List.cons_append, List.cons_append] at he ⊢
    rw [walk_begin_escape he, hwalk, hk'']
    simp only [List.length_cons, Nat.add_assoc, Nat.add_comm 1]
  | @plain c body behind closed hquote hbackslash hc h ih =>
    rw [List.cons_append] at he ⊢
    obtain ⟨e', k', he', hwalk⟩ := exists_walk_plain he hquote hbackslash hc k
    obtain ⟨k'', hk''⟩ := ih he' (n + 1) k'
    refine ⟨k'', ?_⟩
    rw [hwalk, hk'']
    simp only [List.length_cons, Nat.add_assoc, Nat.add_comm 1]

/-- A rune ends where the grammar says. -/
theorem scan_of_quotedBody (h : QuotedBody '\'' body behind closed) :
    ∃ runes, scan (body ++ behind) = ⟨body.length, runes, closed⟩ := by
  obtain ⟨runes, hruns⟩ := walk_of_quotedBody (e := .idle) h trivial 0 0
  exact ⟨runes, by rw [scan, hruns, Nat.zero_add]⟩

end RuneLiteral

/-- What the grammar finds behind a quote is determined by the text. -/
theorem QuotedBody.unique {body' behind' : List Char} {closed' : Bool} (hq : Lexeme.IsQuote q)
    (h : QuotedBody q body behind closed) (h' : QuotedBody q body' behind' closed')
    (htext : body ++ behind = body' ++ behind') : body' = body ∧ closed' = closed := by
  obtain ⟨hlength, hclosed⟩ : body'.length = body.length ∧ closed' = closed := by
    rcases hq with rfl | rfl
    · have hscan := StringLiteral.scan_of_quotedBody h'
      rw [← htext, StringLiteral.scan_of_quotedBody h] at hscan
      exact ⟨(Prod.mk.inj hscan).1.symm, (Prod.mk.inj hscan).2.symm⟩
    · obtain ⟨runes, hscan⟩ := RuneLiteral.scan_of_quotedBody h
      obtain ⟨runes', hscan'⟩ := RuneLiteral.scan_of_quotedBody h'
      rw [← htext, hscan] at hscan'
      obtain ⟨hlength, -, hclosed⟩ := RuneLiteral.Extent.mk.inj hscan'
      exact ⟨hlength.symm, hclosed.symm⟩
  exact ⟨(List.append_inj htext hlength.symm).1.symm, hclosed⟩

/-! ## Tokens -/

/-- No lexeme is a string or a rune. -/
theorem Lexeme.IsLexeme.ne_quoted {k : TokenKind} {text rest : List Char}
    (h : IsLexeme k text rest) : k ≠ .string ∧ k ≠ .rune := by
  cases h with
  | whitespace | lineFeed | lineBreak | comment | identifier => decide
  | keyword _ hk _ => constructor <;> rintro rfl <;> exact absurd hk (by decide)
  | glyph hk _ => constructor <;> rintro rfl <;> exact absurd hk (by decide)
  | number h => cases h <;> decide

/-- Strings and runes are told by their quotes. -/
theorem Piece.quote_of_scan {k : TokenKind} (h : (scan c cs).kind = some k) :
    (k = .string → c = '"') ∧ (k = .rune → c = '\'') := by
  by_cases hc : Lexeme.IsQuote c
  · rw [kind_scan_of_isQuote hc] at h
    obtain rfl := Option.some.inj h
    rcases hc with rfl | rfl <;> decide
  · have hother : k ≠ .string ∧ k ≠ .rune := by
      rcases Lexeme.scan_cases (fun h => hc (.inl h)) (fun h => hc (.inr h)) cs with
        ⟨k', n, hscan, hlexeme⟩ | ⟨hscan, -⟩ | ⟨hscan, -⟩
      · rw [hscan] at h
        obtain rfl := Option.some.inj h
        exact hlexeme.ne_quoted
      · simp [hscan, unsupported] at h
      · rw [hscan] at h
        obtain rfl := Option.some.inj h
        decide
    exact ⟨fun h => absurd h hother.1, fun h => absurd h hother.2⟩

/-- The token is what the rule for one segment reads at the character `c`, behind `front` and in
front of `cs`. Of the diagnostics in its span, the only one is the complaint about it. -/
structure ReadAt (s : Source) (t : Token) (front : List Char) (c : Char) (cs : List Char) :
    Prop where
  chars_eq : s.chars = front ++ c :: cs
  kind_eq : (Piece.scan c cs).kind = some t.kind
  position_eq : t.position = .recount front
  length_eq : t.length = byteLength (c :: cs.take (Piece.scan c cs).more)
  tokenText_eq : s.tokenText t = String.ofList (c :: cs.take (Piece.scan c cs).more)
  diagnosticsIn_eq : (lexRaw s 0).diagnosticsIn t.span =
    ((Piece.scan c cs).complaint.map (.about · .lexing t.position t.length)).toList

variable {s : Source} {t : Token} {front : List Char}

/-- Every token in front of the end of input is read somewhere. -/
theorem exists_readAt (ht : t ∈ (lexRaw s 0).tokens) (hkind : t.kind ≠ .endOfInput) :
    ∃ front c cs, ReadAt s t front c cs := by
  rw [tokens_lexRaw] at ht
  rcases List.mem_append.1 ht with ht | ht
  · obtain ⟨piece, hpiece, htoken⟩ := List.mem_filterMap.1 ht
    obtain ⟨front, rest, hsplit⟩ := List.append_of_mem hpiece
    have hmiddle : Segment.ofText .origin s.chars = front ++ [piece] ++ rest :=
      hsplit.trans (List.append_cons front piece rest)
    have hspan : t.span = ⟨byteLength (front.flatMap Segment.text),
        byteLength ((front ++ [piece]).flatMap Segment.text)⟩ := by
      rw [Segment.span_of_token? htoken, Segment.span, Segment.position_eq_after hsplit,
        Segment.stop_eq_after hsplit, Position.offset_after_origin, Position.offset_after_origin]
    obtain ⟨c, cs, hfirst, hrest⟩ := Segment.eq_first_of_append hsplit
    obtain ⟨k, hk, rfl⟩ := Option.map_eq_some_iff.1 htoken
    refine ⟨front.flatMap Segment.text, c, cs, ?_, ?_, ?_, ?_, ?_, ?_⟩
    · rw [← Segment.flatMap_text .origin s.chars, hsplit, List.flatMap_append, List.flatMap_cons,
        hrest]
    · rw [← hk, hfirst]
      rfl
    · exact (Segment.position_eq_after hsplit).trans (Position.after_origin _)
    · show piece.length = _
      rw [hfirst]
      rfl
    · rw [Segment.tokenText_eq hpiece htoken, hfirst]
      rfl
    · rw [hspan, LexOutput.diagnosticsIn_lexRaw, Segment.filter_covers_span hmiddle]
      have hcomplaint : (Piece.scan c cs).complaint = piece.complaint := by
        rw [hfirst]
        rfl
      rw [hcomplaint]
      cases h : piece.complaint <;> simp [Segment.diagnostic?, h]
  · exact absurd (congrArg Token.kind (List.mem_singleton.1 ht)) hkind

/-- A token is read where it begins. -/
theorem readAt_of_start_eq (ht : t ∈ (lexRaw s 0).tokens) (hs : s.chars = front ++ c :: cs)
    (hstart : t.start = byteLength front) : ReadAt s t front c cs := by
  have hkind : t.kind ≠ .endOfInput := by
    intro hkind
    have hlast : t = endOfInput s.chars := by
      rw [tokens_lexRaw] at ht
      rcases List.mem_append.1 ht with ht | ht
      · exact absurd hkind (Cursor.kind_ne_endOfInput ht)
      · exact List.mem_singleton.1 ht
    have hend : t.start = byteLength s.chars := by
      rw [hlast, ← Position.offset_after_origin]
      rfl
    have hpos := c.utf8Size_pos
    rw [hend, hs, byteLength_append, byteLength_cons] at hstart
    omega
  obtain ⟨front', d, ds, h⟩ := exists_readAt ht hkind
  have hlength : byteLength front' = byteLength front := by
    rw [← hstart, Token.start, h.position_eq]
    rfl
  have hprefix : front <+: s.chars := ⟨_, hs.symm⟩
  have hprefix' : front' <+: s.chars := ⟨_, h.chars_eq.symm⟩
  have hfront : front' = front :=
    (isPrefix_of_byteLength_le hprefix' hprefix hlength.le).eq_of_length_le
      (isPrefix_of_byteLength_le hprefix hprefix' hlength.ge).length_le
  subst hfront
  obtain ⟨rfl, rfl⟩ : d = c ∧ ds = cs := by
    simpa using h.chars_eq.symm.trans hs
  exact h

end DeclFront
