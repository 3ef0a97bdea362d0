import DeclFront.Proofs.Consumption
import DeclFront.Proofs.Passage
import Mathlib.Data.List.Induction
import Mathlib.Data.List.Nodup

/-!
# The tokens of a text tile it

Reading a text cuts it into pieces: the tokens, and the blanks that are not allowed, of which only a
diagnostic tells. The pieces lie side by side from the first byte to the last one (`Tiles`), and
none of them is empty or cuts a character.

The place of a token is kept up from one piece to the next. It is the one that is found by counting
from the beginning of the text (`Position.recount`), however the pieces before it were read.

**Theorem (`tiles_lexRaw`).** Both hold of every text.
-/

namespace DeclFront

/-! ## Places counted from the beginning -/

/-- The place behind the characters `cs` that a text begins with. Lines are told by the line feeds,
and columns by the characters behind the last of these. -/
def Position.recount (cs : List Char) : Position :=
  ⟨byteLength cs, 1 + cs.count '\n', 1 + (cs.reverse.takeWhile (· ≠ '\n')).length⟩

/-- Keeping a place up from one character to the next is as good as counting again. -/
theorem Position.after_origin (cs : List Char) : origin.after cs = recount cs := by
  induction cs using List.reverseRecOn with
  | nil => rfl
  | append_singleton cs c ih =>
    rw [after_append, ih, after_cons, after_nil, advance]
    split
    · next hc => simp [recount, byteLength_append, hc, Nat.add_assoc]
    · next hc => simp [recount, byteLength_append, hc, Nat.add_assoc]

theorem Position.offset_after_origin (cs : List Char) :
    (origin.after cs).offset = byteLength cs := by
  rw [after_origin]
  rfl

theorem utf8ByteSize_ofList (cs : List Char) : (String.ofList cs).utf8ByteSize = byteLength cs := by
  induction cs with
  | nil => rfl
  | cons c cs ih =>
    rw [← List.singleton_append, String.ofList_append, String.utf8ByteSize_append, ih,
      ← String.singleton_eq_ofList, String.utf8ByteSize_singleton]
    rfl

theorem Source.length_eq (s : Source) : s.length = byteLength s.chars := by
  rw [length, chars, ← utf8ByteSize_ofList, String.ofList_toList]

/-- Behind some first characters of a text there is a boundary of characters. -/
theorem isValid_of_isPrefix {text : String} {cs : List Char} (h : cs <+: text.toList) :
    String.Pos.Raw.IsValid text ⟨byteLength cs⟩ := by
  refine String.Pos.Raw.isValid_iff_exists_take_toList.2 ⟨cs.length, ?_⟩
  rw [← List.prefix_iff_eq_take.1 h, utf8ByteSize_ofList]

/-! ## Tilings -/

/-- The spans lie side by side from `start` to `stop`, and none of them is empty. -/
inductive Tiles : Nat → List Span → Nat → Prop
  | nil {stop : Nat} : Tiles stop [] stop
  | cons {start mid stop : Nat} {spans : List Span} (hne : start < mid) (h : Tiles mid spans stop) :
    Tiles start (⟨start, mid⟩ :: spans) stop

theorem Tiles.start_le {start stop : Nat} {spans : List Span} (h : Tiles start spans stop) :
    ∀ span ∈ spans, start ≤ span.start := by
  induction h with
  | nil => simp
  | cons hne _ ih =>
    intro span hspan
    rcases List.mem_cons.1 hspan with rfl | hspan
    · exact Nat.le_refl _
    · exact Nat.le_trans (Nat.le_of_lt hne) (ih span hspan)

/-- Each span of a tiling begins before every later one. -/
theorem Tiles.pairwise {start stop : Nat} {spans : List Span} (h : Tiles start spans stop) :
    spans.Pairwise fun a b => a.start < b.start := by
  induction h with
  | nil => exact .nil
  | cons hne h ih =>
    exact List.pairwise_cons.2 ⟨fun b hb => Nat.lt_of_lt_of_le hne (h.start_le b hb), ih⟩

/-- Sorting the spans of a tiling by their starts puts them back in their order. -/
theorem Tiles.mergeSort_eq {start stop : Nat} {spans spans' : List Span}
    (h : Tiles start spans stop) (hperm : spans'.Perm spans) :
    (spans'.mergeSort fun a b => a.start ≤ b.start) = spans := by
  have hnodup : (spans.map Span.start).Nodup :=
    List.pairwise_map.2 (h.pairwise.imp fun hlt => Nat.ne_of_lt hlt)
  have hsorted := Sink.pairwise_mergeSort_key Span.start spans'
  have hsort := (List.mergeSort_perm spans' fun a b => a.start ≤ b.start).trans hperm
  refine List.Perm.eq_of_pairwise ?_ hsorted (h.pairwise.imp Nat.le_of_lt) hsort
  exact fun a b ha hb hab hba =>
    List.inj_on_of_nodup_map hnodup (hsort.mem_iff.1 ha) hb (Nat.le_antisymm hab hba)

/-! ## The segments of a text -/

namespace Segment

/-- The bytes of a segment. -/
def span (s : Segment) : Span := ⟨s.position.offset, s.stop.offset⟩

theorem length_pos_first (p : Position) (c : Char) (cs : List Char) : 0 < (first p c cs).length :=
  Nat.lt_of_lt_of_le c.utf8Size_pos (Nat.le_add_right _ _)

theorem offset_lt_stop_first (p : Position) (c : Char) (cs : List Char) :
    p.offset < (first p c cs).stop.offset := by
  have hlength := length_pos_first p c cs
  rw [stop, Position.offset_after]
  exact Nat.lt_add_of_pos_right hlength

theorem tiles_ofText (p : Position) (cs : List Char) :
    Tiles p.offset ((ofText p cs).map span) (p.after cs).offset := by
  refine ofText_induction (P := fun p cs ss => Tiles p.offset (ss.map span) (p.after cs).offset)
    (fun _ => .nil) (fun p c cs ih => ?_) p cs
  rw [after_stop_first] at ih
  exact .cons (offset_lt_stop_first p c cs) ih

/-- What stands in front of a segment of a text, and the places where the segment begins and
ends. -/
theorem exists_prefix_of_mem {cs : List Char} {s : Segment} (h : s ∈ ofText .origin cs) :
    ∃ before, before ++ s.text <+: cs ∧ s.position = .recount before ∧
      s.stop = .recount (before ++ s.text) := by
  obtain ⟨ss, ss', hss⟩ := List.append_of_mem h
  obtain ⟨d, ds, hs, -⟩ := eq_first_of_append hss
  have hposition : s.position = .recount (ss.flatMap text) := by
    rw [hs, position_first, Position.after_origin]
  refine ⟨ss.flatMap text, ⟨ss'.flatMap text, ?_⟩, hposition, ?_⟩
  · rw [← flatMap_text .origin cs, hss]
    simp
  · rw [stop, hposition, ← Position.after_origin, ← Position.after_append, Position.after_origin]

/-- The bytes of a token are those of its segment. -/
theorem span_of_token? {s : Segment} {t : Token} (h : s.token? = some t) : t.span = s.span := by
  obtain ⟨hstart, hstop⟩ := stop_of_token? h
  rw [Token.span, span, hstart, hstop]

theorem span_of_diagnostic? {s : Segment} {x : Diagnostic} (h : s.diagnostic? = some x) :
    x.span = s.span := by
  obtain ⟨code, -, rfl⟩ := diagnostic?_eq_some h
  rw [span, stop, Position.offset_after]
  rfl

/-- Each segment shows once, as a token or as a blank that is complained about. -/
theorem perm_spans {ss : List Segment}
    (hblank : ∀ s ∈ ss, s.kind = none ↔ s.complaint = some .unsupportedWhitespace) :
    ((ss.filterMap token?).map Token.span ++
      ((ss.filterMap diagnostic?).filter (·.code == .unsupportedWhitespace)).map
        Diagnostic.span).Perm (ss.map span) := by
  induction ss with
  | nil => exact .nil
  | cons s ss ih =>
    have ih := ih fun s hs => hblank s (List.mem_cons_of_mem _ hs)
    have hs := hblank s List.mem_cons_self
    cases hk : s.kind with
    | none =>
      have hcomplaint := hs.1 hk
      have htoken : s.token? = none := by simp [token?, hk]
      have hdiagnostic : s.diagnostic? =
          some (.about .unsupportedWhitespace .lexing s.position s.length) := by
        simp [diagnostic?, hcomplaint]
      have hspan := span_of_diagnostic? hdiagnostic
      simp only [List.filterMap_cons, htoken, hdiagnostic, List.map_cons]
      rw [List.filter_cons_of_pos rfl, List.map_cons, hspan]
      exact List.perm_middle.trans (ih.cons _)
    | some k =>
      have htoken : s.token? = some ⟨k, s.position, s.length⟩ := by simp [token?, hk]
      have hother : ((s :: ss).filterMap diagnostic?).filter (·.code == .unsupportedWhitespace) =
          (ss.filterMap diagnostic?).filter (·.code == .unsupportedWhitespace) := by
        cases hx : s.diagnostic? with
        | none => rw [List.filterMap_cons_none hx]
        | some x =>
          obtain ⟨code, hcode, rfl⟩ := diagnostic?_eq_some hx
          have hne : code ≠ .unsupportedWhitespace := by
            rintro rfl
            simp [hs.2 hcode] at hk
          rw [List.filterMap_cons_some hx, List.filter_cons_of_neg (by simpa [Diagnostic.about])]
      rw [hother, List.filterMap_cons_some htoken, List.map_cons, span_of_token? htoken]
      exact ih.cons _

end Segment

/-! ## The significant tokens -/

/-- Tokens in order that end with the end of input, the only empty one. -/
structure Spaced (ts : List Token) : Prop where
  ordered : Ordered ts
  terminated : Terminated ts
  length_eq_zero_iff : ∀ t ∈ ts, t.length = 0 ↔ t.kind = .endOfInput

/-- Each token begins before every later one. -/
theorem Spaced.pairwise {ts : List Token} (h : Spaced ts) :
    ts.Pairwise fun t u => t.start < u.start := by
  obtain ⟨hordered, hterminated, hlength⟩ := h
  induction hterminated with
  | last => exact List.pairwise_singleton _ _
  | @cons t ts hk _ ih =>
    obtain ⟨ht, hts⟩ := List.pairwise_cons.1 hordered
    obtain ⟨hpos, hlength⟩ := List.forall_mem_cons.1 hlength
    have hstop : t.start < t.stop :=
      Nat.lt_add_of_pos_right (Nat.pos_of_ne_zero (mt hpos.1 hk))
    exact List.pairwise_cons.2 ⟨fun u hu => Nat.lt_of_lt_of_le hstop (ht u hu), ih hts hlength⟩

theorem Segment.length_pos_of_mem_tokens {cs : List Char} {t : Token} (h : t ∈ tokens cs) :
    0 < t.length := by
  obtain ⟨s, hs, ht⟩ := List.mem_filterMap.1 h
  obtain ⟨p, c, cs, rfl⟩ := exists_first_of_mem hs
  obtain ⟨k, -, rfl⟩ := Option.map_eq_some_iff.1 ht
  exact length_pos_first p c cs

theorem Cursor.spaced_ofChars (cs : List Char) : Spaced (ofChars cs).tokens := by
  refine ⟨?_, closed_ofChars cs, ?_⟩
  · rw [tokens_ofChars]
    exact ordered_tokens cs
  · rw [tokens_ofChars]
    intro t ht
    rcases List.mem_append.1 ht with ht | ht
    · have ht := (List.mem_filter.1 ht).1
      have hlength := Segment.length_pos_of_mem_tokens ht
      exact iff_of_false (Nat.ne_of_gt hlength) (kind_ne_endOfInput ht)
    · rw [List.mem_singleton.1 ht]
      exact iff_of_true rfl rfl

/-! ## Reading a text -/

/-- The stretches of text that the tokens in front of the end of input and the blanks that are not
allowed cover, in the order of their offsets. -/
def LexOutput.pieces (o : LexOutput) : List Span :=
  ((o.tokens.filter (·.kind != .endOfInput)).map Token.span ++
    (o.diagnostics.filter (·.code == .unsupportedWhitespace)).map Diagnostic.span).mergeSort
      fun a b => a.start ≤ b.start

theorem TokenKind.isSynthetic_iff (k : TokenKind) : k.isSynthetic = true ↔ k = .missing := by
  cases k <;> decide

theorem Segment.isSynthetic_of_mem_tokens {cs : List Char} {t : Token} (h : t ∈ tokens cs) :
    t.kind.isSynthetic = false := by
  obtain ⟨s, hs, ht⟩ := List.mem_filterMap.1 h
  obtain ⟨k, hk, rfl⟩ := Option.map_eq_some_iff.1 ht
  have hne := (lawful_of_mem hs).ne_missing
  rw [← Bool.not_eq_true, TokenKind.isSynthetic_iff]
  exact fun heq => hne (hk.trans (congrArg some heq))

theorem pieces_lexRaw (s : Source) :
    (lexRaw s 0).pieces = (Segment.ofText .origin s.chars).map Segment.span := by
  have htokens : (lexRaw s 0).tokens.filter (·.kind != .endOfInput) = Segment.tokens s.chars := by
    rw [tokens_lexRaw, List.filter_append, List.filter_eq_self.2 fun t ht => ?_]
    · exact List.append_nil _
    · simpa using Cursor.kind_ne_endOfInput ht
  rw [LexOutput.pieces, htokens, Module.diagnostics_lexRaw_zero]
  exact (Segment.tiles_ofText .origin s.chars).mergeSort_eq
    (Segment.perm_spans fun _ hs => (Segment.lawful_of_mem hs).kind_eq_none_iff)

/-- **The tokens of a text tile it.** Read without a limit, the tokens of a text and the blanks
complained about lie side by side from its first byte to its last one, without an empty piece or a
cut through a character. The end of input comes once, at the end and behind the last byte. No token
is synthetic, and each stands where counting from the beginning of the text puts it. -/
theorem tiles_lexRaw (s : Source) :
    Tiles 0 (lexRaw s 0).pieces s.length ∧
    (∀ span ∈ (lexRaw s 0).pieces, String.Pos.Raw.IsValid s.text ⟨span.start⟩ ∧
      String.Pos.Raw.IsValid s.text ⟨span.stop⟩) ∧
    (∃ ts last, (lexRaw s 0).tokens = ts ++ [last] ∧ (∀ t ∈ ts, t.kind ≠ .endOfInput) ∧
      last.kind = .endOfInput ∧ last.start = s.length ∧ last.length = 0) ∧
    (∀ t ∈ (lexRaw s 0).tokens, t.kind.isSynthetic = false) ∧
    ∀ t ∈ (lexRaw s 0).tokens, ∃ before, before <+: s.chars ∧ t.position = .recount before := by
  refine ⟨?_, ?_, ?_, ?_, ?_⟩
  · rw [pieces_lexRaw, Source.length_eq, ← Position.offset_after_origin]
    exact Segment.tiles_ofText .origin s.chars
  · intro span hspan
    rw [pieces_lexRaw] at hspan
    obtain ⟨piece, hpiece, rfl⟩ := List.mem_map.1 hspan
    obtain ⟨before, hbefore, hposition, hstop⟩ := Segment.exists_prefix_of_mem hpiece
    rw [Segment.span, hposition, hstop]
    exact ⟨isValid_of_isPrefix ((List.prefix_append _ _).trans hbefore),
      isValid_of_isPrefix hbefore⟩
  · refine ⟨_, _, tokens_lexRaw s 0, fun t => Cursor.kind_ne_endOfInput, rfl, ?_, rfl⟩
    rw [Source.length_eq, ← Position.offset_after_origin]
    rfl
  · intro t ht
    rw [tokens_lexRaw] at ht
    rcases List.mem_append.1 ht with ht | ht
    · exact Segment.isSynthetic_of_mem_tokens ht
    · rw [List.mem_singleton.1 ht]
      rfl
  · intro t ht
    rw [tokens_lexRaw] at ht
    rcases List.mem_append.1 ht with ht | ht
    · obtain ⟨piece, hpiece, htoken⟩ := List.mem_filterMap.1 ht
      obtain ⟨before, hbefore, hposition, -⟩ := Segment.exists_prefix_of_mem hpiece
      obtain ⟨k, -, rfl⟩ := Option.map_eq_some_iff.1 htoken
      exact ⟨before, (List.prefix_append _ _).trans hbefore, hposition⟩
    · rw [List.mem_singleton.1 ht]
      exact ⟨s.chars, List.prefix_refl _, Position.after_origin _⟩

end DeclFront
