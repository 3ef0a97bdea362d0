import DeclFront.Proofs.Extents
import DeclFront.Proofs.Isolation
import DeclFront.Proofs.Slices
import DeclFront.Proofs.Unambiguity

/-!
# Declarations taken out of a text

**Theorem (`Module.reparses_members`).** In a text that is parsed without a diagnostic, the span of
every constituent reaches from the first token that it is derived from to the last one. The text of
a declaration alone, put under a header, is parsed to the same declaration.

The tokens of a declaration are consecutive, so the segments from the first to the last of them are,
and their text is the text of its span (`Segment.exists_excerpt`), a slice between two boundaries of
segments. What remains is that a derivation moves with its tokens (`isDeclaration_rebase`).
Relabelling gives some derivation of the moved tokens, but tells its tree only when it is moved
back, so the tree is found by moving there and back, as tokens have one tree.
-/

namespace DeclFront

open DeclFront.Parser DeclFront.Grammar DeclFront.Lexeme

/-! ## Consecutive tokens -/

/-- Consecutive values of a partial function come from consecutive elements, the first value from
the first of these and the last one from the last. -/
theorem exists_infix_of_filterMap {α β : Type} {f : α → Option β} {as : List α}
    {before bs behind : List β} (h : as.filterMap f = before ++ bs ++ behind) (hne : bs ≠ []) :
    ∃ front mid rest, as = front ++ mid ++ rest ∧ mid.filterMap f = bs ∧
      (∃ a, mid.head? = some a ∧ f a = bs.head?) ∧
      ∃ z, mid.getLast? = some z ∧ f z = bs.getLast? := by
  rcases List.eq_nil_or_concat bs with rfl | ⟨bs, y, rfl⟩
  · exact absurd rfl hne
  rw [List.concat_eq_append, List.append_assoc, List.append_assoc] at h
  obtain ⟨front, as₁, rfl, -, h⟩ := List.filterMap_eq_append_iff.1 h
  cases bs with
  | nil =>
    obtain ⟨front', a, rest, rfl, -, ha, -⟩ := List.filterMap_eq_cons_iff.1 h
    exact ⟨front ++ front', [a], rest, by simp, by simp [ha], ⟨a, rfl, ha⟩, a, rfl, ha⟩
  | cons b bs =>
    obtain ⟨front', a, as₂, rfl, -, ha, h⟩ := List.filterMap_eq_cons_iff.1 h
    obtain ⟨mid, as₃, rfl, hmid, h⟩ := List.filterMap_eq_append_iff.1 h
    obtain ⟨mid', z, rest, rfl, hnone, hz, -⟩ := List.filterMap_eq_cons_iff.1 h
    refine ⟨front ++ front', a :: (mid ++ mid') ++ [z], rest, by simp, ?_, ⟨a, rfl, ha⟩, z,
      List.getLast?_concat, ?_⟩
    · have hnil : mid'.filterMap f = [] := List.filterMap_eq_nil_iff.2 hnone
      simp [ha, hz, hmid, hnil]
    · rw [hz, List.concat_eq_append, List.getLast?_concat]

namespace Segment

section

variable {cs : List Char} {s z : Segment} {front mid rest : List Segment}

/-- Where the first of some consecutive segments of a text begins. -/
theorem position_of_head? (h : ofText .origin cs = front ++ mid ++ rest) (hs : mid.head? = some s) :
    s.position = Position.origin.after (front.flatMap text) := by
  obtain ⟨ss, rfl⟩ := List.head?_eq_some_iff.1 hs
  have hsplit : ofText .origin cs = front ++ s :: (ss ++ rest) := by rw [h]; simp
  exact position_eq_after hsplit

/-- Where the last of some consecutive segments of a text ends. -/
theorem stop_of_getLast? (h : ofText .origin cs = front ++ mid ++ rest)
    (hz : mid.getLast? = some z) :
    z.stop = Position.origin.after (front.flatMap text ++ mid.flatMap text) := by
  obtain ⟨zs, rfl⟩ := List.getLast?_eq_some_iff.1 hz
  have hsplit : ofText .origin cs = (front ++ zs) ++ z :: rest := by rw [h]; simp
  rw [stop, position_eq_after hsplit, ← Position.after_append]
  simp

/-- Consecutive segments of a text are the segments of their characters. -/
theorem ofText_flatMap_text (h : ofText .origin cs = front ++ mid ++ rest) :
    ofText (.after .origin (front.flatMap text)) (mid.flatMap text) = mid := by
  have hbehind := eq_ofText_of_append (h.trans (List.append_assoc front mid rest))
  rw [List.flatMap_append] at hbehind
  exact ofText_slice hbehind.symm rfl

end

/-- **Excerpts.** Consecutive significant tokens of a text without complaints are the significant
tokens of the characters from the first one to the last one. -/
theorem exists_excerpt {cs : List Char} {before ts behind : List Token}
    (h : significant .origin cs = before ++ ts ++ behind) (hne : ts ≠ [])
    (hsound : ∀ s ∈ ofText .origin cs, s.complaint = none) :
    ∃ front slice rest, cs = front ++ slice ++ rest ∧
      Span.ofTokens ts = ⟨byteLength front, byteLength (front ++ slice)⟩ ∧
      (∀ t ∈ ts.head?, t.position = Position.origin.after front) ∧
      significant (.after .origin front) slice = ts ∧
      ∀ s ∈ ofText (.after .origin front) slice, s.complaint = none := by
  have hfilter (ss : List Segment) : (ss.filterMap token?).filter (!·.kind.isTrivia) =
      ss.filterMap fun s => s.token?.filter (!·.kind.isTrivia) := List.filter_filterMap
  have htoken {s : Segment} {t : Token} (h : s.token?.filter (!·.kind.isTrivia) = some t) :
      s.token? = some t := (Option.filter_eq_some_iff.1 h).1
  have hlast := List.getLast?_eq_some_getLast hne
  obtain ⟨t, hhead⟩ : ∃ t, ts.head? = some t := Option.isSome_iff_exists.1 (List.isSome_head?.2 hne)
  rw [significant, hfilter] at h
  obtain ⟨front, mid, rest, hss, hmid, ⟨s, hs, hst⟩, z, hz, hzu⟩ :=
    exists_infix_of_filterMap h hne
  have hst := htoken (hst.trans hhead)
  have hzu := htoken (hzu.trans hlast)
  have hposition := position_of_head? hss hs
  have hslice := ofText_flatMap_text hss
  refine ⟨front.flatMap text, mid.flatMap text, rest.flatMap text, ?_, ?_, ?_, ?_, ?_⟩
  · rw [← flatMap_text .origin cs, hss]
    simp
  · rw [Span.ofTokens_eq hhead hlast, (stop_of_token? hst).1, (stop_of_token? hzu).2, hposition,
      stop_of_getLast? hss hz, Position.offset_after_origin, Position.offset_after_origin]
  · intro t' ht'
    obtain rfl := Option.some.inj (hhead.symm.trans ht')
    obtain ⟨k, -, rfl⟩ := Option.map_eq_some_iff.1 hst
    exact hposition
  · rw [significant, hfilter, hslice, hmid]
  · rw [hslice]
    exact fun s hs => hsound s (hss ▸ List.mem_append_left rest (List.mem_append_right front hs))

end Segment

/-! ## Excerpts under a header -/

/-- The declaration that stands behind `a` when `a` comes to stand at `b`. -/
def Declaration.rebase (a b : Position) (d : Declaration) : Declaration :=
  d.map (Token.rebase a b) fun n => n - a.offset + b.offset

/-- The tokens stand behind `a`. -/
def StandBehind (a : Position) (ts : List Token) : Prop := ∀ t ∈ ts, ∃ cs, t.position = a.after cs

variable {a b : Position} {ts : List Token} {d d' : Declaration}

theorem StandBehind.rebase (h : StandBehind a ts) (b : Position) :
    StandBehind b (ts.map (.rebase a b)) := by
  intro u hu
  obtain ⟨t, ht, rfl⟩ := List.mem_map.1 hu
  obtain ⟨cs, hcs⟩ := h t ht
  exact ⟨cs, by rw [Token.rebase, hcs, Position.rebase_after]⟩

theorem StandBehind.rebase_rebase (h : StandBehind a ts) (b : Position) :
    (ts.map (.rebase a b)).map (.rebase b a) = ts := by
  rw [List.map_map]
  refine List.map_eq_self fun t ht => ?_
  obtain ⟨cs, hcs⟩ := h t ht
  rw [Function.comp_apply, Token.rebase, Token.rebase, hcs, Position.rebase_after,
    Position.rebase_after, ← hcs]

/-- Tokens behind `a` stand for the same tokens behind `b`. -/
theorem StandBehind.standFor (h : StandBehind a ts) (b : Position) :
    StandFor (.rebase a b) (· - a.offset + b.offset) (ts.map (.rebase a b)) ts := by
  refine List.forall₂_map_left_iff.2 (List.forall₂_same.2 fun t ht => ?_)
  refine ⟨rfl, rfl, rfl, ?_⟩
  obtain ⟨cs, hcs⟩ := h t ht
  have hle : a.offset ≤ t.start := by
    rw [Token.start, hcs, Position.offset_after]
    exact Nat.le_add_right _ _
  show t.start + t.length - a.offset + b.offset = t.start - a.offset + b.offset + t.length
  omega

theorem standBehind_significant (a : Position) (cs : List Char) :
    StandBehind a (Segment.significant a cs) := by
  intro t ht
  obtain ⟨s, hs, hst⟩ := List.mem_filterMap.1 (List.mem_filter.1 ht).1
  obtain ⟨ss, ss', hss⟩ := List.append_of_mem hs
  obtain ⟨k, -, rfl⟩ := Option.map_eq_some_iff.1 hst
  exact ⟨ss.flatMap Segment.text, Segment.position_eq_after hss⟩

/-- One declaration under the header `[[m]]` is a module. -/
theorem exists_isModule_heading : ∃ head, ∀ ts d last,
    IsDeclaration ts d → last.kind = .endOfInput →
    IsModule (heading.map (·.answer.value) ++ ts ++ [last]) (head, [d]) := by
  obtain ⟨head, hhead⟩ : ∃ head, IsHeader
      [⟨.leftBracket, ⟨0, 1, 1⟩, 1⟩, ⟨.leftBracket, ⟨1, 1, 2⟩, 1⟩, ⟨.identifier, ⟨2, 1, 3⟩, 1⟩,
        ⟨.rightBracket, ⟨3, 1, 4⟩, 1⟩, ⟨.rightBracket, ⟨4, 1, 5⟩, 1⟩] head :=
    ⟨_, .mk rfl rfl (.mk rfl .nil) rfl rfl⟩
  refine ⟨head, fun ts d last h hlast => ?_⟩
  have hrun : ∀ t ∈ [(⟨.terminator, ⟨5, 1, 6⟩, 1⟩ : Token)], t.kind = .terminator := by simp
  exact .mk (List.forall_mem_nil _) hhead hrun (.last h) hlast

/-- Tokens have one declaration at most. -/
theorem isDeclaration_unique (h : IsDeclaration ts d) (h' : IsDeclaration ts d') : d = d' := by
  obtain ⟨head, hmodule⟩ := exists_isModule_heading
  let last : Token := ⟨.endOfInput, .origin, 0⟩
  have := isModule_unique (hmodule ts d last h rfl) (hmodule ts d' last h' rfl)
  simpa using this

/-- A declaration that is put elsewhere is the one that is derived there. -/
theorem isDeclaration_rebase (hts : StandBehind a ts) (h : IsDeclaration ts d) (b : Position) :
    IsDeclaration (ts.map (.rebase a b)) (d.rebase a b) := by
  have hback := (hts.rebase b).standFor a
  rw [hts.rebase_rebase b] at hback
  obtain ⟨d', hd', -⟩ := (carried_declaration h).exists_tree _ hback
  obtain ⟨d'', hd'', rfl⟩ := (carried_declaration hd').exists_tree _ (hts.standFor b)
  obtain rfl := isDeclaration_unique h hd''
  exact hd'

theorem Segment.filterMap_diagnostic?_eq_nil_iff {ss : List Segment} :
    ss.filterMap diagnostic? = [] ↔ ∀ s ∈ ss, s.complaint = none := by
  simp [List.filterMap_eq_nil_iff, diagnostic?]

theorem tokens_headed (cs : List Char) : (Cursor.ofChars (headed cs)).tokens =
    heading.map (·.answer.value) ++ Segment.significant bodyStart cs ++
      [⟨.endOfInput, bodyStart.after cs, 0⟩] := by
  have hne : heading ++ bodyReadings cs ≠ [] := by simp [heading]
  rw [Cursor.ofReadings_eq, readings_headed, Cursor.tokens_ofReadings hne, List.map_append,
    bodyReadings, map_value_gather, List.append_assoc]
  rfl

theorem complaints_headed (cs : List Char) : Segment.complaints (headed cs) =
    (Segment.ofText bodyStart cs).filterMap Segment.diagnostic? := by
  have h := flatMap_complaints_gather TokenKind.isTrivia (Position.origin.after (headed cs))
    (Segment.ofText .origin (headed cs))
  rw [← Segment.readings, readings_headed, List.flatMap_append, bodyReadings,
    flatMap_complaints_gather] at h
  exact h.symm

theorem mem_lexSignificant {s : Source} {t : Token} (h : t ∈ (lexSignificant s 0).tokens) :
    t ∈ (lexRaw s 0).tokens ∧ t.kind.isTrivia = false := by
  rw [tokens_lexSignificant] at h
  rw [tokens_lexRaw]
  rcases List.mem_append.1 h with h | h
  · obtain ⟨hmem, hkind⟩ := List.mem_filter.1 h
    exact ⟨List.mem_append_left _ hmem, by simpa using hkind⟩
  · refine ⟨List.mem_append_right _ h, ?_⟩
    rw [List.mem_singleton.1 h]
    rfl

namespace Module

/-- An excerpt that is a declaration is parsed under a header as it was in its text. -/
theorem ofSource_excerpt {s : Source} {slice : List Char} (hs : s.chars = headed slice)
    (hsound : ∀ x ∈ Segment.ofText a slice, x.complaint = none)
    (h : IsDeclaration (Segment.significant a slice) d) (limit : Nat) (policy : TriviaPolicy) :
    (ofSource s limit policy).diagnostics = [] ∧
      (ofSource s limit policy).members = [d.rebase a bodyStart] := by
  have hlex : (lexRaw s 0).diagnostics = [] := by
    rw [diagnostics_lexRaw, Sink.sorted_reportAll_eq_nil_iff, hs, complaints_headed,
      Segment.filterMap_diagnostic?_eq_nil_iff, Segment.ofText_rebase a]
    intro x hx
    obtain ⟨y, hy, rfl⟩ := List.mem_map.1 hx
    exact hsound y hy
  have htokens : Segment.significant bodyStart slice =
      (Segment.significant a slice).map (.rebase a bodyStart) :=
    Segment.significant_map (fun _ => rfl) (Segment.token?_rebase a bodyStart)
      (Segment.ofText_rebase a bodyStart slice)
  obtain ⟨head, hmodule⟩ := exists_isModule_heading
  have hmodule := hmodule _ _ ⟨.endOfInput, bodyStart.after slice, 0⟩
    (isDeclaration_rebase (standBehind_significant a slice) h bodyStart) rfl
  rw [← htokens, ← tokens_headed, ← hs, Cursor.tokens_ofChars,
    ← tokens_lexSignificant s 0] at hmodule
  obtain ⟨hsilent, htree⟩ := ofSource_of_isModule hlex hmodule limit policy
  exact ⟨hsilent, (Prod.mk.inj htree).2⟩

/-- A text that is parsed without a diagnostic has no complaint of the lexer, and its tokens are in
the grammar. -/
theorem isModule_of_silent {s : Source} {limit : Nat} {policy : TriviaPolicy}
    (h : (ofSource s limit policy).diagnostics = []) :
    (∀ x ∈ Segment.ofText .origin s.chars, x.complaint = none) ∧
      IsModule (lexSignificant s 0).tokens
        ((ofSource s limit policy).header, (ofSource s limit policy).members) := by
  have hraised : (lastCursor s.chars).raised = [] :=
    ((lastCursor s.chars).diagnostics_eq_nil_iff limit).1 h
  have hcomplaints : Segment.complaints s.chars = [] := by
    rw [← lexical_raised_lastCursor, hraised]
    rfl
  refine ⟨Segment.filterMap_diagnostic?_eq_nil_iff.1 hcomplaints, ?_⟩
  obtain ⟨-, hyield⟩ := yieldsAt_module (Cursor.sound_ofChars hcomplaints).1
  obtain ⟨ts, hpass, hmodule⟩ := hyield hraised
  have htokens := (Cursor.tokens_ofChars s.chars).symm.trans hpass.tokens
  have hlast : (lastCursor s.chars).tokens = [endOfInput s.chars] := by
    rw [Cursor.tokens, ahead_lastCursor, current_lastCursor]
    rfl
  rw [tokens_lexSignificant, htokens]
  show IsModule (ts ++ (lastCursor s.chars).tokens) _
  rw [hlast]
  exact hmodule _ rfl

/-- In a text that is parsed without a diagnostic, the text of a declaration is parsed by itself. -/
theorem ofSource_spanText {s : Source} {limit : Nat} {policy : TriviaPolicy}
    (h : (ofSource s limit policy).diagnostics = []) (hd : d ∈ (ofSource s limit policy).members)
    (name : Option String) (limit' : Nat) (policy' : TriviaPolicy) :
    (ofSource ⟨"[[m]]\n" ++ s.spanText d.span, name⟩ limit' policy').diagnostics = [] ∧
      (ofSource ⟨"[[m]]\n" ++ s.spanText d.span, name⟩ limit' policy').members =
        [d.rebase d.name.position bodyStart] := by
  obtain ⟨hsound, hmodule⟩ := isModule_of_silent h
  obtain ⟨before, ts, mark, behind, htokens, hderived, -⟩ := hmodule.exists_append d hd
  rw [tokens_lexSignificant] at htokens
  have hsignificant : Segment.significant .origin s.chars =
      before ++ ts ++ (mark :: behind).dropLast := by
    have hsplit := congrArg List.dropLast htokens
    rwa [List.dropLast_concat, List.dropLast_append_of_ne_nil (List.cons_ne_nil _ _)] at hsplit
  have hne : ts ≠ [] := by
    rintro rfl
    cases hderived.head?_eq
  obtain ⟨front, slice, rest, hchars, hspan, hhead, hslice, hslices⟩ :=
    Segment.exists_excerpt hsignificant hne hsound
  have hname := hhead d.name hderived.head?_eq
  have htext : s.spanText d.span = String.ofList slice := by
    rw [hderived.span_eq, hspan]
    exact Source.spanText_eq hchars
  rw [hname, htext]
  refine ofSource_excerpt ?_ hslices (hslice.symm ▸ hderived) limit' policy'
  simp [Source.chars, headed, String.toList_append]

/-- In a text that is parsed without a diagnostic, every constituent spans the tokens that it is
derived from, and trivia stands in the span only between the first of these and the last one. -/
theorem exists_tokens_of_has {s : Source} {limit : Nat} {policy : TriviaPolicy}
    (h : (ofSource s limit policy).diagnostics = []) {x : Constituent}
    (hx : (ofSource s limit policy).Has x) : ∃ ts first last,
      ts <:+: (lexSignificant s 0).tokens ∧ IsConstituent ts x ∧ ts.head? = some first ∧
      ts.getLast? = some last ∧ x.span = ⟨first.start, last.stop⟩ ∧
      ∀ t ∈ (lexRaw s 0).tokens, t.kind.isTrivia → t.stop ≤ x.span.start ∨ x.span.stop ≤ t.start ∨
        first.stop ≤ t.start ∧ t.stop ≤ last.start := by
  obtain ⟨-, hmodule⟩ := isModule_of_silent h
  obtain ⟨ts, hts, hx⟩ := hmodule.exists_infix hx
  obtain ⟨first, hfirst⟩ := Option.isSome_iff_exists.1 (List.isSome_head?.2 hx.ne_nil)
  have hlast := List.getLast?_eq_some_getLast hx.ne_nil
  have hspan := hx.span_eq.trans (Span.ofTokens_eq hfirst hlast)
  refine ⟨ts, first, _, hts, hx, hfirst, hlast, hspan, fun t ht htrivia => ?_⟩
  have hordered := Segment.ordered_tokens s.chars
  rw [← tokens_lexRaw s 0] at hordered
  have hapart {u : Token} (hu : u ∈ ts) : t.stop ≤ u.start ∨ u.stop ≤ t.start := by
    obtain ⟨hraw, hkind⟩ := mem_lexSignificant (hts.subset hu)
    refine hordered.apart ht hraw ?_
    rintro rfl
    exact absurd (htrivia.symm.trans hkind) (by decide)
  rw [hspan]
  rcases hapart (List.mem_of_mem_head? hfirst) with hbefore | hafter
  · exact .inl hbefore
  rcases hapart (List.mem_of_getLast? hlast) with hbefore | hbehind
  · exact .inr (.inr ⟨hafter, hbefore⟩)
  · exact .inr (.inl hbehind)

/-- In a text that is parsed without a diagnostic, a terminator or the end of input stands behind
every declaration. -/
theorem exists_mark_of_mem {s : Source} {limit : Nat} {policy : TriviaPolicy}
    (h : (ofSource s limit policy).diagnostics = []) (hd : d ∈ (ofSource s limit policy).members) :
    ∃ before ts mark behind, (lexSignificant s 0).tokens = before ++ ts ++ mark :: behind ∧
      IsDeclaration ts d ∧ (mark.kind = .terminator ∨ mark.kind = .endOfInput) ∧
      d.span.stop ≤ mark.start := by
  obtain ⟨-, hmodule⟩ := isModule_of_silent h
  obtain ⟨before, ts, mark, behind, htokens, hd, hmark⟩ := hmodule.exists_append d hd
  refine ⟨before, ts, mark, behind, htokens, hd, hmark, ?_⟩
  have hordered := ordered_tokens s.chars
  rw [← tokens_lexSignificant s 0, htokens] at hordered
  obtain ⟨us, u, rfl, -⟩ := hd.endsType
  rw [hd.span_eq, Span.ofTokens_eq hd.head?_eq List.getLast?_concat]
  exact (List.pairwise_append.1 hordered).2.2 u (by simp) mark List.mem_cons_self

/-- **Exact spans and excerpts.** In a text that is parsed without a diagnostic, every constituent
is derived from consecutive significant tokens, and its span begins with the first of them and ends
with the last one. What trivia is in the span stands between those two. What stands behind a
declaration is a terminator or the end of input, outside of its span. The text of the span, alone
under a header, is parsed without a diagnostic to the same declaration, moved to where it stands
now. -/
theorem reparses_members (s : Source) (limit : Nat) (policy : TriviaPolicy)
    (h : (ofSource s limit policy).diagnostics = []) :
    (∀ x, (ofSource s limit policy).Has x → ∃ ts first last,
      ts <:+: (lexSignificant s 0).tokens ∧ IsConstituent ts x ∧ ts.head? = some first ∧
      ts.getLast? = some last ∧ x.span = ⟨first.start, last.stop⟩ ∧
      ∀ t ∈ (lexRaw s 0).tokens, t.kind.isTrivia → t.stop ≤ x.span.start ∨ x.span.stop ≤ t.start ∨
        first.stop ≤ t.start ∧ t.stop ≤ last.start) ∧
    ∀ d ∈ (ofSource s limit policy).members,
      (∃ before ts mark behind, (lexSignificant s 0).tokens = before ++ ts ++ mark :: behind ∧
        IsDeclaration ts d ∧ (mark.kind = .terminator ∨ mark.kind = .endOfInput) ∧
        d.span.stop ≤ mark.start) ∧
      ∀ name limit' policy',
        (ofSource ⟨"[[m]]\n" ++ s.spanText d.span, name⟩ limit' policy').diagnostics = [] ∧
        (ofSource ⟨"[[m]]\n" ++ s.spanText d.span, name⟩ limit' policy').members =
          [d.rebase d.name.position bodyStart] :=
  ⟨fun _ hx => exists_tokens_of_has h hx,
    fun _ hd => ⟨exists_mark_of_mem h hd, ofSource_spanText h hd⟩⟩

/-- A record over two lines with a comment in it, and an alias behind a terminator. -/
theorem reparses_members_record :
    let s : Source := ⟨"[[m]]\n A[T] := %\x7b // r\n  f: own B[T]? = 1, \x7d ; C := D // e", none⟩
    let m := ofSource s 0 .discard
    m.diagnostics = [] ∧ m.members.map Declaration.span = [⟨7, 44⟩, ⟨47, 53⟩] ∧
      ∀ d ∈ m.members, (ofSource ⟨"[[m]]\n" ++ s.spanText d.span, none⟩ 0 .discard).members =
        [d.rebase d.name.position bodyStart] := by
  intro s m
  have hsilent : m.diagnostics = [] := by decide +kernel
  have hspans : m.members.map Declaration.span = [⟨7, 44⟩, ⟨47, 53⟩] := by decide +kernel
  exact ⟨hsilent, hspans, fun d hd =>
    (((reparses_members s 0 .discard hsilent).2 d hd).2 none 0 .discard).2⟩

end Module

end DeclFront
