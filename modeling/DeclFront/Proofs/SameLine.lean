import DeclFront.Proofs.Counterparts
import DeclFront.Proofs.Excerpts
import DeclFront.Proofs.Limits

/-!
# Two declarations on a line

**Theorem (`Module.resumes_on_line`).** Let two texts be parsed under a header to one declaration
each, without a diagnostic. In a text whose tokens are those of a header, a terminator, the first
declaration, a gap and the second declaration, both declarations are found, up to positions, and the
parser complains once: about the missing terminator where the gap is empty, else about the first
token of the gap, unless that is invalid and has been complained about before.

A gap (`IsGap`) holds no brackets, ends no line, does not carry the first declaration on, and
nothing in it begins a declaration. So the first declaration is run over as it is alone, skipping
takes the gap token by token and stops at the name behind it, and the second declaration is run over
as it is alone. The one complaint is made where the first declaration ends
(`runsWith_closeDeclaration`).
-/

namespace DeclFront

open DeclFront.Parser DeclFront.Grammar

variable {n : Nat} {ts us g rest : List Token} {t u last : Token} {d e : Declaration}

/-! ## What stands between -/

/-- Tokens that are skipped one by one behind a mistake: they open and close no group, end no line,
and no declaration begins among them. -/
structure Skippable (g : List Token) : Prop where
  flat : ∀ t ∈ g, KindSet.opener.contains t.kind = false ∧ KindSet.closer.contains t.kind = false ∧
    t.kind ≠ .terminator
  unnamed : g.IsChain fun t u => t.kind = .identifier → u.kind ≠ .colonEqual

/-- Tokens that may stand between two declarations of a line: they are skipped one by one, and do
not carry the first declaration on. -/
structure IsGap (g : List Token) : Prop extends Skippable g where
  front : ∀ t ∈ g.head?, t.kind ∉ [.dot, .colonColon, .question]

/-- A declaration begins: there is a name, and parameters or a type behind it. -/
def Opens (ts : List Token) : Prop := ∃ t u vs, ts = t :: u :: vs ∧ t.kind = .identifier ∧
  (u.kind = .colonEqual ∨ u.kind = .leftBracket)

theorem Grammar.IsDeclaration.opens (h : IsDeclaration ts d) (vs : List Token) :
    Opens (ts ++ vs) := by
  cases h with
  | mk hname hgenerics hdefine =>
    cases hgenerics with
    | absent => exact ⟨_, _, _, rfl, hname, .inl hdefine⟩
    | present h =>
      obtain ⟨⟨hbracket⟩⟩ := h
      exact ⟨_, _, _, rfl, hname, .inr hbracket⟩

theorem Opens.stops (h : Opens rest) {ks : List TokenKind} (hks : .identifier ∉ ks) :
    Stops ks rest := by
  obtain ⟨t, u, vs, rfl, ht, -⟩ := h
  exact .cons (ht ▸ hks)

theorem Skippable.tail (hg : Skippable (t :: g)) : Skippable g :=
  ⟨fun u hu => hg.flat u (List.mem_cons_of_mem t hu), hg.unnamed.of_cons⟩

theorem Skippable.kind_ne_leftBracket (hg : Skippable g) (ht : t ∈ g) : t.kind ≠ .leftBracket := by
  intro h
  have hopener := (hg.flat t ht).1
  rw [h] at hopener
  cases hopener

theorem IsGap.stops (hg : IsGap g) (hrest : Opens rest) : Stops typeMore (g ++ rest) := by
  cases g with
  | nil => exact hrest.stops (by decide)
  | cons t g =>
    have hfront := hg.front t rfl
    have hbracket := hg.kind_ne_leftBracket List.mem_cons_self
    exact .cons (by simp_all [typeMore])

/-! ## Skipping up to the next declaration -/

theorem runs_namesDeclaration : Runs n namesDeclaration [] (t :: u :: rest)
    (u.kind == .colonEqual || u.kind == .leftBracket) :=
  .peekKind rfl .pure

theorem runs_namesDeclaration_opens (hrest : Opens rest) :
    Runs n namesDeclaration [] rest true := by
  obtain ⟨t, u, vs, rfl, -, hu⟩ := hrest
  have hnames : (u.kind == .colonEqual || u.kind == .leftBracket) = true := by
    rcases hu with hu | hu <;> simp [hu]
  rw [← hnames]
  exact runs_namesDeclaration

/-- Behind a name that is skipped stands nothing that makes it begin a declaration. -/
theorem runs_namesDeclaration_skippable (hg : Skippable (t :: g)) (hrest : Opens rest)
    (ht : t.kind = .identifier) : Runs n namesDeclaration [] (t :: (g ++ rest)) false := by
  cases g with
  | nil =>
    obtain ⟨u, v, vs, rfl, hu, -⟩ := hrest
    have hnames : (u.kind == .colonEqual || u.kind == .leftBracket) = false := by simp [hu]
    rw [← hnames]
    exact runs_namesDeclaration
  | cons u g =>
    have hdefine : u.kind ≠ .colonEqual := (List.isChain_cons_cons.1 hg.unnamed).1 ht
    have hbracket : u.kind ≠ .leftBracket := hg.kind_ne_leftBracket (by simp)
    have hnames : (u.kind == .colonEqual || u.kind == .leftBracket) = false := by
      simp [hdefine, hbracket]
    rw [← hnames]
    exact runs_namesDeclaration

theorem runs_atDeclarationStop_opens (hrest : Opens rest) :
    Runs n atDeclarationStop [] rest true := by
  have hnames := runs_namesDeclaration_opens (n := n) hrest
  obtain ⟨t, u, vs, rfl, ht, -⟩ := hrest
  refine .currentKind rfl ?_
  rw [ht]
  exact hnames

theorem runs_atDeclarationStop_skippable (hg : Skippable (t :: g)) (hrest : Opens rest) :
    Runs n atDeclarationStop [] (t :: (g ++ rest)) false := by
  obtain ⟨hopener, -, hterminator⟩ := hg.flat t List.mem_cons_self
  refine .currentKind rfl ?_
  split
  · contradiction
  · exact runs_namesDeclaration_skippable hg hrest ‹_›
  · have hbody : KindSet.bodyStart.contains t.kind = false :=
      (Bool.or_eq_false_iff.1 hopener).1
    rw [hbody]
    exact .pure

/-- A round outside all groups asks whether skipping stops here. -/
theorem runs_skipUntilRound {stop : Parser Bool} {k : Nat} {r : ForInStep (Nat × Nat)}
    (htokens : ts ++ rest = t :: us) (hend : t.kind ≠ .endOfInput)
    (h : Runs n (do
      if ← stop then return ForInStep.done (0, k)
      else
        let _ ← advance
        return .yield (depthAfter 0 t.kind, k + 1)) ts rest r) :
    Runs n (skipUntilRound stop (0, k)) ts rest r := by
  refine .currentKind htokens ?_
  rw [if_neg (by simpa using hend)]
  exact h

/-- What may be skipped is skipped, up to the next declaration. -/
theorem runs_skipUntil (hg : Skippable g) (hend : ∀ t ∈ g, t.kind ≠ .endOfInput)
    (hrest : Opens rest) (k : Nat) :
    Runs n (loop (skipUntilRound atDeclarationStop) (0, k)) g rest (0, k + g.length) := by
  induction g generalizing n k with
  | nil =>
    have hround : Runs n (skipUntilRound atDeclarationStop (0, k)) [] rest (.done (0, k)) := by
      have hstop := runs_atDeclarationStop_opens (n := n) hrest
      obtain ⟨t, u, vs, rfl, ht, -⟩ := hrest
      exact runs_skipUntilRound rfl (by simp [ht]) (.bindNil hstop .pure)
    exact RunsWith.loop_done hround
  | cons t g ih =>
    have hround : Runs n (skipUntilRound atDeclarationStop (0, k)) [t] (g ++ rest)
        (.yield (0, k + 1)) := by
      have hstop := runs_atDeclarationStop_skippable (n := n) hg hrest
      have hend := hend t List.mem_cons_self
      have hdepth : depthAfter 0 t.kind = 0 := by
        obtain ⟨hopener, hcloser, -⟩ := hg.flat t List.mem_cons_self
        simp [depthAfter, hopener, hcloser]
      refine runs_skipUntilRound rfl hend (.bindFree hstop ?_)
      rw [hdepth]
      exact .bindNil (.advance hend) .pure
    have hloop := ih hg.tail (fun u hu => hend u (List.mem_cons_of_mem t hu)) (k + 1) (n := t.stop)
    rw [Nat.add_assoc, Nat.add_comm 1] at hloop
    exact RunsWith.loop_yield hround (List.cons_ne_nil _ _) hloop

theorem runs_recoverDeclaration (hg : Skippable g) (hend : ∀ t ∈ g, t.kind ≠ .endOfInput)
    (hrest : Opens rest) : Runs n recoverDeclaration g rest () := by
  have hskip : Runs n (skipUntil atDeclarationStop) g rest (0 + g.length) :=
    .bindNil (runs_skipUntil hg hend hrest 0) .pure
  exact .bindNil hskip (.bindNil (.eatNone (hrest.stops (by decide))) .pure)

/-! ## The complaint -/

/-- The complaint where a declaration with the name `name` follows another one behind the tokens
`g`, if there is one. -/
def adjoinComplaint : List Token → Token → Option Diagnostic
  | [], name => some (Cursor.complaint .missingToken (.singleton .terminator) name)
  | t :: _, _ =>
    if t.kind = .invalid then none
    else some (Cursor.complaint .unexpectedToken (.ofList [.terminator]) t)

theorem runsWith_missing (k : TokenKind) :
    RunsWith [Cursor.complaint .missingToken (.singleton k) t] n (missing k) [] (t :: rest) () := by
  intro c _ ht hn
  obtain rfl : c.current = t := (List.cons.inj ht).1
  exact ⟨rfl, .report (.refl _), by simpa using ht, by simpa [lastStop] using hn⟩

/-- An invalid token is not complained about again. -/
theorem runsWith_unexpected (ks : List TokenKind) :
    RunsWith (if t.kind = .invalid then []
      else [Cursor.complaint .unexpectedToken (.ofList ks) t])
      n (unexpected ks) [] (t :: rest) () := by
  intro c _ ht hn
  obtain rfl : c.current = t := (List.cons.inj ht).1
  by_cases hinvalid : c.current.kind = .invalid
  · rw [if_pos hinvalid, unexpected_of_invalid hinvalid]
    exact ⟨rfl, .refl c, ht, hn⟩
  · rw [if_neg hinvalid, unexpected_of_valid hinvalid]
    exact ⟨rfl, .report (.refl _), by simpa using ht, by simpa [lastStop] using hn⟩

theorem runsWith_adjoined (hg : Skippable (u :: g)) (hend : ∀ t ∈ u :: g, t.kind ≠ .endOfInput)
    (hrest : Opens (t :: rest)) :
    RunsWith (adjoinComplaint (u :: g) t).toList n (do
      unexpected [.terminator]
      recoverDeclaration) (u :: g) (t :: rest) () := by
  have hcomplaint : (adjoinComplaint (u :: g) t).toList = if u.kind = .invalid then []
      else [Cursor.complaint .unexpectedToken (.ofList [.terminator]) u] := by
    by_cases hinvalid : u.kind = .invalid <;> simp [adjoinComplaint, hinvalid]
  rw [hcomplaint, ← List.nil_append (u :: g)]
  exact Runs.withBind (runsWith_unexpected [.terminator]) (runs_recoverDeclaration hg hend hrest)

/-- The end of a declaration that is followed by another one on its line. -/
theorem runsWith_closeDeclaration (hg : IsGap g) (hend : ∀ t ∈ g, t.kind ≠ .endOfInput)
    (hrest : Opens (t :: rest)) :
    RunsWith (adjoinComplaint g t).toList n closeDeclaration g (t :: rest) () := by
  cases g with
  | nil =>
    have hnames := runs_namesDeclaration_opens (n := n) hrest
    obtain ⟨t, u, vs, heq, ht, -⟩ := hrest
    obtain ⟨rfl, rfl⟩ := List.cons.inj heq
    refine RunsWith.currentKind rfl ?_
    rw [ht, ← List.append_nil ([] : List Token)]
    exact Runs.bindWith hnames (runsWith_missing .terminator)
  | cons u g =>
    have hrecover := runsWith_adjoined (n := n) hg.toSkippable hend hrest
    refine RunsWith.currentKind rfl ?_
    split
    · exact absurd ‹_› (hg.flat u List.mem_cons_self).2.2
    · exact absurd ‹_› (hend u List.mem_cons_self)
    · rw [← List.nil_append (u :: g)]
      exact Runs.bindWith (runs_namesDeclaration_skippable hg.toSkippable hrest ‹_›) hrecover
    · exact hrecover

/-! ## Both declarations -/

theorem furtherDeclaration_of_name {c : Cursor} (h : c.current.kind = .identifier) :
    furtherDeclaration c = (do
      let d ← declaration
      skipTerminators
      return ⟨some d, true⟩ : Parser (Round Declaration)) c := by
  simp [furtherDeclaration, h]

/-- A declaration that is followed by another one on its line. -/
theorem runsWith_furtherDeclaration (h : IsDeclaration us d) (hg : IsGap g)
    (hend : ∀ t ∈ g, t.kind ≠ .endOfInput) (hrest : Opens (t :: rest)) :
    RunsWith (adjoinComplaint g t).toList n furtherDeclaration (us ++ g) (t :: rest)
      ⟨some d, true⟩ := by
  have hhead : Runs n declarationHead us (g ++ t :: rest) (d, true) :=
    runs_declarationHead h (hg.stops hrest)
  have hdeclaration : RunsWith (adjoinComplaint g t).toList n declaration (us ++ g) (t :: rest) d :=
    hhead.bindWith (Runs.withBindNil (runsWith_closeDeclaration hg hend hrest) .pure)
  have hskip (k : Nat) : Runs k (do
      skipTerminators
      return (⟨some d, true⟩ : Round Declaration)) [] (t :: rest) ⟨some d, true⟩ :=
    .bindNil (runs_skipTerminators (List.forall_mem_nil _) (hrest.stops (by decide))) .pure
  intro c hc ht hn
  have hname : c.current.kind = .identifier := by
    cases h with
    | mk hname => exact (List.cons.inj ht).1 ▸ hname
  rw [furtherDeclaration_of_name hname]
  exact Runs.withBindNil hdeclaration (hskip _) c hc ht hn

theorem Grammar.IsDeclaration.exists_cons (h : IsDeclaration us d) : ∃ vs, us = d.name :: vs := by
  cases h
  exact ⟨_, rfl⟩

/-- **Two declarations on a line are both found**, and one complaint at most is made. -/
theorem runsWith_declarations (hd : IsDeclaration ts d) (he : IsDeclaration us e) (hg : IsGap g)
    (hend : ∀ t ∈ g, t.kind ≠ .endOfInput) (hlast : last.kind = .endOfInput) :
    RunsWith (adjoinComplaint g e.name).toList n (collect furtherDeclaration) (ts ++ g ++ us) [last]
      [d, e] := by
  have hopens := he.opens [last]
  have hrest (k : Nat) : Runs k (loop (collectRound furtherDeclaration) [d]) us [last] [e, d] :=
    runs_declarations (.last he) hlast
  obtain ⟨vs, rfl⟩ := he.exists_cons
  have hne : ts ++ g ≠ [] := by
    cases hd
    simp
  refine RunsWith.collect ?_
  rw [← List.append_nil (adjoinComplaint g e.name).toList]
  exact RunsWith.loop_more (runsWith_furtherDeclaration hd hg hend hopens) hne (hrest _)

theorem runsWith_module {head : List Token} {mark : Token} {header : ModuleHeader}
    (hhead : IsHeader head header) (hmark : mark.kind = .terminator) (hd : IsDeclaration ts d)
    (he : IsDeclaration us e) (hg : IsGap g) (hend : ∀ t ∈ g, t.kind ≠ .endOfInput)
    (hlast : last.kind = .endOfInput) :
    RunsWith (adjoinComplaint g e.name).toList n module (head ++ ([mark] ++ (ts ++ g ++ us))) [last]
      (header, [d, e]) := by
  have hbefore (us vs : List Token) : Runs n skipTerminators [] (head ++ us ++ vs) () := by
    refine runs_skipTerminators (List.forall_mem_nil _) ?_
    cases hhead with
    | mk hopen => exact .cons (by simp [hopen])
  have hskip (k : Nat) : Runs k skipTerminators [mark] (ts ++ g ++ us ++ [last]) () := by
    refine runs_skipTerminators (List.forall_mem_singleton.2 hmark) ?_
    rw [List.append_assoc, List.append_assoc]
    exact (hd.opens _).stops (by decide)
  rw [← List.nil_append (head ++ _)]
  refine Runs.bindWith (hbefore _ _) (Runs.bindWith (runs_header hhead) ?_)
  refine Runs.bindWith (hskip _) ?_
  exact Runs.withBindNil (runsWith_declarations hd he hg hend hlast) .pure

/-! ## A declaration alone -/

/-- Where no terminator stands behind it, one declaration has all the tokens. -/
theorem isDeclaration_of_declarations (h : Declarations ts [d])
    (hend : ∀ t ∈ ts.getLast?, t.kind ≠ .terminator) : IsDeclaration ts d := by
  cases h with
  | last h => exact h
  | @cons us run _ _ _ h hrun hne hrest =>
    cases hrest with
    | nil =>
      refine absurd (hrun _ (List.getLast_mem hne)) (hend _ ?_)
      simp [List.getLast?_append, List.getLast?_eq_some_getLast hne]

/-- The header `[[m]]` and the line feed behind it are read in one way only. -/
theorem behind_heading {before hs us : List Token} {header : ModuleHeader}
    (hbefore : ∀ t ∈ before, t.kind = .terminator) (hheader : IsHeader hs header)
    (h : heading.map (·.answer.value) ++ ts = before ++ hs ++ us) :
    ∃ mark, mark.kind = .terminator ∧ us = mark :: ts := by
  cases before with
  | cons b bs =>
    obtain ⟨rfl, -⟩ := List.cons.inj h
    cases hbefore _ List.mem_cons_self
  | nil =>
    cases hheader with
    | mk _ _ hpath => cases hpath with
      | mk _ hsegments =>
        simp only [heading, List.map_cons, List.map_nil, List.nil_append, List.cons_append,
          List.append_assoc, List.cons.injEq] at h
        obtain ⟨-, -, -, h⟩ := h
        cases hsegments with
        | nil =>
          obtain ⟨-, h⟩ := List.cons.inj h
          obtain ⟨-, h⟩ := List.cons.inj h
          exact ⟨_, rfl, h.symm⟩
        | cons hsep =>
          obtain ⟨rfl, -⟩ := List.cons.inj h
          rcases hsep with hsep | hsep <;> cases hsep

theorem isDeclaration_of_isModule {header : ModuleHeader}
    (h : IsModule (heading.map (·.answer.value) ++ (ts ++ [last])) (header, [d]))
    (hfirst : ∀ t ∈ ts.head?, t.kind ≠ .terminator)
    (hend : ∀ t ∈ ts.getLast?, t.kind ≠ .terminator) : IsDeclaration ts d := by
  generalize htokens : heading.map (·.answer.value) ++ (ts ++ [last]) = all at h
  cases h with
  | @mk before hs run us last' _ _ hbefore hheader hrun hds hlast =>
    rw [List.append_assoc _ run, List.append_assoc _ (run ++ us)] at htokens
    obtain ⟨mark, hmark, hbehind⟩ := behind_heading hbefore hheader htokens
    obtain ⟨hbehind, -⟩ := List.append_inj' (hbehind.trans (List.cons_append ..).symm) rfl
    cases run with
    | nil =>
      -- The line feed does not begin the declaration.
      have hstops : Stops [.terminator] (us ++ [last']) := stops_terminator hds hlast
      obtain ⟨t, vs, hvs, ht⟩ := hstops
      rw [← List.nil_append us, hbehind] at hvs
      obtain ⟨rfl, -⟩ := List.cons.inj hvs
      exact absurd hmark (by simpa using ht)
    | cons r run =>
      obtain ⟨-, rfl⟩ := List.cons.inj hbehind
      cases run with
      | nil => exact isDeclaration_of_declarations hds hend
      | cons r' run => exact absurd (hrun r' (by simp)) (hfirst r' rfl)

namespace Module

/-- Under the header `[[m]]` the text `w` is parsed to the declaration `d` and without a diagnostic.
Its tokens are `ts`, and no terminator stands around them. -/
structure StandsAlone (w : String) (ts : List Token) (d : Declaration) : Prop where
  silent : (ofSource ⟨"[[m]]\n" ++ w, none⟩ 0 .discard).diagnostics = []
  members : (ofSource ⟨"[[m]]\n" ++ w, none⟩ 0 .discard).members = [d]
  tokens : ∃ last, (lexSignificant ⟨"[[m]]\n" ++ w, none⟩ 0).tokens =
    heading.map (·.answer.value) ++ (ts ++ [last])
  first : ∀ t ∈ ts.head?, t.kind ≠ .terminator
  last : ∀ t ∈ ts.getLast?, t.kind ≠ .terminator

theorem StandsAlone.isDeclaration {w : String} (h : StandsAlone w ts d) : IsDeclaration ts d := by
  obtain ⟨last, htokens⟩ := h.tokens
  have hmodule := (isModule_of_silent h.silent).2
  rw [htokens, h.members] at hmodule
  exact isDeclaration_of_isModule hmodule h.first h.last

/-- A declaration that stands alone has a counterpart wherever tokens of the same kinds stand. -/
theorem StandsAlone.exists_counterpart {w : String} {all before behind : List Token} {next : Token}
    (h : StandsAlone w ts d) (hall : Spaced all) (hus : all = before ++ us ++ next :: behind)
    (hkinds : us.map (·.kind) = ts.map (·.kind)) :
    ∃ e, IsDeclaration us e ∧ e.ranked us = d.ranked ts := by
  obtain ⟨last, htokens⟩ := h.tokens
  have hspaced := Cursor.spaced_ofChars (Source.chars ⟨"[[m]]\n" ++ w, none⟩)
  rw [Cursor.tokens_ofChars, ← tokens_lexSignificant _ 0, htokens, ← List.append_assoc] at hspaced
  exact h.isDeclaration.exists_counterpart hspaced.excerpt (hus ▸ hall).excerpt rfl rfl hkinds

end Module

/-! ## Both declarations of a text -/

namespace Cursor

variable {c d : Cursor} {x : Diagnostic}

/-- Moves without a complaint leave what the parser complained about alone. -/
theorem Raises.parsed_nil (h : c.Raises [] d) (hc : c.Among ts) : d.parsed = c.parsed := by
  refine (h.keeps (P := fun e => e.Among ts ∧ e.parsed = c.parsed) (fun hs he => ?_) ⟨hc, rfl⟩).2
  cases hs with
  | peek => exact ⟨he.1.peek, he.1.parsed_peek.trans he.2⟩
  | advance => exact ⟨he.1.advance, he.1.parsed_advance.trans he.2⟩

/-- Where nothing was complained about before, the one complaint is kept. -/
theorem Raises.parsed_singleton (h : c.Raises [x] d) (hc : c.Among ts)
    (hnone : c.complainedAt = none) (hx : x.isParsing = true)
    (hmem : ∃ t ∈ ts, t.start = x.offset) : d.parsed = x :: c.parsed := by
  generalize hxs : [x] = xs at h
  induction h with
  | refl => cases hxs
  | glide hs _ ih =>
    cases hs with
    | peek => rw [ih hc.peek (by simpa using hnone) hxs, hc.parsed_peek]
    | advance => rw [ih hc.advance (by simpa using hnone) hxs, hc.parsed_advance]
  | @report _ _ c d hrest =>
    obtain ⟨rfl, rfl⟩ := List.cons.inj hxs
    have hraised : (c.report x).raised = x :: c.raised := by
      rcases raised_report c x with hr | ⟨hat, -⟩
      · exact hr
      · rw [hnone] at hat
        cases hat
    rw [hrest.parsed_nil (hc.report hmem), parsed, hraised, List.filter_cons_of_pos hx, parsed]

end Cursor

namespace Module

theorem complainedAt_ofChars (cs : List Char) : (Cursor.ofChars cs).complainedAt = none := by
  rw [Cursor.ofReadings_eq]
  cases Segment.readings TokenKind.isTrivia cs <;> rfl

theorem anchored_adjoinComplaint {x : Diagnostic} (h : adjoinComplaint g t = some x) :
    x.isParsing = true ∧ ∃ u ∈ g ++ [t], u.start = x.offset := by
  cases g with
  | nil =>
    obtain rfl := Option.some.inj h
    exact ⟨rfl, t, by simp, rfl⟩
  | cons u g =>
    rw [adjoinComplaint] at h
    split at h
    · cases h
    · obtain rfl := Option.some.inj h
      exact ⟨rfl, u, by simp, rfl⟩

/-- The complaints of the parser, where it makes at most one. -/
theorem parsed_lastCursor {cs : List Char} {o : Option Diagnostic}
    (h : (Cursor.ofChars cs).Raises o.toList (lastCursor cs))
    (ho : ∀ x, o = some x →
      x.isParsing = true ∧ ∃ t ∈ (Cursor.ofChars cs).tokens, t.start = x.offset) :
    (lastCursor cs).parsed = o.toList := by
  cases o with
  | none => exact (h.parsed_nil (Cursor.among_ofChars cs)).trans (Cursor.parsed_ofChars cs)
  | some x =>
    obtain ⟨hx, hmem⟩ := ho x rfl
    have hparsed := h.parsed_singleton (Cursor.among_ofChars cs) (complainedAt_ofChars cs) hx hmem
    rw [hparsed, Cursor.parsed_ofChars]
    rfl

theorem exists_isHeader {head : List Token} (h : head.map (·.kind) =
    [.leftBracket, .leftBracket, .identifier, .rightBracket, .rightBracket]) :
    ∃ header, IsHeader head header := by
  obtain ⟨o₁, _, rfl, ho₁, h⟩ := List.map_eq_cons_iff.1 h
  obtain ⟨o₂, _, rfl, ho₂, h⟩ := List.map_eq_cons_iff.1 h
  obtain ⟨name, _, rfl, hname, h⟩ := List.map_eq_cons_iff.1 h
  obtain ⟨c₁, _, rfl, hc₁, h⟩ := List.map_eq_cons_iff.1 h
  obtain ⟨c₂, _, rfl, hc₂, h⟩ := List.map_eq_cons_iff.1 h
  obtain rfl := List.map_eq_nil_iff.1 h
  exact ⟨_, .mk ho₁ ho₂ (.mk hname .nil) hc₁ hc₂⟩

/-- A report comes from the lexer or from the parser. -/
theorem length_reports (s : Source) : (reports s.chars).length =
    (lexRaw s 0).diagnostics.length + (lastCursor s.chars).parsed.length := by
  have hphase : (fun x => !Cursor.isLexical x) = Diagnostic.isParsing := by
    funext x
    cases h : x.phase <;> simp [Cursor.isLexical, Diagnostic.isParsing, h]
  rw [List.length_eq_length_filter_add Cursor.isLexical, hphase, reports, lexical_raised_lastCursor,
    diagnostics_lexRaw_zero, List.filter_reverse, List.length_reverse, Cursor.parsed]

/-- Under a limit that leaves room for one complaint of the parser, and where there are not more,
all are shown. -/
theorem filter_isParsing_of_lt {s : Source} {limit : Nat} (policy : TriviaPolicy)
    (hparsed : (lastCursor s.chars).parsed.length ≤ 1)
    (hlimit : limit = 0 ∨ (lexRaw s 0).diagnostics.length < limit) :
    (ofSource s limit policy).diagnostics.filter Diagnostic.isParsing =
      (lastCursor s.chars).parsed.reverse := by
  have hroom : limit = 0 ∨ (reports s.chars).length ≤ limit := by
    rw [length_reports]
    omega
  have hsame : (ofChars s.chars limit policy).diagnostics = (lastCursor s.chars).diagnostics 0 :=
    (diagnostics_of_le policy hroom).trans (diagnostics_of_le policy (.inl rfl)).symm
  rw [← filter_isParsing_diagnostics, ← hsame]
  rfl

section

variable {s : Source} {head us₁ us₂ g : List Token} {mark last : Token} {e₁ e₂ : Declaration}

/-- Both declarations are members, and the complaint is about a token of the gap or about the second
name. -/
theorem members_adjoined {header : ModuleHeader}
    (htokens : (Cursor.ofChars s.chars).tokens = head ++ mark :: (us₁ ++ g ++ us₂) ++ [last])
    (hhead : IsHeader head header) (hmark : mark.kind = .terminator) (he₁ : IsDeclaration us₁ e₁)
    (hg : IsGap g) (he₂ : IsDeclaration us₂ e₂) :
    (∀ limit policy, (ofSource s limit policy).members = [e₁, e₂]) ∧
      (lastCursor s.chars).parsed = (adjoinComplaint g e₂.name).toList := by
  have hspaced := Cursor.spaced_ofChars s.chars
  have hlast : last.kind = .endOfInput := by
    rw [Cursor.tokens_ofChars] at htokens
    exact (List.cons.inj (List.append_inj' htokens rfl).2).1 ▸ rfl
  have hend : ∀ t ∈ g, t.kind ≠ .endOfInput := fun t ht =>
    (htokens ▸ hspaced.terminated).kind_ne (List.cons_ne_nil _ _) t (by simp [ht])
  obtain ⟨hrun, hraises, -⟩ := runsWith_module hhead hmark he₁ he₂ hg hend hlast
    (Cursor.ofChars s.chars) ⟨hspaced.terminated, hspaced.ordered⟩ (by rw [htokens]; simp) rfl
  refine ⟨fun _ _ => congrArg Prod.snd hrun, parsed_lastCursor hraises fun x hx => ?_⟩
  obtain ⟨hparsing, u, hu, hstart⟩ := anchored_adjoinComplaint hx
  refine ⟨hparsing, u, ?_, hstart⟩
  obtain ⟨vs, rfl⟩ := he₂.exists_cons
  rcases List.mem_append.1 hu with hu | hu
  · simp [htokens, hu]
  · simp [htokens, List.mem_singleton.1 hu]

end

/-- **Behind a declaration the next one on its line is found.** Two texts are parsed under a header
to one declaration each, without a diagnostic. A text whose tokens have the kinds of a header, a
terminator, the first declaration, a gap and the second declaration is parsed to these two
declarations, up to positions. The parser complains that a terminator is missing at the second name
where the gap is empty, else that the first token of the gap is none, unless that token is invalid,
and about nothing else. -/
theorem resumes_on_line (s : Source) {w₁ w₂ : String} {ts₁ ts₂ : List Token} {d₁ d₂ : Declaration}
    (h₁ : StandsAlone w₁ ts₁ d₁) (h₂ : StandsAlone w₂ ts₂ d₂)
    {head us₁ us₂ g : List Token} {mark last : Token}
    (htokens : (lexSignificant s 0).tokens = head ++ mark :: (us₁ ++ g ++ us₂) ++ [last])
    (hhead : head.map (·.kind) =
      [.leftBracket, .leftBracket, .identifier, .rightBracket, .rightBracket])
    (hmark : mark.kind = .terminator) (hus₁ : us₁.map (·.kind) = ts₁.map (·.kind))
    (hg : IsGap g) (hus₂ : us₂.map (·.kind) = ts₂.map (·.kind)) :
    ∃ e₁ e₂, (∀ limit policy, (ofSource s limit policy).members = [e₁, e₂]) ∧
      e₁.ranked us₁ = d₁.ranked ts₁ ∧ e₂.ranked us₂ = d₂.ranked ts₂ ∧
      ∀ limit policy, limit = 0 ∨ (lexRaw s 0).diagnostics.length < limit →
        (ofSource s limit policy).diagnostics.filter Diagnostic.isParsing =
          (adjoinComplaint g e₂.name).toList := by
  rw [tokens_lexSignificant, ← Cursor.tokens_ofChars] at htokens
  have hspaced := Cursor.spaced_ofChars s.chars
  obtain ⟨e₁, he₁, hrank₁⟩ : ∃ e, IsDeclaration us₁ e ∧ e.ranked us₁ = d₁.ranked ts₁ := by
    obtain ⟨next, behind, hnext⟩ : ∃ next behind, g ++ us₂ ++ [last] = next :: behind :=
      List.exists_cons_of_ne_nil (by simp)
    have hsplit : (Cursor.ofChars s.chars).tokens = head ++ [mark] ++ us₁ ++ next :: behind := by
      rw [htokens, ← hnext]
      simp
    exact h₁.exists_counterpart hspaced hsplit hus₁
  obtain ⟨e₂, he₂, hrank₂⟩ : ∃ e, IsDeclaration us₂ e ∧ e.ranked us₂ = d₂.ranked ts₂ := by
    have hsplit : (Cursor.ofChars s.chars).tokens =
        head ++ mark :: (us₁ ++ g) ++ us₂ ++ [last] := by
      rw [htokens]
      simp
    exact h₂.exists_counterpart hspaced hsplit hus₂
  obtain ⟨header, hheader⟩ := exists_isHeader hhead
  obtain ⟨hmembers, hparsed⟩ := members_adjoined htokens hheader hmark he₁ hg he₂
  refine ⟨e₁, e₂, hmembers, hrank₁, hrank₂, fun limit policy hlimit => ?_⟩
  have hone : (adjoinComplaint g e₂.name).toList.length ≤ 1 := by
    cases adjoinComplaint g e₂.name <;> simp
  rw [filter_isParsing_of_lt policy (hparsed ▸ hone) hlimit, hparsed]
  cases adjoinComplaint g e₂.name <;> rfl

theorem StandsAlone.exists_declaration {w : String}
    (hsilent : (ofSource ⟨"[[m]]\n" ++ w, none⟩ 0 .discard).diagnostics = [])
    (hone : (ofSource ⟨"[[m]]\n" ++ w, none⟩ 0 .discard).members.length = 1)
    (htokens : (lexSignificant ⟨"[[m]]\n" ++ w, none⟩ 0).tokens =
      heading.map (·.answer.value) ++ (ts ++ [last]))
    (hfirst : ∀ t ∈ ts.head?, t.kind ≠ .terminator)
    (hlast : ∀ t ∈ ts.getLast?, t.kind ≠ .terminator) : ∃ d, StandsAlone w ts d := by
  obtain ⟨d, hd⟩ := List.length_eq_one_iff.1 hone
  exact ⟨d, hsilent, hd, ⟨last, htokens⟩, hfirst, hlast⟩

/-- An invalid character and a name between two declarations. -/
theorem resumes_on_line_invalid :
    let s : Source := ⟨"[[m]]\nA := B? , x § C[T] := D", none⟩
    ∃ ts₁ ts₂ d₁ d₂ e₁ e₂, StandsAlone "A := B?" ts₁ d₁ ∧ StandsAlone "C[T] := D" ts₂ d₂ ∧
      (∀ limit policy, (ofSource s limit policy).members = [e₁, e₂]) ∧
      (ofSource s 0 .discard).diagnostics.filter Diagnostic.isParsing =
        [Cursor.complaint .unexpectedToken (.ofList [.terminator]) ⟨.comma, ⟨14, 2, 9⟩, 1⟩] := by
  intro s
  let head : List Token :=
    [⟨.leftBracket, ⟨0, 1, 1⟩, 1⟩, ⟨.leftBracket, ⟨1, 1, 2⟩, 1⟩, ⟨.identifier, ⟨2, 1, 3⟩, 1⟩,
      ⟨.rightBracket, ⟨3, 1, 4⟩, 1⟩, ⟨.rightBracket, ⟨4, 1, 5⟩, 1⟩]
  let us₁ : List Token :=
    [⟨.identifier, ⟨6, 2, 1⟩, 1⟩, ⟨.colonEqual, ⟨8, 2, 3⟩, 2⟩, ⟨.identifier, ⟨11, 2, 6⟩, 1⟩,
      ⟨.question, ⟨12, 2, 7⟩, 1⟩]
  let g : List Token :=
    [⟨.comma, ⟨14, 2, 9⟩, 1⟩, ⟨.identifier, ⟨16, 2, 11⟩, 1⟩, ⟨.invalid, ⟨18, 2, 13⟩, 2⟩]
  let us₂ : List Token :=
    [⟨.identifier, ⟨21, 2, 15⟩, 1⟩, ⟨.leftBracket, ⟨22, 2, 16⟩, 1⟩, ⟨.identifier, ⟨23, 2, 17⟩, 1⟩,
      ⟨.rightBracket, ⟨24, 2, 18⟩, 1⟩, ⟨.colonEqual, ⟨26, 2, 20⟩, 2⟩, ⟨.identifier, ⟨29, 2, 23⟩, 1⟩]
  let ts₂ : List Token :=
    [⟨.identifier, ⟨6, 2, 1⟩, 1⟩, ⟨.leftBracket, ⟨7, 2, 2⟩, 1⟩, ⟨.identifier, ⟨8, 2, 3⟩, 1⟩,
      ⟨.rightBracket, ⟨9, 2, 4⟩, 1⟩, ⟨.colonEqual, ⟨11, 2, 6⟩, 2⟩, ⟨.identifier, ⟨14, 2, 9⟩, 1⟩]
  have htokens : (lexSignificant s 0).tokens = head ++
      ⟨.terminator, ⟨5, 1, 6⟩, 1⟩ :: (us₁ ++ g ++ us₂) ++ [⟨.endOfInput, ⟨30, 2, 24⟩, 0⟩] := by
    decide +kernel
  obtain ⟨d₁, h₁⟩ : ∃ d, StandsAlone "A := B?" us₁ d :=
    @StandsAlone.exists_declaration us₁ ⟨.endOfInput, ⟨13, 2, 8⟩, 0⟩ _ (by decide +kernel)
      (by decide +kernel) (by decide +kernel) (by decide) (by decide)
  obtain ⟨d₂, h₂⟩ : ∃ d, StandsAlone "C[T] := D" ts₂ d :=
    @StandsAlone.exists_declaration ts₂ ⟨.endOfInput, ⟨15, 2, 10⟩, 0⟩ _ (by decide +kernel)
      (by decide +kernel) (by decide +kernel) (by decide) (by decide)
  have hgap : IsGap g := ⟨⟨by decide, by decide⟩, by decide⟩
  obtain ⟨e₁, e₂, hmembers, -, -, hcomplaint⟩ :=
    resumes_on_line s h₁ h₂ htokens rfl rfl rfl hgap rfl
  exact ⟨us₁, ts₂, d₁, d₂, e₁, e₂, h₁, h₂, hmembers, hcomplaint 0 .discard (.inl rfl)⟩

end Module

end DeclFront
