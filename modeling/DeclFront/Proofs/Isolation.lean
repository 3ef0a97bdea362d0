import DeclFront.Proofs.Entries
import DeclFront.Proofs.Shift
import DeclFront.Proofs.Whereabouts

/-!
# What is wrong with a line stays in it
-/

namespace DeclFront

open DeclFront.Parser

/-! ## Under a header -/

/-- The readings of the header `[[m]]` and the line feed behind it. -/
def heading : List Reading :=
  [⟨.token ⟨.leftBracket, ⟨0, 1, 1⟩, 1⟩, [], []⟩, ⟨.token ⟨.leftBracket, ⟨1, 1, 2⟩, 1⟩, [], []⟩,
    ⟨.token ⟨.identifier, ⟨2, 1, 3⟩, 1⟩, [], []⟩, ⟨.token ⟨.rightBracket, ⟨3, 1, 4⟩, 1⟩, [], []⟩,
    ⟨.token ⟨.rightBracket, ⟨4, 1, 5⟩, 1⟩, [], []⟩, ⟨.token ⟨.terminator, ⟨5, 1, 6⟩, 1⟩, [], []⟩]

/-- The text under the header `[[m]]`. -/
def headed (cs : List Char) : List Char := ['[', '[', 'm', ']', ']'] ++ '\n' :: cs

/-- Behind the header, before the line feed. -/
def Cursor.behindHeader (rs : List Reading) : Cursor :=
  { ofReadings (⟨.token ⟨.terminator, ⟨5, 1, 6⟩, 1⟩, [], []⟩ :: rs) with consumedTo := 5 }

/-- Where the text under the header begins. -/
def bodyStart : Position := ⟨6, 2, 1⟩

/-- The readings of the text under the header. -/
def bodyReadings (cs : List Char) : List Reading :=
  gather TokenKind.isTrivia (bodyStart.after cs) (Segment.ofText bodyStart cs)

@[simp] theorem Cursor.current_behindHeader (rs : List Reading) :
    (behindHeader rs).current = ⟨.terminator, ⟨5, 1, 6⟩, 1⟩ := rfl

@[simp] theorem Cursor.ahead_behindHeader (rs : List Reading) : (behindHeader rs).ahead = rs := rfl

@[simp] theorem Cursor.raised_behindHeader (rs : List Reading) : (behindHeader rs).raised = [] :=
  rfl

@[simp] theorem Cursor.passed_behindHeader (rs : List Reading) : (behindHeader rs).passed = [] :=
  rfl

@[simp] theorem Cursor.complainedAt_behindHeader (rs : List Reading) :
    (behindHeader rs).complainedAt = none := rfl

theorem readings_headed (cs : List Char) :
    Segment.readings TokenKind.isTrivia (headed cs) = heading ++ bodyReadings cs := by
  have hheader : Segment.ofText .origin ['[', '[', 'm', ']', ']'] =
      [⟨⟨0, 1, 1⟩, ['['], some .leftBracket, none⟩, ⟨⟨1, 1, 2⟩, ['['], some .leftBracket, none⟩,
        ⟨⟨2, 1, 3⟩, ['m'], some .identifier, none⟩, ⟨⟨3, 1, 4⟩, [']'], some .rightBracket, none⟩,
        ⟨⟨4, 1, 5⟩, [']'], some .rightBracket, none⟩] := by
    decide +kernel
  have hstop : Position.origin.after (headed cs) = bodyStart.after cs := rfl
  rw [Segment.readings, hstop, headed, Segment.ofText_newline _ (by decide), hheader]
  rfl

theorem header_heading (rs : List Reading) :
    ∃ h, header (Cursor.ofReadings (heading ++ rs)) = (h, .behindHeader rs) := by
  let c := (Cursor.ofReadings (heading ++ rs)).peek.2.advance.advance
  have hpath : path c = (⟨[c.current], Path.spanOf [c.current]⟩, c.advance) := by
    have hstop : furtherSegment c.advance = (.stop, c.advance) := rfl
    have heat : eat .identifier c = (some c.current, c.advance) := eat_of_eq rfl
    simp only [path, bind_apply, heat, collect_of_stop hstop]
    rfl
  have hclose : closeHeader c.advance = ((), .behindHeader rs) := rfl
  refine ⟨⟨⟨[c.current], Path.spanOf [c.current]⟩, ⟨0, 5⟩, false⟩, ?_⟩
  show (do
    let name ← path
    closeHeader
    return (⟨name, ⟨0, ← consumedTo⟩, false⟩ : ModuleHeader)) c = _
  simp only [bind_apply, hpath, hclose]
  rfl

/-- Behind the header of a text its declarations are parsed. -/
theorem module_heading (rs : List Reading) :
    ∃ h, module (Cursor.ofReadings (heading ++ rs)) =
      ((h, (declarations (.behindHeader rs)).1), (declarations (.behindHeader rs)).2) := by
  obtain ⟨h, hheader⟩ := header_heading rs
  have hskip : skipTerminators (Cursor.ofReadings (heading ++ rs)) = ((), _) :=
    skipTerminators_of_ne (show TokenKind.leftBracket ≠ .terminator by decide)
  refine ⟨h, ?_⟩
  simp only [module, bind_apply, hskip, hheader]
  rfl

/-- Behind the header of a text, before the line feed. -/
def Cursor.underHeader (cs : List Char) : Cursor := .behindHeader (bodyReadings cs)

theorem module_headed (cs : List Char) :
    (module (Cursor.ofChars (headed cs))).1.2 = (declarations (.underHeader cs)).1 ∧
      (module (Cursor.ofChars (headed cs))).2 = (declarations (.underHeader cs)).2 := by
  obtain ⟨h, hmodule⟩ := module_heading (bodyReadings cs)
  rw [Cursor.ofReadings_eq, readings_headed, hmodule]
  exact ⟨rfl, rfl⟩

namespace Cursor

theorem reaches_underHeader (cs : List Char) : (ofChars (headed cs)).Reaches (underHeader cs) := by
  obtain ⟨h, hheader⟩ := header_heading (bodyReadings cs)
  have hmoves : Moves header := moves_of_carries fun _ => Translation.carries_header
  have hreaches := hmoves _ (closed_ofChars (headed cs))
  rw [ofReadings_eq, readings_headed, hheader] at hreaches
  rw [ofReadings_eq, readings_headed]
  exact hreaches

theorem timely_underHeader (cs : List Char) : (underHeader cs).Timely :=
  (reaches_underHeader cs).timely (timely_ofChars _)

theorem tokens_behindHeader {rs : List Reading} (h : rs ≠ []) :
    (behindHeader rs).advance.tokens = rs.map (·.answer.value) := by
  cases rs with
  | nil => exact absurd rfl h
  | cons r rs => rfl

theorem complaints_behindHeader (rs : List Reading) :
    (behindHeader rs).advance.raised.reverse ++
      (behindHeader rs).advance.ahead.flatMap (·.complaints) = rs.flatMap (·.complaints) := by
  cases rs with
  | nil => rfl
  | cons r rs =>
    have hahead : (behindHeader (r :: rs)).ahead = r :: rs := rfl
    rw [advance_of_ahead hahead]
    simp

/-- What stands under the header begins behind it. -/
theorem located_underHeader (cs : List Char) :
    (underHeader cs).advance.Located (bodyStart.offset ≤ ·) :=
  located_gather (fun _ hn _ => hn) (tokens_behindHeader (gather_ne_nil _ _ _))
    (complaints_behindHeader _)

theorem closed_underHeader (cs : List Char) : (underHeader cs).Closed :=
  (timely_underHeader cs).closed

end Cursor

/-! ## Groups of a text -/

theorem openGroups_shift {k l : Nat} (st : List TokenKind) (ts : List Token) :
    openGroups st (ts.map (Token.shift k l)) = openGroups st ts := by
  induction ts generalizing st with
  | nil => rfl
  | cons t ts ih =>
    have hkind : (t.shift k l).kind = t.kind := rfl
    simp only [List.map_cons, openGroups, hkind, ih]

theorem openGroups_concat_neutral {t : Token} (h : IsNeutral t.kind) (st : List TokenKind)
    (ts : List Token) : openGroups st (ts ++ [t]) = openGroups st ts := by
  induction ts generalizing st with
  | nil => simp [openGroups, groupStep_neutral h]
  | cons t' ts ih => simp only [List.cons_append, openGroups, ih]

/-- The significant tokens of a text that begins at `p`, without the end of input. -/
def Segment.significant (p : Position) (cs : List Char) : List Token :=
  ((ofText p cs).filterMap token?).filter (!·.kind.isTrivia)

/-- Where the segments of a text are moved, its significant tokens are. -/
theorem Segment.significant_map {f : Token → Token} {F : Segment → Segment} {p q : Position}
    {cs : List Char} (hkind : ∀ t, (f t).kind = t.kind)
    (htoken : ∀ s, (F s).token? = s.token?.map f)
    (h : ofText q cs = (ofText p cs).map F) : significant q cs = (significant p cs).map f := by
  have hfilter (ts : List Token) :
      (ts.map f).filter (!·.kind.isTrivia) = (ts.filter (!·.kind.isTrivia)).map f := by
    rw [List.filter_map]
    simp only [Function.comp_def, hkind]
  have htoken : token? ∘ F = fun s => s.token?.map f := funext htoken
  rw [significant, significant, h, List.filterMap_map, htoken, ← hfilter, List.map_filterMap]

theorem Segment.significant_shift {k l : Nat} (p : Position) (cs : List Char) :
    significant (p.shift k l) cs = (significant p cs).map (Token.shift k l) :=
  significant_map (fun _ => rfl) token?_shift (ofText_shift p cs)

/-- A text that is well nested is so wherever it begins. -/
theorem WellNested.openGroups_eq {s : Source} {limit k l : Nat}
    (h : WellNested (lexSignificant s limit).tokens) :
    openGroups [] (Segment.significant (Position.origin.shift k l) s.chars) = some [] := by
  rw [WellNested, tokens_lexSignificant,
    openGroups_concat_neutral (show IsNeutral TokenKind.endOfInput by decide)] at h
  rw [Segment.significant_shift, openGroups_shift]
  exact h

/-! ## Behind a line feed -/

theorem after_line (g : List Char) :
    (bodyStart.after g).advance '\n' = bodyStart.shift (lineBytes g) (lineCount g) :=
  Position.advance_after_newline rfl g

variable {g : List Char}

/-- The readings behind a line feed are those under the header, further down. -/
theorem exists_bodyReadings (hcr : g.getLast? ≠ some '\r') :
    ∃ gs, gs.map (·.answer.value) =
        Segment.significant bodyStart g ++ [lineFeedToken (bodyStart.after g)] ∧
      ∀ r, bodyReadings (g ++ '\n' :: r) =
        gs ++ (bodyReadings r).map (Reading.shift (lineBytes g) (lineCount g)) := by
  obtain ⟨gs, hvalues, hgs⟩ := exists_gather_newline bodyStart hcr
  refine ⟨gs, hvalues, fun r => ?_⟩
  rw [bodyReadings, hgs, after_line, Segment.ofText_shift, Position.after_append,
    Position.after_cons, after_line, Position.after_shift, gather_shift]
  rfl

/-- Behind the line feed the cursor is the one under the header, further down. -/
theorem advance_eq_shift {m : Cursor} {zs : List Reading} {k l : Nat} (hzs : zs ≠ [])
    (hahead : m.ahead = zs.map (Reading.shift k l))
    (hstop : m.current.stop = bodyStart.offset + k) :
    m.advance = .shift k l m (Cursor.behindHeader zs).advance := by
  have hfeed : (Cursor.behindHeader zs).current.stop = bodyStart.offset := rfl
  cases zs with
  | nil => exact absurd rfl hzs
  | cons r rs =>
    rw [List.map_cons] at hahead
    have hbody : (Cursor.behindHeader (r :: rs)).ahead = r :: rs := rfl
    rw [Cursor.advance_of_ahead hahead, Cursor.advance_of_ahead hbody]
    simpa [Cursor.shift, Reading.shift, hstop] using hfeed.symm

/-- The tokens under the header up to the token `mark`, and those behind it. -/
theorem tokens_behindHeader_append {gs : List Reading} {mark : Token}
    (hvalues : gs.map (·.answer.value) = Segment.significant bodyStart g ++ [mark])
    (zs : List Reading) : (Cursor.behindHeader (gs ++ zs)).tokens =
      (⟨.terminator, ⟨5, 1, 6⟩, 1⟩ :: Segment.significant bodyStart g) ++
        mark :: zs.map (·.answer.value) := by
  simp [Cursor.tokens, hvalues]

/-- Before the line feed of the header, a text that is well nested lies before its own. -/
theorem within_behindHeader {gs zs : List Reading} {mark : Token}
    (hc : (Cursor.behindHeader (gs ++ zs)).Closed)
    (hvalues : gs.map (·.answer.value) = Segment.significant bodyStart g ++ [mark])
    (hmark : mark.kind = .terminator)
    (hg : openGroups [] (Segment.significant bodyStart g) = some []) :
    (Cursor.behindHeader (gs ++ zs)).Within zs.length [] (gs ++ zs).length ∧
      (Cursor.behindHeader (gs ++ zs)).Ahead zs := by
  have htokens := tokens_behindHeader_append hvalues zs
  refine ⟨⟨[], by simp, ⟨hc, _, mark, _, htokens, List.length_map _, hmark, ?_⟩, Nat.le_refl _⟩,
    ⟨hc, fun _ => ⟨gs, rfl, ?_⟩⟩⟩
  · exact hg
  · rw [hvalues, List.getLastD_concat]
    exact hmark

/-- Where the text ends behind the terminator, there is nothing more to be found. -/
theorem declarations_cut_of_left_eq {m : Cursor} {zs : List Reading} {last : Reading}
    (hm : m.Ahead zs) (hleft : m.left = zs.length) (hzs : zs ≠ [])
    (hlast : last.answer.value.kind = .endOfInput) (hquiet : last.complaints = []) :
    (declarations (m.cut zs last)).1 = [] ∧
      (declarations (m.cut zs last)).2.raised = m.raised := by
  obtain ⟨hahead, hkind⟩ := hm.of_left_eq hleft
  have hclosed := Cursor.closed_cut hm (Nat.le_of_eq hleft.symm) hzs hlast
  have hnil : m.ahead = [] ++ zs := hahead
  have hlastAhead : (m.withAhead ([] ++ [last])).ahead = last :: [] := rfl
  have hadvance := Cursor.advance_of_ahead hlastAhead
  rw [declarations_of_terminator hclosed hkind, Cursor.cut_eq hnil,
    declarations_of_end (by rwa [hadvance]), hadvance]
  simp [hquiet]

/-- The end of input behind the line feed. -/
def endBehind (g : List Char) : Reading :=
  ⟨.token ⟨.endOfInput, bodyStart.shift (lineBytes g) (lineCount g), 0⟩, [], []⟩

/-- Without the text behind it, the line feed is followed by the end of input. -/
theorem underHeader_line {gs : List Reading} (hbody : ∀ r, bodyReadings (g ++ '\n' :: r) =
      gs ++ (bodyReadings r).map (Reading.shift (lineBytes g) (lineCount g))) (zs : List Reading) :
    Cursor.underHeader (g ++ ['\n']) = (Cursor.behindHeader (gs ++ zs)).cut zs (endBehind g) := by
  have hnil : bodyReadings [] = [⟨.token ⟨.endOfInput, bodyStart, 0⟩, [], []⟩] := by
    simp [bodyReadings, gather]
  rw [Cursor.underHeader, hbody, hnil, Cursor.cut_eq rfl]
  rfl

/-- The declarations behind the line feed are those under the header, further down. -/
theorem declarations_of_lineFeed {m : Cursor} {r : List Char} (hclosed : m.Closed)
    (hcurrent : m.current = lineFeedToken (bodyStart.after g))
    (hahead : m.ahead = (bodyReadings r).map (Reading.shift (lineBytes g) (lineCount g)))
    (hcomplained : ∀ x, m.complainedAt = some x → x ≤ m.current.start) :
    declarations m =
      ((declarations (.underHeader r)).1.map (Declaration.shift (lineBytes g) (lineCount g)),
        .shift (lineBytes g) (lineCount g) m (declarations (.underHeader r)).2) := by
  have hkind : m.current.kind = .terminator := by rw [hcurrent]; rfl
  have hstop : m.current.stop = bodyStart.offset + lineBytes g := by
    rw [hcurrent]
    show (bodyStart.after g).offset + 1 = _
    rw [Position.offset_after]
    rfl
  have hb (x : Nat) (hx : m.complainedAt = some x) : x < bodyStart.offset + lineBytes g :=
    calc x ≤ m.current.start := hcomplained x hx
      _ < m.current.start + 1 := Nat.lt_succ_self _
      _ = bodyStart.offset + lineBytes g := hstop ▸ hcurrent ▸ rfl
  let T := Translation.shift (lineBytes g) (lineCount g) bodyStart.offset m hb
  have hvalid : T.valid (Cursor.underHeader r).advance :=
    ⟨Cursor.closed_advance (Cursor.closed_underHeader r), (Cursor.located_underHeader r).tokens⟩
  have hmoved := (T.carries_declarations _ (Nat.lt_succ_self _) hvalid).2 id
  rw [declarations_of_terminator hclosed hkind,
    advance_eq_shift (gather_ne_nil _ _ _) hahead hstop,
    declarations_of_terminator (Cursor.closed_underHeader r) rfl]
  exact hmoved

/-- **A line feed outside all groups ends what stands before it.** The declarations behind it are
those under the header, further down, and so are the complaints about them. -/
theorem exists_declarations_underHeader (hcr : g.getLast? ≠ some '\r')
    (hg : openGroups [] (Segment.significant bodyStart g) = some []) (r : List Char) :
    ∃ m, (declarations (.underHeader (g ++ ['\n']))).2.raised = m.raised ∧
      declarations (.underHeader (g ++ '\n' :: r)) =
        ((declarations (.underHeader (g ++ ['\n']))).1 ++
          (declarations (.underHeader r)).1.map (Declaration.shift (lineBytes g) (lineCount g)),
          .shift (lineBytes g) (lineCount g) m (declarations (.underHeader r)).2) := by
  obtain ⟨gs, hvalues, hbody⟩ := exists_bodyReadings hcr
  let zs := (bodyReadings r).map (Reading.shift (lineBytes g) (lineCount g))
  have hne : bodyReadings r ≠ [] := gather_ne_nil _ _ _
  have hzs : zs ≠ [] := by simpa [zs] using hne
  have hlast : (endBehind g).answer.value.kind = .endOfInput := rfl
  have hwhole : Cursor.underHeader (g ++ '\n' :: r) = .behindHeader (gs ++ zs) := by
    rw [Cursor.underHeader, hbody]
  have hline := underHeader_line hbody zs
  have htimely := Cursor.timely_underHeader (g ++ '\n' :: r)
  rw [hwhole] at htimely
  obtain ⟨hwithin, hahead⟩ := within_behindHeader htimely.closed hvalues rfl hg
  obtain ⟨ds, m, hr, hm, hleft, hds, hdscut⟩ :=
    exists_declarations_cut hzs hlast _ hwithin hahead
  obtain ⟨hnone, hraised⟩ := declarations_cut_of_left_eq hm hleft hzs hlast rfl
  have hcurrent : m.current = lineFeedToken (bodyStart.after g) :=
    hr.current_eq htimely.closed (tokens_behindHeader_append hvalues zs)
      (hleft.trans (List.length_map _).symm)
  have hrest := declarations_of_lineFeed hm.closed hcurrent (hm.of_left_eq hleft).1
    (hr.timely htimely).complainedAt_le
  refine ⟨m, ?_, ?_⟩
  · rw [hline, hdscut]
    exact hraised
  · rw [hwhole, hline, hds, hdscut, hnone, hrest, List.append_nil]

/-! ## Members and diagnostics -/

theorem Sink.precedes_shift (k l : Nat) (d e : Diagnostic) :
    precedes (d.shift k l) (e.shift k l) = precedes d e := by
  have hle : decide (d.offset + k ≤ e.offset + k) = decide (d.offset ≤ e.offset) := by simp
  show (if isMarker d == isMarker e then decide (d.offset + k ≤ e.offset + k) else isMarker e) = _
  rw [hle]
  rfl

/-- What is found under the header stands behind it. -/
theorem Cursor.offset_le_of_mem_raised {r : List Char} {x : Diagnostic}
    (hx : x ∈ (declarations (underHeader r)).2.raised) :
    Sink.isMarker x = false ∧ bodyStart.offset ≤ x.offset := by
  have hmoves : Moves declarations := moves_of_carries fun _ => Translation.carries_declarations
  rw [declarations_of_terminator (closed_underHeader r) rfl] at hx
  have hr := hmoves _ (closed_advance (closed_underHeader r))
  exact (hr.located (located_underHeader r)).raised x hx

theorem byteLength_headed (cs : List Char) :
    byteLength (headed cs) = bodyStart.offset + byteLength cs := by
  have hheader : byteLength ['[', '[', 'm', ']', ']', '\n'] = bodyStart.offset := rfl
  rw [← hheader, ← byteLength_append]
  rfl

namespace Module

/-- The module of a text under a header. -/
theorem ofChars_headed (cs : List Char) (policy : TriviaPolicy) :
    (ofChars (headed cs) 0 policy).members = (declarations (.underHeader cs)).1 ∧
      (ofChars (headed cs) 0 policy).diagnostics =
        (declarations (.underHeader cs)).2.raised.reverse.mergeSort Sink.precedes := by
  obtain ⟨hmembers, hlast⟩ := module_headed cs
  refine ⟨hmembers, ?_⟩
  rw [← hlast]
  exact Cursor.diagnostics_zero _

/-- What is raised about a line stands before what is raised behind it. -/
theorem precedes_of_mem_raised {r : List Char} {d e : Diagnostic}
    (hd : d ∈ (declarations (.underHeader (g ++ ['\n']))).2.raised)
    (he : e ∈ (declarations (.underHeader r)).2.raised) (l : Nat) :
    Sink.precedes d (e.shift (lineBytes g) l) = true := by
  rw [← (module_headed _).2] at hd
  obtain ⟨hmarker, hle⟩ := offset_of_mem_raised hd
  obtain ⟨hmarker', hle'⟩ := Cursor.offset_le_of_mem_raised he
  have hbytes : byteLength (headed (g ++ ['\n'])) = bodyStart.offset + lineBytes g := by
    rw [byteLength_headed, byteLength_append]
    rfl
  refine Sink.precedes_iff.2 (.inl ⟨hmarker.trans hmarker'.symm, ?_⟩)
  rw [Diagnostic.offset_shift]
  omega

/-- **What is wrong with a line stays in it.** Let the brackets of `g` be well nested, with every
terminator outside all of them or directly inside braces. Then the declarations and the diagnostics
of `g`, a line feed and any text behind it are those of `g` and the line feed, followed by those of
the text behind, moved down. -/
theorem isolates_line (name : Option String) (g rest : String) (policy : TriviaPolicy)
    (hcr : g.toList.getLast? ≠ some '\r') (hg : WellNested (lexSignificant ⟨g, name⟩ 0).tokens) :
    (ofSource ⟨"[[m]]\n" ++ g ++ "\n" ++ rest, name⟩ 0 policy).members =
        (ofSource ⟨"[[m]]\n" ++ g ++ "\n", name⟩ 0 policy).members ++
          (ofSource ⟨"[[m]]\n" ++ rest, name⟩ 0 policy).members.map
            (Declaration.shift (lineBytes g.toList) (lineCount g.toList)) ∧
      (ofSource ⟨"[[m]]\n" ++ g ++ "\n" ++ rest, name⟩ 0 policy).diagnostics =
        (ofSource ⟨"[[m]]\n" ++ g ++ "\n", name⟩ 0 policy).diagnostics ++
          (ofSource ⟨"[[m]]\n" ++ rest, name⟩ 0 policy).diagnostics.map
            (Diagnostic.shift (lineBytes g.toList) (lineCount g.toList)) := by
  have hwhole : ("[[m]]\n" ++ g ++ "\n" ++ rest).toList =
      headed (g.toList ++ '\n' :: rest.toList) := by
    simp [headed, String.toList_append]
  have hline : ("[[m]]\n" ++ g ++ "\n").toList = headed (g.toList ++ ['\n']) := by
    simp [headed, String.toList_append]
  have hbehind : ("[[m]]\n" ++ rest).toList = headed rest.toList := by
    simp [headed, String.toList_append]
  have hopen : openGroups [] (Segment.significant bodyStart g.toList) = some [] :=
    hg.openGroups_eq (k := 6) (l := 1)
  obtain ⟨m, hraised, hdecls⟩ := exists_declarations_underHeader hcr hopen rest.toList
  simp only [ofSource, Source.chars, hwhole, hline, hbehind]
  obtain ⟨hmembers, hdiagnostics⟩ := ofChars_headed (g.toList ++ '\n' :: rest.toList) policy
  obtain ⟨hmembers', hdiagnostics'⟩ := ofChars_headed (g.toList ++ ['\n']) policy
  obtain ⟨hmembers'', hdiagnostics''⟩ := ofChars_headed rest.toList policy
  refine ⟨?_, ?_⟩
  · rw [hmembers, hmembers', hmembers'', hdecls]
  · rw [hdiagnostics, hdiagnostics', hdiagnostics'', hdecls,
      List.map_mergeSort fun d _ e _ => (Sink.precedes_shift _ _ d e).symm, List.map_reverse,
      ← Sink.mergeSort_append ?_, ← List.reverse_append, hraised]
    · rfl
    · intro d hd e' he'
      obtain ⟨e, he, rfl⟩ := List.mem_map.1 (List.mem_reverse.1 he')
      exact precedes_of_mem_raised (List.mem_reverse.1 hd) he _

/-- A method and a line in which nothing is closed where it should be. -/
theorem isolates_line_method :
    let g := "A := ^\x7b\n  f(x: [B := C] -> 7),\n\x7d D(y -> [z :=] w)"
    g.toList.getLast? ≠ some '\r' ∧ WellNested (lexSignificant ⟨g, none⟩ 0).tokens ∧
      (ofSource ⟨"[[m]]\n" ++ g ++ "\n" ++ "E := ]\nF := G", none⟩ 0 .discard).members =
        (ofSource ⟨"[[m]]\n" ++ g ++ "\n", none⟩ 0 .discard).members ++
          (ofSource ⟨"[[m]]\n" ++ "E := ]\nF := G", none⟩ 0 .discard).members.map
            (Declaration.shift 50 3) ∧
      (ofSource ⟨"[[m]]\n" ++ g ++ "\n" ++ "E := ]\nF := G", none⟩ 0 .discard).diagnostics =
        (ofSource ⟨"[[m]]\n" ++ g ++ "\n", none⟩ 0 .discard).diagnostics ++
          (ofSource ⟨"[[m]]\n" ++ "E := ]\nF := G", none⟩ 0 .discard).diagnostics.map
            (Diagnostic.shift 50 3) := by
  intro g
  have hcr : g.toList.getLast? ≠ some '\r' := by decide
  have hg : WellNested (lexSignificant ⟨g, none⟩ 0).tokens := by decide +kernel
  have hbytes : lineBytes g.toList = 50 := by decide +kernel
  have hlines : lineCount g.toList = 3 := by decide +kernel
  have h := isolates_line none g "E := ]\nF := G" .discard hcr hg
  rw [hbytes, hlines] at h
  exact ⟨hcr, hg, h⟩

end Module

end DeclFront
