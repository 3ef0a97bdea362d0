import DeclFront.Proofs.Consumption
import DeclFront.Proofs.Shift

/-!
# Moving the bytes of a text apart

If bytes come to stand between those of a text, so that every offset moves by a strictly increasing
function `w` and lines and columns stay, the parser notices nothing: it compares offsets, but never
looks at how far they are apart. Reading every cursor at the new offsets is a translation
(`Translation.stretch`), and both the sink and the order of display go along with it
(`Cursor.diagnostics_stretch`).

**Theorem (`Module.ofChars_stretch`).** Two texts whose readings differ in their offsets by `w` have
modules that differ by `w`, whatever the limit and whatever becomes of the trivia.
-/

namespace DeclFront

variable (w : Nat → Nat)

/-- The place with the same line and column at another offset. -/
def Position.stretch (p : Position) : Position := ⟨w p.offset, p.line, p.column⟩

/-- The token that begins and ends where the bytes of `t` come to stand. -/
def Token.stretch (t : Token) : Token := ⟨t.kind, t.position.stretch w, w t.stop - w t.start⟩

/-- The diagnostic about the bytes that those of `d` come to be. -/
def Diagnostic.stretch (d : Diagnostic) : Diagnostic :=
  { d with position := d.position.stretch w, length := w d.span.stop - w d.span.start }

def Reading.stretch : Reading → Reading := .map (.stretch w) (.stretch w)

/-- What a lexer gives, with every offset moved. -/
def LexOutput.stretch (o : LexOutput) : LexOutput :=
  ⟨o.tokens.map (.stretch w), o.diagnostics.map (.stretch w)⟩

/-- The module with every offset moved. -/
def Module.stretch (m : Module) : Module :=
  ⟨m.header.map (.stretch w) w, m.members.map (.map (.stretch w) w), m.diagnostics.map (.stretch w),
    m.trivia.map (.stretch w)⟩

variable {w}

theorem Token.stop_stretch (hw : StrictMono w) (t : Token) : (t.stretch w).stop = w t.stop :=
  Nat.add_sub_cancel' (hw.monotone (Nat.le_add_right _ _))

theorem Token.stretch_missing (w : Nat → Nat) (t : Token) :
    t.missing.stretch w = (t.stretch w).missing := by
  simp [stretch, missing, start, stop]

/-! ## Diagnostics -/

namespace Sink

theorem marker_stretch (d : Diagnostic) : marker (d.stretch w) = (marker d).stretch w := by
  simp [marker, Diagnostic.stretch, Diagnostic.about, Diagnostic.span, Diagnostic.offset]

theorem precedes_stretch (hw : StrictMono w) (d e : Diagnostic) :
    precedes (d.stretch w) (e.stretch w) = precedes d e := by
  have hoffset : ((d.stretch w).offset ≤ (e.stretch w).offset) = (d.offset ≤ e.offset) :=
    propext hw.le_iff_le
  simp only [precedes, hoffset]
  rfl

/-- The diagnostics that are kept and their order do not depend on how far they are apart. -/
theorem sorted_reportAll_stretch (hw : StrictMono w) (limit : Nat) (ds : List Diagnostic) :
    ((ofUserLimit limit).reportAll (ds.map (.stretch w))).sorted =
      ((ofUserLimit limit).reportAll ds).sorted.map (.stretch w) := by
  have hkept : ((ofUserLimit limit).reportAll (ds.map (.stretch w))).toList =
      ((ofUserLimit limit).reportAll ds).toList.map (.stretch w) := by
    by_cases hlimit : limit = 0
    · rw [hlimit, toList_reportAll, toList_reportAll]
    · rw [ofUserLimit, if_neg hlimit, toList_reportAll_withLimit, toList_reportAll_withLimit,
        List.map_append, List.map_take, List.getElem?_map]
      cases ds[limit]? with
      | none => rfl
      | some d => simp [marker_stretch]
  rw [sorted_eq_mergeSort, sorted_eq_mergeSort, hkept, List.map_mergeSort]
  exact fun d _ e _ => (precedes_stretch hw d e).symm

end Sink

/-! ## Cursors -/

namespace Cursor

variable (w) in
/-- The cursor with every offset moved. -/
def stretch (c : Cursor) : Cursor where
  current := c.current.stretch w
  ahead := c.ahead.map (.stretch w)
  left := c.left
  left_eq := by rw [c.left_eq, List.length_map]
  raised := c.raised.map (.stretch w)
  passed := c.passed.map (.stretch w)
  consumedTo := w c.consumedTo
  complainedAt := c.complainedAt.map w

variable {c : Cursor}

theorem tokens_stretch (c : Cursor) : (c.stretch w).tokens = c.tokens.map (.stretch w) := by
  simp [tokens, stretch, Reading.stretch, Reading.map, Function.comp_def]

theorem Closed.stretch (h : c.Closed) : (c.stretch w).Closed := by
  rw [Closed, tokens_stretch]
  exact terminated_map (f := Token.stretch w) (fun _ => rfl) h

theorem advance_stretch (hw : StrictMono w) (c : Cursor) :
    (c.stretch w).advance = c.advance.stretch w := by
  cases h : c.ahead with
  | nil => rw [advance_of_ahead_nil h, advance_of_ahead_nil (by simp [stretch, h])]
  | cons r rs =>
    have hstretch : (c.stretch w).ahead = r.stretch w :: rs.map (.stretch w) := by
      simp [stretch, h]
    rw [advance_of_ahead h, advance_of_ahead hstretch]
    simp [stretch, Reading.stretch, Reading.map, Token.stop_stretch hw]

theorem peek_stretch (c : Cursor) :
    (c.stretch w).peek = (c.peek.1.stretch w, c.peek.2.stretch w) := by
  cases h : c.ahead with
  | nil => rw [peek_of_ahead_nil h, peek_of_ahead_nil (by simp [stretch, h])]; rfl
  | cons r rs =>
    have hstretch : (c.stretch w).ahead = r.stretch w :: rs.map (.stretch w) := by
      simp [stretch, h]
    rw [peek_of_ahead h, peek_of_ahead hstretch]
    simp [stretch, Reading.stretch, Reading.map, quiet]

/-- Two complaints are about one offset just where they were. -/
theorem report_stretch (hw : StrictMono w) (c : Cursor) (x : Diagnostic) :
    (c.stretch w).report (x.stretch w) = (c.report x).stretch w := by
  have hat : (c.stretch w).complainedAt = some (x.stretch w).offset ↔
      c.complainedAt = some x.offset := by
    cases hc : c.complainedAt with
    | none => simp [stretch, hc]
    | some n =>
      show c.complainedAt.map w = some (w x.offset) ↔ _
      rw [hc, Option.map_some, Option.some.injEq, Option.some.injEq]
      exact hw.injective.eq_iff
  have hcode : (x.stretch w).code = x.code := rfl
  unfold report
  rw [hcode]
  split
  · by_cases h : c.complainedAt = some x.offset
    · rw [if_pos h, if_pos (hat.2 h)]
    · rw [if_neg h, if_neg (mt hat.1 h)]
      rfl
  · rfl

theorem skipEmpty_stretch (hw : StrictMono w) (c : Cursor) (code : DiagnosticCode) :
    (c.stretch w).skipEmpty code = (c.skipEmpty code).stretch w := by
  have hcomplaint : emptyComplaint code (c.current.stretch w) (c.advance.current.stretch w) =
      (emptyComplaint code c.current c.advance.current).stretch w := by
    rw [emptyComplaint, Token.stop_stretch hw]
    exact congrArg (Diagnostic.about code .parsing (c.current.position.stretch w))
      (sub_eq_of_monotone hw.monotone c.current.start c.advance.current.stop)
  rw [skipEmpty, advance_stretch hw, advance_stretch hw]
  exact (congrArg _ hcomplaint).trans (report_stretch hw _ _)

theorem diagnostics_stretch (hw : StrictMono w) (c : Cursor) (limit : Nat) :
    (c.stretch w).diagnostics limit = (c.diagnostics limit).map (.stretch w) := by
  rw [diagnostics, stretch, ← List.map_reverse]
  exact Sink.sorted_reportAll_stretch hw limit _

theorem trivia_stretch (c : Cursor) (policy : TriviaPolicy) :
    (c.stretch w).trivia policy = (c.trivia policy).map (.stretch w) := by
  cases policy with
  | discard => rfl
  | collect => exact List.map_reverse.symm

theorem ofReadings_stretch (hzero : w 0 = 0) {rs : List Reading} (hne : rs ≠ []) :
    ofReadings (rs.map (.stretch w)) = (ofReadings rs).stretch w := by
  cases rs with
  | nil => exact absurd rfl hne
  | cons r rs => simp [ofReadings, stretch, Reading.stretch, Reading.map, hzero]

end Cursor

/-- Reading cursors at the new offsets. -/
def Translation.stretch (hw : StrictMono w) : Translation where
  token := Token.stretch w
  offset := w
  cursor := Cursor.stretch w
  valid := Cursor.Closed
  lost := fun _ => False
  kind_token := fun _ => rfl
  start_token := fun _ => rfl
  stop_token := Token.stop_stretch hw
  missing_token := Token.stretch_missing w
  offset_mono := hw.monotone
  valid_step := fun hs hc => hs.closed hc
  lost_step := fun _ => id
  lost_report := fun _ => id
  closed := fun hc => hc
  closed_cursor := fun hc _ => hc.stretch
  current_cursor := fun _ _ => rfl
  consumedTo_cursor := fun _ _ => rfl
  left_cursor := fun _ _ _ => Iff.rfl
  peek_cursor := fun _ _ _ => Cursor.peek_stretch _
  advance_cursor := fun _ _ => Cursor.advance_stretch hw _
  report_cursor := fun code expected _ _ =>
    Cursor.report_stretch hw _ (Cursor.complaint code expected _)
  skipEmpty_cursor := fun _ _ _ => Cursor.skipEmpty_stretch hw _ _

/-! ## Modules -/

/-- **Stretching.** If the readings of two texts differ in their offsets, their modules differ in
them in the same way. -/
theorem Module.ofChars_stretch (hw : StrictMono w) {cs cs' : List Char}
    (h : Cursor.ofChars cs' = (Cursor.ofChars cs).stretch w) (limit : Nat) (policy : TriviaPolicy) :
    ofChars cs' limit policy = (ofChars cs limit policy).stretch w := by
  have hrun : Parser.module (Cursor.ofChars cs') =
      (Prod.map (ModuleHeader.map (.stretch w) w) (List.map (Declaration.map (.stretch w) w))
        (Parser.module (Cursor.ofChars cs)).1, (lastCursor cs).stretch w) := by
    rw [h]
    exact (Translation.carries_module (T := .stretch hw) _ (Nat.lt_succ_self _)
      (Cursor.closed_ofChars cs)).2 not_false
  show Module.mk (Parser.module (Cursor.ofChars cs')).1.1 (Parser.module (Cursor.ofChars cs')).1.2
    ((Parser.module (Cursor.ofChars cs')).2.diagnostics limit)
    ((Parser.module (Cursor.ofChars cs')).2.trivia policy) = _
  rw [hrun, Cursor.diagnostics_stretch hw, Cursor.trivia_stretch]
  rfl

end DeclFront
