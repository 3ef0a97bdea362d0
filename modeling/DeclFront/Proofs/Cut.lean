import DeclFront.Proofs.Readings
import DeclFront.Proofs.TypeRecursion

/-!
# Cutting a text off

The parser knows of what lies ahead only the current token and the one behind it, and it looks at
the latter only from an identifier or an opening bracket. So up to a terminator it does the same
whether the text goes on behind that terminator or ends there (`Translation.cut`). Behind the
terminator the two texts are not compared.
-/

namespace DeclFront

namespace Cursor

variable {c d : Cursor} {r : Reading} {qs rs : List Reading}

/-- The cursor with other readings ahead. -/
def withAhead (c : Cursor) (rs : List Reading) : Cursor :=
  { ofReadings (⟨.token c.current, [], []⟩ :: rs) with
    raised := c.raised
    passed := c.passed
    consumedTo := c.consumedTo
    complainedAt := c.complainedAt }

@[simp] theorem current_withAhead (c : Cursor) (rs : List Reading) :
    (c.withAhead rs).current = c.current := rfl

@[simp] theorem ahead_withAhead (c : Cursor) (rs : List Reading) : (c.withAhead rs).ahead = rs :=
  rfl

@[simp] theorem left_withAhead (c : Cursor) (rs : List Reading) :
    (c.withAhead rs).left = rs.length := rfl

@[simp] theorem raised_withAhead (c : Cursor) (rs : List Reading) :
    (c.withAhead rs).raised = c.raised := rfl

theorem advance_withAhead (h : c.ahead = r :: rs) :
    (c.withAhead (r :: qs)).advance = c.advance.withAhead qs := by
  have hahead : (c.withAhead (r :: qs)).ahead = r :: qs := rfl
  rw [advance_of_ahead h, advance_of_ahead hahead]
  rfl

theorem peek_withAhead (h : c.ahead = r :: rs) :
    (c.withAhead (r :: qs)).peek = (c.peek.1, c.peek.2.withAhead (quiet r :: qs)) := by
  have hahead : (c.withAhead (r :: qs)).ahead = r :: qs := rfl
  rw [peek_of_ahead h, peek_of_ahead hahead]
  rfl

theorem report_withAhead (c : Cursor) (qs : List Reading) (x : Diagnostic) :
    (c.withAhead qs).report x = (c.report x).withAhead qs := by
  by_cases hcode : x.code.isTokenComplaint = true
  · by_cases hat : c.complainedAt = some x.offset <;> simp [report, withAhead, hcode, hat]
  · simp [report, withAhead, hcode]

/-- Before a terminator behind which the readings `zs` are left, or behind it already. -/
structure Ahead (zs : List Reading) (c : Cursor) : Prop where
  closed : c.Closed
  exists_readings : zs.length ≤ c.left → ∃ rs, c.ahead = rs ++ zs ∧
    ((rs.map (·.answer.value)).getLastD c.current).kind = .terminator

variable {zs : List Reading}

theorem Ahead.advance (h : c.Ahead zs) (hzs : zs ≠ []) : c.advance.Ahead zs := by
  refine ⟨closed_advance h.closed, fun hle => ?_⟩
  have hpos := List.length_pos_iff.2 hzs
  rw [left_advance] at hle
  obtain ⟨rs, hrs, hmark⟩ := h.exists_readings (by omega)
  cases rs with
  | nil =>
    have : c.left = zs.length := by rw [c.left_eq, hrs]; rfl
    omega
  | cons r rs =>
    rw [List.map_cons, List.getLastD_cons] at hmark
    rw [advance_of_ahead hrs]
    exact ⟨rs, rfl, hmark⟩

theorem Ahead.report (h : c.Ahead zs) (x : Diagnostic) : (c.report x).Ahead zs :=
  ⟨by simpa [Closed] using h.closed, by simpa using h.exists_readings⟩

/-- Where the parser looks behind the current token, it is not at the terminator. -/
theorem Ahead.exists_cons (h : c.Ahead zs) (hle : zs.length ≤ c.left)
    (hk : c.current.kind = .identifier ∨ c.current.kind = .leftBracket) :
    ∃ r rs, c.ahead = r :: (rs ++ zs) ∧
      (((r :: rs).map (·.answer.value)).getLastD c.current).kind = .terminator := by
  obtain ⟨rs, hrs, hmark⟩ := h.exists_readings hle
  cases rs with
  | nil =>
    have hmark : c.current.kind = .terminator := hmark
    rcases hk with hk | hk <;> exact absurd (hk.symm.trans hmark) (by decide)
  | cons r rs => exact ⟨r, rs, hrs, hmark⟩

theorem Ahead.peek (h : c.Ahead zs)
    (hk : c.current.kind = .identifier ∨ c.current.kind = .leftBracket) :
    c.peek.2.Ahead zs := by
  refine ⟨by simpa [Closed] using h.closed, fun hle => ?_⟩
  obtain ⟨r, rs, hrs, hmark⟩ := h.exists_cons (by simpa using hle) hk
  rw [peek_of_ahead hrs]
  exact ⟨quiet r :: rs, rfl, by simpa [quiet] using hmark⟩

theorem Ahead.step (hzs : zs ≠ []) (hs : Step c d) (h : c.Ahead zs) : d.Ahead zs := by
  cases hs with
  | peek hk => exact h.peek hk
  | advance => exact h.advance hzs
  | complain => exact h.report _
  | skipEmpty => exact ((h.advance hzs).advance hzs).report _

/-- The cursor in the text that ends behind the terminator, with the reading `last`. -/
def cut (zs : List Reading) (last : Reading) (c : Cursor) : Cursor :=
  c.withAhead (c.ahead.take (c.left - zs.length) ++ [last])

theorem cut_eq {last : Reading} (h : c.ahead = rs ++ zs) :
    c.cut zs last = c.withAhead (rs ++ [last]) := by
  rw [cut, c.left_eq, h]
  simp

theorem left_cut (zs : List Reading) (last : Reading) (c : Cursor) :
    (c.cut zs last).left = c.left - zs.length + 1 := by
  simp [cut, c.left_eq]

theorem advance_cut {last : Reading} (h : c.Ahead zs) (hle : zs.length ≤ c.advance.left)
    (hzs : zs ≠ []) : (c.cut zs last).advance = c.advance.cut zs last := by
  have hpos := List.length_pos_iff.2 hzs
  rw [left_advance] at hle
  obtain ⟨rs, hrs, hmark⟩ := h.exists_readings (by omega)
  cases rs with
  | nil =>
    have : c.left = zs.length := by rw [c.left_eq, hrs]; rfl
    omega
  | cons r rs =>
    have hadvance : c.advance.ahead = rs ++ zs := congrArg Cursor.ahead (advance_of_ahead hrs)
    rw [cut_eq hrs, cut_eq hadvance]
    exact advance_withAhead hrs

theorem peek_cut {last : Reading} (h : c.Ahead zs) (hle : zs.length ≤ c.left)
    (hk : c.current.kind = .identifier ∨ c.current.kind = .leftBracket) :
    (c.cut zs last).peek = (c.peek.1, c.peek.2.cut zs last) := by
  obtain ⟨r, rs, hrs, hmark⟩ := h.exists_cons hle hk
  have hpeek : c.peek.2.ahead = quiet r :: rs ++ zs := by rw [peek_of_ahead hrs]; rfl
  have hahead : c.ahead = r :: rs ++ zs := hrs
  rw [cut_eq hahead, cut_eq hpeek]
  exact peek_withAhead hrs

theorem report_cut {last : Reading} (x : Diagnostic) :
    (c.cut zs last).report x = (c.report x).cut zs last := by
  rw [cut, report_withAhead, cut, ahead_report, left_report]

theorem skipEmpty_cut {last : Reading} {code : DiagnosticCode} (h : c.Ahead zs)
    (hle : zs.length ≤ (c.skipEmpty code).left) (hzs : zs ≠ []) :
    (c.cut zs last).skipEmpty code = (c.skipEmpty code).cut zs last := by
  rw [skipEmpty, left_report] at hle
  have hle' : zs.length ≤ c.advance.left := Nat.le_trans hle Step.advance.left_le
  rw [skipEmpty, advance_cut h hle' hzs, advance_cut (h.advance hzs) hle hzs]
  exact report_cut _

theorem closed_cut {last : Reading} (h : c.Ahead zs) (hle : zs.length ≤ c.left) (hzs : zs ≠ [])
    (hlast : last.answer.value.kind = .endOfInput) : (c.cut zs last).Closed := by
  obtain ⟨rs, hrs, -⟩ := h.exists_readings hle
  have hclosed := h.closed
  have htokens : c.tokens = (c.current :: rs.map (·.answer.value)) ++ zs.map (·.answer.value) := by
    simp [tokens, hrs]
  rw [Closed, htokens] at hclosed
  have hkinds := hclosed.kind_ne (by simpa using hzs)
  rw [cut_eq hrs, Closed]
  have := terminated_append hkinds hlast
  simpa [tokens] using this

end Cursor

/-- Cutting a text off behind a terminator, behind which the readings `zs` stand. -/
def Translation.cut (zs : List Reading) (last : Reading) (hzs : zs ≠ [])
    (hlast : last.answer.value.kind = .endOfInput) : Translation where
  token := id
  offset := id
  cursor := Cursor.cut zs last
  valid := Cursor.Ahead zs
  lost := fun c => c.left < zs.length
  kind_token := Translation.identity.kind_token
  start_token := Translation.identity.start_token
  stop_token := Translation.identity.stop_token
  missing_token := Translation.identity.missing_token
  offset_mono := Translation.identity.offset_mono
  valid_step := Cursor.Ahead.step hzs
  lost_step := fun hs h => Nat.lt_of_le_of_lt hs.left_le h
  lost_report := fun d h => by simpa using h
  closed := Cursor.Ahead.closed
  closed_cursor := fun h hl => Cursor.closed_cut h (Nat.not_lt.1 hl) hzs hlast
  current_cursor := fun _ _ => rfl
  consumedTo_cursor := fun _ _ => rfl
  left_cursor := fun hc hr hl => by
    have := hr.left_le
    rw [Cursor.left_cut, Cursor.left_cut]
    omega
  peek_cursor := fun h hl hk => Cursor.peek_cut h (Nat.not_lt.1 hl) hk
  advance_cursor := fun h hl => Cursor.advance_cut h (Nat.not_lt.1 hl) hzs
  report_cursor := fun _ _ _ _ => Cursor.report_cut _
  skipEmpty_cursor := fun _ h hl => Cursor.skipEmpty_cut h (by simpa using hl) hzs

end DeclFront
