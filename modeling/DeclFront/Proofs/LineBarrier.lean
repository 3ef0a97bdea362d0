import DeclFront.Proofs.Seams

/-!
# No segment crosses a line feed

What a segment is depends on the text up to the next line break alone. A carriage return makes one
line break with the line feed behind it, so the text in front of a line feed must not end with one.

**Theorem (`Segment.ofText_newline`).** The segments of a text with a line feed inside are those of
the text in front, the line feed, and those of the text behind. The readings of a text are cut in
two at the same place (`exists_gather_newline`).
-/

namespace DeclFront

variable {u v : List Char}

/-! ## Segments -/

namespace Segment

/-- The segment of a line feed. -/
def lineFeed (p : Position) : Segment := ⟨p, ['\n'], some .terminator, none⟩

theorem ofText_lineFeed (p : Position) (cs : List Char) :
    ofText p ('\n' :: cs) = lineFeed p :: ofText (p.advance '\n') cs := by
  rw [ofText_cons]
  rfl

/-- **A line feed cuts a text in two.** -/
theorem ofText_newline (p : Position) (h : u.getLast? ≠ some '\r') :
    ofText p (u ++ '\n' :: v) =
      ofText p u ++ lineFeed (p.after u) :: ofText ((p.after u).advance '\n') v := by
  rw [ofText_append_of_atLineBreak rfl p fun hlast => absurd hlast h, ofText_lineFeed]

end Segment

/-! ## Readings -/

/-- The readings of segments up to one that is not passed over do not depend on those behind it. -/
theorem exists_gather_append {skips : TokenKind → Bool} {s : Segment} {t : Token}
    (ht : s.token? = some t) (hk : skips t.kind = false) (ss : List Segment) :
    ∃ rs, rs ≠ [] ∧
      ∀ stop ss', gather skips stop (ss ++ s :: ss') = rs ++ gather skips stop ss' := by
  have hmodify (g : Reading → Reading) {rs qs : List Reading} (hrs : rs ≠ []) :
      (rs ++ qs).modifyHead g = rs.modifyHead g ++ qs := by
    cases rs with
    | nil => exact absurd rfl hrs
    | cons r rs => rfl
  induction ss with
  | nil => exact ⟨[_], by simp, fun stop ss' => gather_kept ht hk⟩
  | cons r ss ih =>
    obtain ⟨rs, hne, hrs⟩ := ih
    cases hr : r.token? with
    | none =>
      refine ⟨rs.modifyHead (.behind r.diagnostic?.toList []), by simpa using hne,
        fun stop ss' => ?_⟩
      rw [List.cons_append, gather_blank hr, hrs, hmodify _ hne]
    | some u =>
      cases hu : skips u.kind with
      | true =>
        refine ⟨rs.modifyHead (.behind r.diagnostic?.toList [u]), by simpa using hne,
          fun stop ss' => ?_⟩
        rw [List.cons_append, gather_skipped hr hu, hrs, hmodify _ hne]
      | false =>
        refine ⟨⟨.token u, r.diagnostic?.toList, []⟩ :: rs, by simp, fun stop ss' => ?_⟩
        rw [List.cons_append, gather_kept hr hu, hrs, List.cons_append]

/-- The token of a line feed. -/
def lineFeedToken (p : Position) : Token := ⟨.terminator, p, 1⟩

/-- **A line feed cuts the readings of a text in two.** The readings up to it are the same, whatever
stands behind it. -/
theorem exists_gather_newline (p : Position) (h : u.getLast? ≠ some '\r') :
    ∃ rs, rs.map (·.answer.value) =
        ((Segment.ofText p u).filterMap Segment.token?).filter (!·.kind.isTrivia) ++
          [lineFeedToken (p.after u)] ∧
      ∀ stop v, gather TokenKind.isTrivia stop (Segment.ofText p (u ++ '\n' :: v)) =
        rs ++ gather TokenKind.isTrivia stop (Segment.ofText ((p.after u).advance '\n') v) := by
  have hsignificant : TokenKind.isTrivia (lineFeedToken (p.after u)).kind = false := rfl
  obtain ⟨rs, -, hrs⟩ := exists_gather_append (s := Segment.lineFeed (p.after u)) rfl hsignificant
    (Segment.ofText p u)
  refine ⟨rs, ?_, fun stop v => by rw [Segment.ofText_newline p h, hrs]⟩
  have htokens := map_value_gather TokenKind.isTrivia .origin
    (Segment.ofText p u ++ [Segment.lineFeed (p.after u)])
  have hlast : (Segment.lineFeed (p.after u)).token? = some (lineFeedToken (p.after u)) := rfl
  have hkept : (lineFeedToken (p.after u)).kind.isTrivia = false := rfl
  rw [hrs, List.map_append] at htokens
  simpa [hlast, hkept] using List.append_cancel_right htokens

end DeclFront
