import DeclFront.Proofs.Shift
import DeclFront.Proofs.Tiling

/-!
# A line feed is a barrier to the reader

No token reaches over a line feed, and none is read differently because of what stands on the other
side of one. A string, a comment or a half glyph in front of it ends there as it would at the end of
the text (`Segment.ofText_newline`), and behind it the reader starts afresh. Only a carriage return
in front would join the line feed, and is left out.

**Theorem (`splits_lexRaw`).** The tokens and the complaints of two texts with a line feed between
them are those of the first, the line feed, and those of the second moved down.
-/

namespace DeclFront

variable {u v : List Char}

namespace Segment

/-- The segments of two texts with a line feed between them. -/
theorem ofText_lines (h : u.getLast? ≠ some '\r') :
    ofText .origin (u ++ '\n' :: v) = ofText .origin u ++ lineFeed (.recount u) ::
      (ofText .origin v).map (shift (lineBytes u) (lineCount u)) := by
  rw [ofText_newline .origin h, Position.advance_after_newline rfl, ofText_shift,
    Position.after_origin]

theorem tokens_lines (h : u.getLast? ≠ some '\r') :
    tokens (u ++ '\n' :: v) = tokens u ++ lineFeedToken (.recount u) ::
      (tokens v).map (Token.shift (lineBytes u) (lineCount u)) := by
  have htoken : token? ∘ shift (lineBytes u) (lineCount u) =
      fun s => s.token?.map (Token.shift (lineBytes u) (lineCount u)) := by
    funext s
    exact token?_shift s
  have hlineFeed : (lineFeed (.recount u)).token? = some (lineFeedToken (.recount u)) := rfl
  rw [tokens, ofText_lines h, List.filterMap_append, List.filterMap_cons_some hlineFeed,
    List.filterMap_map, htoken, ← List.map_filterMap]
  rfl

theorem complaints_lines (h : u.getLast? ≠ some '\r') :
    complaints (u ++ '\n' :: v) = complaints u ++
      (complaints v).map (Diagnostic.shift (lineBytes u) (lineCount u)) := by
  have hdiagnostic : diagnostic? ∘ shift (lineBytes u) (lineCount u) =
      fun s => s.diagnostic?.map (Diagnostic.shift (lineBytes u) (lineCount u)) := by
    funext s
    exact diagnostic?_shift s
  rw [complaints, ofText_lines h, List.filterMap_append, List.filterMap_cons_none rfl,
    List.filterMap_map, hdiagnostic, ← List.map_filterMap]
  rfl

end Segment

theorem endOfInput_lines : endOfInput (u ++ '\n' :: v) =
    (endOfInput v).shift (lineBytes u) (lineCount u) := by
  have hstop : Position.origin.after (u ++ '\n' :: v) =
      (Position.origin.after v).shift (lineBytes u) (lineCount u) := by
    rw [Position.after_append, Position.after_cons, Position.advance_after_newline rfl,
      Position.after_shift]
  rw [endOfInput, hstop]
  rfl

/-- **A line feed is a barrier to the reader.** Two texts with a line feed between them, of which
the first does not end in a carriage return, have the tokens of the first without its end of input,
then the line feed as a terminator of one byte behind the first text, and then the tokens of the
second. These stand as many bytes further as the first text and the line feed have, and one line
further than the first text has line feeds; their columns stay. The complaints go the same way. -/
theorem splits_lexRaw (s t : Source) (name : Option String) (h : s.chars.getLast? ≠ some '\r') :
    (∃ ts, (lexRaw s 0).tokens = ts ++ [endOfInput s.chars] ∧
      (lexRaw ⟨s.text ++ "\n" ++ t.text, name⟩ 0).tokens =
        ts ++ ⟨.terminator, .recount s.chars, 1⟩ ::
          (lexRaw t 0).tokens.map (Token.shift (s.length + 1) (s.chars.count '\n' + 1))) ∧
    (lexRaw ⟨s.text ++ "\n" ++ t.text, name⟩ 0).diagnostics =
      (lexRaw s 0).diagnostics ++
        (lexRaw t 0).diagnostics.map
          (Diagnostic.shift (s.length + 1) (s.chars.count '\n' + 1)) := by
  have hchars : Source.chars ⟨s.text ++ "\n" ++ t.text, name⟩ = s.chars ++ '\n' :: t.chars := by
    simp [Source.chars, String.toList_append]
  rw [Source.length_eq]
  refine ⟨⟨Segment.tokens s.chars, tokens_lexRaw s 0, ?_⟩, ?_⟩
  · rw [tokens_lexRaw, tokens_lexRaw, hchars, Segment.tokens_lines h, endOfInput_lines,
      List.map_append, List.append_assoc]
    rfl
  · simp only [Module.diagnostics_lexRaw_zero, hchars, Segment.complaints_lines h]
    rfl

/-- A line feed behind a backslash in a string that nothing ends, and a rune that nothing ends. -/
theorem splits_lexRaw_open_string :
    let s : Source := ⟨"a \"b\\", none⟩
    let t : Source := ⟨"n\" 'c", none⟩
    s.chars.getLast? ≠ some '\r' ∧
    (∃ ts, (lexRaw s 0).tokens = ts ++ [⟨.endOfInput, ⟨5, 1, 6⟩, 0⟩] ∧
      (lexRaw ⟨"a \"b\\\nn\" 'c", none⟩ 0).tokens =
        ts ++ ⟨.terminator, ⟨5, 1, 6⟩, 1⟩ :: (lexRaw t 0).tokens.map (Token.shift 6 1)) ∧
    (lexRaw ⟨"a \"b\\\nn\" 'c", none⟩ 0).diagnostics =
      (lexRaw s 0).diagnostics ++ (lexRaw t 0).diagnostics.map (Diagnostic.shift 6 1) := by
  intro s t
  have hcr : s.chars.getLast? ≠ some '\r' := by decide
  have h := splits_lexRaw s t none hcr
  have hlength : s.length = 5 := by decide
  have hlines : s.chars.count '\n' = 0 := by decide
  have hplace : Position.recount s.chars = ⟨5, 1, 6⟩ := by decide
  have hend : endOfInput s.chars = ⟨.endOfInput, ⟨5, 1, 6⟩, 0⟩ := by decide
  have htext : s.text ++ "\n" ++ t.text = "a \"b\\\nn\" 'c" := by decide
  rw [hlength, hlines, hplace, hend, htext] at h
  exact ⟨hcr, h⟩

end DeclFront
