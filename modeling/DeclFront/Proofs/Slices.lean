import DeclFront.Proofs.Seams
import DeclFront.Proofs.Tiling

/-!
# Slices that are put elsewhere

If a slice of a text is put elsewhere, the places of its segments follow (`Segment.ofText_rebase`),
and a span covers the characters between its ends (`Source.spanText_eq`).
-/

namespace DeclFront

/-! ## Slices that are put elsewhere -/

namespace Position

/-- Where a place behind `a` comes to stand when `a` comes to stand at `b`. Only on the line of `a`
do the columns change. -/
def rebase (p a b : Position) : Position :=
  ⟨p.offset - a.offset + b.offset, p.line - a.line + b.line,
    if p.line = a.line then p.column - a.column + b.column else p.column⟩

theorem line_le_after (a : Position) (cs : List Char) : a.line ≤ (a.after cs).line ∧
    ((a.after cs).line = a.line → a.column ≤ (a.after cs).column) := by
  induction cs using List.reverseRecOn with
  | nil => exact ⟨Nat.le_refl _, fun _ => Nat.le_refl _⟩
  | append_singleton cs c ih =>
    obtain ⟨hline, hcolumn⟩ := ih
    rw [after_append, after_cons, after_nil, advance]
    split
    · exact ⟨Nat.le_succ_of_le hline, fun h => absurd h (Nat.ne_of_gt (Nat.lt_succ_of_le hline))⟩
    · exact ⟨hline, fun h => Nat.le_succ_of_le (hcolumn h)⟩

theorem rebase_advance {a p : Position} (b : Position) (c : Char) (hoffset : a.offset ≤ p.offset)
    (hline : a.line ≤ p.line) (hcolumn : p.line = a.line → a.column ≤ p.column) :
    (p.advance c).rebase a b = (p.rebase a b).advance c := by
  have hoffset' : p.offset + c.utf8Size - a.offset + b.offset =
      p.offset - a.offset + b.offset + c.utf8Size := by omega
  by_cases hc : c = '\n'
  · have hline' : p.line + 1 - a.line + b.line = p.line - a.line + b.line + 1 := by omega
    have hne : p.line + 1 ≠ a.line := by omega
    simp only [advance, if_pos hc, rebase, hoffset', hline', if_neg hne]
  · simp only [advance, if_neg hc, rebase, hoffset', Position.mk.injEq, true_and]
    by_cases h : p.line = a.line
    · have := hcolumn h
      rw [if_pos h, if_pos h]
      omega
    · rw [if_neg h, if_neg h]

theorem rebase_after (a b : Position) (cs : List Char) : (a.after cs).rebase a b = b.after cs := by
  induction cs using List.reverseRecOn with
  | nil => simp [rebase]
  | append_singleton cs c ih =>
    obtain ⟨hline, hcolumn⟩ := line_le_after a cs
    have hoffset : a.offset ≤ (a.after cs).offset := by
      rw [offset_after]
      exact Nat.le_add_right _ _
    rw [after_append, after_append, ← ih]
    exact rebase_advance b c hoffset hline hcolumn

end Position

def Token.rebase (a b : Position) (t : Token) : Token :=
  { t with position := t.position.rebase a b }

def Diagnostic.rebase (a b : Position) (d : Diagnostic) : Diagnostic :=
  { d with position := d.position.rebase a b }

def Segment.rebase (a b : Position) (s : Segment) : Segment :=
  { s with position := s.position.rebase a b }

theorem Segment.token?_rebase (a b : Position) (s : Segment) :
    (s.rebase a b).token? = s.token?.map (Token.rebase a b) := by
  cases h : s.kind <;> simp [token?, rebase, h, Token.rebase, length]

theorem Segment.diagnostic?_rebase (a b : Position) (s : Segment) :
    (s.rebase a b).diagnostic? = s.diagnostic?.map (Diagnostic.rebase a b) := by
  cases h : s.complaint <;>
    simp [diagnostic?, rebase, h, Diagnostic.rebase, length, Diagnostic.about]

/-- A slice that is put from `a` to `b` has the same segments there. -/
theorem Segment.ofText_rebase (a b : Position) (cs : List Char) :
    ofText b cs = (ofText a cs).map (rebase a b) := by
  refine ofText_induction (P := fun p cs ss => ∀ front, p = a.after front →
    ofText (b.after front) cs = ss.map (rebase a b)) ?_ ?_ a cs [] rfl
  · intro p front _
    rw [ofText_nil]
    rfl
  · intro p c cs ih front hp
    have hstop : (first p c cs).stop = a.after (front ++ (first p c cs).text) := by
      rw [Position.after_append, ← hp]
      rfl
    have hrest := ih _ hstop
    rw [Position.after_append] at hrest
    have hfirst : first (b.after front) c cs = (first p c cs).rebase a b := by
      rw [← Position.rebase_after a b front, ← hp, first]
      rfl
    rw [ofText_cons, List.map_cons, ← hfirst, ← hrest]
    rfl

/-! ## The text of a span -/

theorem exists_pos?_of_isValid {text : String} {n : Nat} (h : String.Pos.Raw.IsValid text ⟨n⟩) :
    ∃ p, text.pos? ⟨n⟩ = some p ∧ p.offset = ⟨n⟩ := by
  have hslice := String.Pos.Raw.isValidForSlice_eq_true_iff.2
    (String.Pos.Raw.isValidForSlice_toSlice_iff.2 h)
  exact ⟨_, by rw [String.pos?, String.Slice.pos?, dif_pos hslice]; rfl, rfl⟩

/-- A span covers the characters between its ends. -/
theorem Source.spanText_eq {s : Source} {before cs behind : List Char}
    (h : s.chars = before ++ cs ++ behind) :
    s.spanText ⟨byteLength before, byteLength (before ++ cs)⟩ = String.ofList cs := by
  have hbefore : before ++ cs <+: s.chars := ⟨behind, h.symm⟩
  obtain ⟨p, hp, hstart⟩ :=
    exists_pos?_of_isValid (isValid_of_isPrefix ((List.prefix_append before cs).trans hbefore))
  obtain ⟨q, hq, hstop⟩ := exists_pos?_of_isValid (isValid_of_isPrefix hbefore)
  have hle : byteLength before ≤ byteLength (before ++ cs) := by
    rw [byteLength_append]
    exact Nat.le_add_right _ _
  have hbetween : s.between? (byteLength before) (byteLength (before ++ cs)) =
      some (String.extract p q) := by
    simp [between?, hp, hq, hle]
  have htext : s.text = String.ofList before ++ (String.ofList cs ++ String.ofList behind) := by
    rw [← String.ofList_append, ← String.ofList_append, ← List.append_assoc, ← h]
    exact String.ofList_toList.symm
  rw [spanText, slice, Span.length, Nat.add_sub_cancel' hle, hbetween, Option.getD_some,
    ← String.toByteArray_inj, String.toByteArray_extract, hstart, hstop, htext,
    String.toByteArray_append, String.toByteArray_append, byteLength_append,
    ← utf8ByteSize_ofList before, ← utf8ByteSize_ofList cs]
  exact (ByteArray.extract_append_size_add (i := 0)).trans (ByteArray.extract_append_eq_left rfl)

theorem Source.spanText_span (s : Source) (t : Token) : s.spanText t.span = s.tokenText t := by
  rw [spanText, Token.span, Span.length, Token.stop, Nat.add_sub_cancel_left, tokenText]

/-- The text of a token is that of its segment. -/
theorem Segment.tokenText_eq {s : Source} {x : Segment} {t : Token}
    (hx : x ∈ ofText .origin s.chars) (ht : x.token? = some t) :
    s.tokenText t = String.ofList x.text := by
  obtain ⟨before, ⟨behind, hbehind⟩, hposition, hstop⟩ := exists_prefix_of_mem hx
  rw [← Source.spanText_span, span_of_token? ht, span, hposition, hstop]
  exact Source.spanText_eq hbehind.symm

theorem tokenText_endOfInput (s : Source) : s.tokenText (endOfInput s.chars) = "" := by
  have hspan : (endOfInput s.chars).span = ⟨byteLength s.chars, byteLength (s.chars ++ [])⟩ := by
    rw [List.append_nil, ← Position.offset_after_origin]
    rfl
  have hchars : s.chars = s.chars ++ [] ++ [] := by simp
  rw [← Source.spanText_span, hspan, Source.spanText_eq hchars, String.ofList_nil]

end DeclFront
