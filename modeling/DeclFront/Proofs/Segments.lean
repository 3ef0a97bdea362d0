import DeclFront.Lexical.Segment

/-!
# The segments of a text

The rule for one segment gives tokens of few kinds: never the end of input or a missing token, and
an invalid one only with a complaint; it gives no token where it complains about a blank, and only
there (`Piece.lawful_scan`). All that the segments of a text have in common is proved by one
induction over the text (`Segment.ofText_induction`), which places each segment behind the one
before.
-/

namespace DeclFront

open Character

/-! ## The rule for one segment -/

namespace Piece

/-- What every piece of a text obeys. -/
structure Lawful (p : Piece) : Prop where
  ne_endOfInput : p.kind ≠ some .endOfInput
  ne_missing : p.kind ≠ some .missing
  complaint_of_invalid : p.kind = some .invalid → p.complaint.isSome
  kind_eq_none_iff : p.kind = none ↔ p.complaint = some .unsupportedWhitespace
  lexical : ∀ code ∈ p.complaint, code.concern = .lexical

theorem lawful_sound {k : TokenKind} {n : Nat}
    (hk : k ≠ .endOfInput ∧ k ≠ .invalid ∧ k ≠ .missing) : (sound k n).Lawful := by
  constructor <;> simp [sound, hk]

theorem ne_of_keyword? {text : List Char} {k : TokenKind} (h : TokenKind.keyword? text = some k) :
    k ≠ .endOfInput ∧ k ≠ .invalid ∧ k ≠ .missing := by
  have hk := List.find?_some h
  cases k <;> simp_all [TokenKind.isKeyword] <;> exact absurd hk.1 (by decide)

theorem lawful_word (c : Char) (cs : List Char) : (word c cs).Lawful := by
  unfold word
  dsimp only
  cases h : TokenKind.keyword? (c :: cs.takeWhile isIdentifierRest) with
  | none => exact lawful_sound (k := .identifier) (by decide)
  | some k => exact lawful_sound (ne_of_keyword? h)

theorem lawful_number (c : Char) (cs : List Char) :
    (sound (Number.scan c cs).2 (Number.scan c cs).1).Lawful := by
  unfold Number.scan
  split
  · exact lawful_sound (k := .integer) (by decide)
  · split
    · exact lawful_sound (k := .integer) (by decide)
    · dsimp only
      split
      · exact lawful_sound (k := .integer) (by decide)
      · exact lawful_sound (k := .decimal) (by decide)

theorem lawful_string (cs : List Char) : (string cs).Lawful := by
  unfold string
  cases StringLiteral.scan cs with
  | mk length closed => cases closed <;> constructor <;> simp [DiagnosticCode.concern]

theorem lawful_rune (cs : List Char) : (rune cs).Lawful := by
  unfold rune
  dsimp only
  split
  · constructor <;> simp [DiagnosticCode.concern]
  · split <;> constructor <;> simp [DiagnosticCode.concern]

theorem isGlyph_of_match? {cs : List Char} {g : GlyphMatch} (h : Glyph.match? cs = some g) :
    g.kind.isGlyph = true := by
  simp only [Glyph.match?, Option.map_eq_some_iff] at h
  obtain ⟨⟨k, spelling⟩, hfind, rfl⟩ := h
  have hmem := List.mem_of_find?_eq_some hfind
  simp only [Glyph.table, List.mem_filterMap] at hmem
  obtain ⟨j, -, hj⟩ := hmem
  cases hglyph : j.isGlyph with
  | false => simp [hglyph] at hj
  | true =>
    simp only [hglyph, if_true, Option.map_eq_some_iff, Prod.mk.injEq] at hj
    obtain ⟨_, _, rfl, _⟩ := hj
    exact hglyph

theorem lawful_glyph {cs : List Char} {g : GlyphMatch} (h : Glyph.match? cs = some g) (n : Nat) :
    (sound g.kind n).Lawful := by
  have hk := isGlyph_of_match? h
  refine lawful_sound ⟨?_, ?_, ?_⟩ <;> intro heq <;> rw [heq] at hk <;> exact absurd hk (by decide)

theorem lawful_scan (c : Char) (cs : List Char) : (scan c cs).Lawful := by
  unfold scan
  split
  · exact lawful_sound (by decide)
  split
  · exact lawful_sound (by decide)
  split
  · exact lawful_sound (by decide)
  split
  · constructor <;> decide
  split
  · exact lawful_sound (by decide)
  split
  · exact lawful_string cs
  split
  · exact lawful_rune cs
  split
  · exact lawful_number c cs
  split
  · exact lawful_word c cs
  split
  · exact lawful_glyph ‹_› _
  · constructor <;> decide

/-- The only complaint about an invalid token is that its character is invalid. -/
theorem complaint_of_scan_invalid {c : Char} {cs : List Char} :
    (scan c cs).kind = some .invalid → (scan c cs).complaint = some .invalidCharacter := by
  have hsound {k : TokenKind} {n : Nat} (hk : (sound k n).Lawful)
      (h : (sound k n).kind = some .invalid) : (sound k n).complaint = some .invalidCharacter :=
    absurd (hk.complaint_of_invalid h) Bool.false_ne_true
  unfold scan
  split
  · exact hsound (lawful_sound (by decide))
  split
  · exact hsound (lawful_sound (by decide))
  split
  · exact hsound (lawful_sound (by decide))
  split
  · simp [unsupported]
  split
  · exact hsound (lawful_sound (by decide))
  split
  · simp [string]
  split
  · simp [rune]
  split
  · exact hsound (lawful_number c cs)
  split
  · exact hsound (lawful_word c cs)
  split
  · exact hsound (lawful_glyph ‹_› _)
  · exact fun _ => rfl

end Piece

/-! ## The whole text -/

namespace Segment

theorem collect_eq (found : List Segment) (p : Position) (cs : List Char) :
    collect found p cs = found.reverse ++ ofText p cs := by
  rw [ofText]
  induction hn : cs.length using Nat.strongRecOn generalizing found p cs with
  | ind n ih =>
    cases cs with
    | nil => simp [collect]
    | cons c cs =>
      have hlt : (cs.drop ((first p c cs).text.length - 1)).length < n := by
        simp only [List.length_drop, ← hn, List.length_cons]
        omega
      rw [collect, collect, ih _ hlt _ _ _ rfl, ih _ hlt [_] _ _ rfl]
      simp

@[simp] theorem ofText_nil (p : Position) : ofText p [] = [] := by simp [ofText, collect]

/-- The first segment of a text, and the segments of what stands behind it. -/
theorem ofText_cons (p : Position) (c : Char) (cs : List Char) :
    ofText p (c :: cs) = first p c cs ::
      ofText (first p c cs).stop (cs.drop (Piece.scan c cs).more) := by
  rw [ofText, collect, collect_eq]
  simp only [first, List.length_cons, List.length_take, Nat.add_sub_cancel, List.reverse_cons,
    List.reverse_nil, List.nil_append, List.singleton_append]
  congr 2
  rcases Nat.le_total (Piece.scan c cs).more cs.length with h | h
  · rw [Nat.min_eq_left h]
  · rw [Nat.min_eq_right h, List.drop_length, List.drop_of_length_le h]

/-- A property of the segments of a text, by following them from the front. -/
theorem ofText_induction {P : Position → List Char → List Segment → Prop} (hnil : ∀ p, P p [] [])
    (hcons : ∀ p c cs, P (first p c cs).stop (cs.drop (Piece.scan c cs).more)
      (ofText (first p c cs).stop (cs.drop (Piece.scan c cs).more)) →
      P p (c :: cs) (first p c cs ::
        ofText (first p c cs).stop (cs.drop (Piece.scan c cs).more)))
    (p : Position) (cs : List Char) : P p cs (ofText p cs) := by
  induction hn : cs.length using Nat.strongRecOn generalizing p cs with
  | ind n ih =>
    cases cs with
    | nil => simpa using hnil p
    | cons c cs =>
      rw [ofText_cons]
      refine hcons p c cs (ih _ ?_ _ _ rfl)
      simp only [List.length_drop, ← hn, List.length_cons]
      omega

/-- Every segment is the first one of a text. -/
theorem exists_first_of_mem {p : Position} {cs : List Char} {s : Segment} (h : s ∈ ofText p cs) :
    ∃ q d ds, s = first q d ds := by
  revert h
  refine ofText_induction (P := fun _ _ ss => s ∈ ss → ∃ q d ds, s = first q d ds)
    (fun p h => by simp at h) (fun p c cs ih h => ?_) p cs
  rcases List.mem_cons.1 h with rfl | h
  · exact ⟨p, c, cs, rfl⟩
  · exact ih h

/-- What every segment of a text obeys. -/
theorem lawful_of_mem {p : Position} {cs : List Char} {s : Segment} (h : s ∈ ofText p cs) :
    (⟨s.kind, s.complaint, 0⟩ : Piece).Lawful := by
  obtain ⟨q, d, ds, rfl⟩ := exists_first_of_mem h
  obtain ⟨hend, hmissing, hinvalid, hblank, hlexical⟩ := Piece.lawful_scan d ds
  exact ⟨hend, hmissing, hinvalid, hblank, hlexical⟩

theorem complaint_of_invalid {p : Position} {cs : List Char} {s : Segment}
    (hs : s ∈ ofText p cs) (h : s.kind = some .invalid) : s.complaint = some .invalidCharacter := by
  obtain ⟨q, d, ds, rfl⟩ := exists_first_of_mem hs
  exact Piece.complaint_of_scan_invalid h

/-- The segments put together give back the text. -/
theorem flatMap_text (p : Position) (cs : List Char) : (ofText p cs).flatMap text = cs := by
  refine ofText_induction (P := fun _ cs ss => ss.flatMap text = cs) (fun _ => rfl)
    (fun p c cs ih => ?_) p cs
  rw [List.flatMap_cons, ih]
  simp [first]

/-! ## Places -/

/-- Behind some of the segments of a text stand the segments of the rest of it. -/
theorem eq_ofText_of_append {p : Position} {cs : List Char} {ss ss' : List Segment}
    (h : ofText p cs = ss ++ ss') :
    ss' = ofText (p.after (ss.flatMap text)) (ss'.flatMap text) := by
  induction ss generalizing p cs with
  | nil => rw [← List.nil_append ss', ← h, flatMap_text]; rfl
  | cons s ss ih =>
    cases cs with
    | nil => simp at h
    | cons c cs =>
      rw [ofText_cons, List.cons_append, List.cons.injEq] at h
      obtain ⟨rfl, h⟩ := h
      rw [List.flatMap_cons, Position.after_append]
      exact ih h

/-- A segment of a text is the first one of what stands behind those in front of it. -/
theorem eq_first_of_append {p : Position} {cs : List Char} {s : Segment} {ss ss' : List Segment}
    (h : ofText p cs = ss ++ s :: ss') :
    ∃ d ds, s = first (p.after (ss.flatMap text)) d ds ∧ d :: ds = s.text ++ ss'.flatMap text := by
  have hrest := eq_ofText_of_append h
  rw [List.flatMap_cons] at hrest
  cases hds : s.text ++ ss'.flatMap text with
  | nil => rw [hds, ofText_nil] at hrest; exact absurd hrest (by simp)
  | cons d ds =>
    rw [hds, ofText_cons] at hrest
    exact ⟨d, ds, (List.cons.inj hrest).1, rfl⟩

@[simp] theorem position_first (p : Position) (c : Char) (cs : List Char) :
    (first p c cs).position = p := rfl

/-- A segment of a text stands behind the text of those in front of it. -/
theorem position_eq_after {p : Position} {cs : List Char} {s : Segment} {ss ss' : List Segment}
    (h : ofText p cs = ss ++ s :: ss') : s.position = p.after (ss.flatMap text) := by
  obtain ⟨d, ds, hs, -⟩ := eq_first_of_append h
  rw [hs, position_first]

theorem offset_le_stop (s : Segment) : s.position.offset ≤ s.stop.offset := by
  rw [stop, Position.offset_after]
  exact Nat.le_add_right _ _

/-- The text behind the first segment ends where the whole text ends. -/
theorem after_stop_first (p : Position) (c : Char) (cs : List Char) :
    (first p c cs).stop.after (cs.drop (Piece.scan c cs).more) = p.after (c :: cs) := by
  rw [stop, ← Position.after_append]
  simp [first]

theorem offset_le_of_mem {p : Position} {cs : List Char} {s : Segment} (h : s ∈ ofText p cs) :
    p.offset ≤ s.position.offset := by
  revert h
  refine ofText_induction (P := fun p _ ss => s ∈ ss → p.offset ≤ s.position.offset)
    (fun _ h => by simp at h) (fun p c cs ih h => ?_) p cs
  rcases List.mem_cons.1 h with rfl | h
  · exact Nat.le_refl _
  · exact Nat.le_trans (offset_le_stop (first p c cs)) (ih h)

theorem stop_le_of_mem {p : Position} {cs : List Char} {s : Segment} (h : s ∈ ofText p cs) :
    s.stop.offset ≤ (p.after cs).offset := by
  revert h
  refine ofText_induction (P := fun p cs ss => s ∈ ss → s.stop.offset ≤ (p.after cs).offset)
    (fun _ h => by simp at h) (fun p c cs ih h => ?_) p cs
  rcases List.mem_cons.1 h with rfl | h
  · rw [← after_stop_first, Position.offset_after _ (cs.drop _)]
    exact Nat.le_add_right _ _
  · exact Nat.le_trans (ih h) (Nat.le_of_eq (by rw [after_stop_first]))

/-- Each segment ends before every later one begins. -/
theorem pairwise_ofText (p : Position) (cs : List Char) :
    (ofText p cs).Pairwise fun s t => s.stop.offset ≤ t.position.offset := by
  refine ofText_induction
    (P := fun _ _ ss => ss.Pairwise fun s t => s.stop.offset ≤ t.position.offset)
    (fun _ => .nil) (fun p c cs ih => ?_) p cs
  exact List.pairwise_cons.2 ⟨fun _ ht => offset_le_of_mem ht, ih⟩

end Segment

end DeclFront
