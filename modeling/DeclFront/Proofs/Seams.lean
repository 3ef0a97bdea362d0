import DeclFront.Proofs.LongestMatch

/-!
# Cutting a text

A text may be cut at the boundary of two segments, or in front of a line break, and what is in front
of the cut and behind it is read as before. Behind the cut that is plain: each segment is found from
where the one before ends. In front of it, a scanner that looked ahead now meets the end of the
text.

* A lexeme in front of the cut is the longest one still, as there are fewer longer ones
  (`Lexeme.IsLongest.of_append`).
* A string or rune ends with its quote, or it is stopped by a line break or the end of the text. The
cut is then behind the quote, or it stops the literal in the place of the line break.

A cut between a carriage return and a line feed would make two line breaks of one (`Seam`). No
boundary of two segments is such a place, as no line break begins inside a segment
(`Piece.unbroken_scan`).

**Theorem (`Segment.ofText_slice`).** The segments of a slice are those that were there before.

**Theorem (`Segment.ofText_append_of_atLineBreak`).** The segments of a text with a line break
inside are those in front of it and those from it on.
-/

namespace DeclFront

open Character Lexeme

variable {c : Char} {u v w text rest : List Char} {n : Nat}

/-! ## Seams -/

/-- Between the two texts no line break is cut in two. -/
def Seam (u v : List Char) : Prop := u.getLast? = some '\r' → v.head? ≠ some '\n'

namespace Seam

theorem of_suffix (h : Seam u v) (hw : w <:+ u) : Seam w v := by
  obtain ⟨front, rfl⟩ := hw
  intro hlast
  exact h (by rw [List.getLast?_append, hlast]; rfl)

theorem tail (h : Seam (c :: u) v) : Seam u v := h.of_suffix (List.suffix_cons c u)

theorem drop (h : Seam u v) (n : Nat) : Seam (u.drop n) v := h.of_suffix (List.drop_suffix n u)

theorem atLineBreak_append (h : Seam u v) (hne : u ≠ []) :
    atLineBreak (u ++ v) = atLineBreak u := by
  match u with
  | [c] =>
    rw [List.singleton_append, atLineBreak_cons, atLineBreak_cons]
    by_cases hc : c = '\r'
    · have hv : (v.head? == some '\n') = false := beq_eq_false_iff_ne.2 (h (hc ▸ rfl))
      rw [hv]
      rfl
    · rw [beq_eq_false_iff_ne.2 hc, Bool.false_and, Bool.false_and]
  | c :: d :: u => rw [List.cons_append, atLineBreak_cons, atLineBreak_cons]; rfl

end Seam

/-! ## Lexemes -/

theorem Lexeme.IsLexeme.behind {k : TokenKind} {rest' : List Char} (h : IsLexeme k text rest)
    (hbreak : ∀ cs, cs <:+ text → cs ≠ [] → atLineBreak (cs ++ rest') = atLineBreak (cs ++ rest)) :
    IsLexeme k text rest' := by
  cases h with
  | whitespace hne h => exact .whitespace hne h
  | lineFeed => exact .lineFeed
  | lineBreak => exact .lineBreak
  | comment h =>
    refine .comment fun cs hcs hne => ?_
    rw [hbreak cs (hcs.trans ((List.suffix_cons _ _).trans (List.suffix_cons _ _))) hne]
    exact h cs hcs hne
  | keyword h hk hspelling => exact .keyword h hk hspelling
  | identifier h hk => exact .identifier h hk
  | number h => exact .number h
  | glyph hk hspelling => exact .glyph hk hspelling

/-- Inside a lexeme the line breaks are the same in front of a cut and without it. -/
theorem Seam.atLineBreak_suffix (h : Seam (text ++ rest) v) :
    ∀ cs, cs <:+ text → cs ≠ [] → atLineBreak (cs ++ (rest ++ v)) = atLineBreak (cs ++ rest) := by
  intro cs hcs hne
  obtain ⟨front, rfl⟩ := hcs
  rw [List.append_assoc] at h
  rw [← List.append_assoc]
  exact (h.of_suffix (List.suffix_append _ _)).atLineBreak_append (by simp [hne])

/-- The longest lexeme of a text is the longest one of a slice that it fits in. -/
theorem Lexeme.IsLongest.of_append {k : TokenKind} (h : IsLongest k text (rest ++ v))
    (hseam : Seam (text ++ rest) v) : IsLongest k text rest := by
  refine ⟨h.isLexeme.behind fun cs hcs hne => (hseam.atLineBreak_suffix cs hcs hne).symm, ?_⟩
  intro k' text' rest' heq h'
  refine h.length_le k' text' (rest' ++ v) ?_ (h'.behind (Seam.atLineBreak_suffix (heq ▸ hseam)))
  rw [← List.append_assoc, heq, List.append_assoc]

/-- Where no lexeme of a text begins, none of a slice does. -/
theorem Lexeme.BeginsNone.of_append (h : BeginsNone (u ++ v)) (hseam : Seam u v) :
    BeginsNone u := by
  rintro k text rest rfl hlexeme
  exact h k text (rest ++ v) (List.append_assoc _ _ _).symm
    (hlexeme.behind hseam.atLineBreak_suffix)

/-! ## Literals -/

namespace StringLiteral

variable {escaped : Bool}

theorem walk_cons (c : Char) (u : List Char) : walk escaped n (c :: u) =
    if atLineBreak (c :: u) then (n, false)
    else if !escaped && c == '"' then (n + 1, true)
    else walk (!escaped && c == '\\') (n + 1) u := by
  rw [walk]
  cases escaped <;> simp

theorem le_walk : n ≤ (walk escaped n u).1 := by
  induction u generalizing n escaped with
  | nil => exact Nat.le_refl n
  | cons c u ih =>
    rw [walk_cons]
    split
    · exact Nat.le_refl n
    · split
      · exact Nat.le_succ n
      · exact Nat.le_of_succ_le ih

/-- A string that goes no further is not closed. -/
theorem walk_of_le (h : (walk escaped n u).1 ≤ n) : walk escaped n u = (n, false) := by
  cases u with
  | nil => rfl
  | cons c u =>
    rw [walk_cons] at h ⊢
    by_cases hbreak : atLineBreak (c :: u)
    · rw [if_pos hbreak]
    rw [if_neg hbreak] at h
    by_cases hquote : (!escaped && c == '"') = true
    · rw [if_pos hquote] at h
      exact absurd h (Nat.not_succ_le_self n)
    · rw [if_neg hquote] at h
      exact absurd (Nat.le_trans le_walk h) (Nat.not_succ_le_self n)

/-- A string is read in every slice that it fits in. -/
theorem walk_append (hfit : (walk escaped n (u ++ v)).1 ≤ n + u.length) (hseam : Seam u v) :
    walk escaped n u = walk escaped n (u ++ v) := by
  induction u generalizing n escaped with
  | nil => exact (walk_of_le hfit).symm
  | cons c u ih =>
    rw [List.cons_append, walk_cons] at hfit ⊢
    rw [walk_cons, ← List.cons_append, hseam.atLineBreak_append (List.cons_ne_nil c u)] at *
    by_cases hbreak : atLineBreak (c :: u)
    · rw [if_pos hbreak, if_pos hbreak]
    rw [if_neg hbreak] at hfit ⊢
    rw [if_neg hbreak]
    by_cases hquote : (!escaped && c == '"') = true
    · rw [if_pos hquote, if_pos hquote]
    · rw [if_neg hquote] at hfit ⊢
      rw [if_neg hquote]
      exact ih (by rw [List.length_cons] at hfit; omega) hseam.tail

end StringLiteral

namespace RuneLiteral

variable {e e' : Escape} {r : Nat}

theorem le_walk : n ≤ (walk e n r u).length := by
  induction u generalizing n r e with
  | nil => exact Nat.le_refl n
  | cons c u ih =>
    rw [walk]
    cases e.next? c u with
    | some e' => exact Nat.le_of_succ_le ih
    | none =>
      dsimp only
      split
      · exact Nat.le_succ n
      · split
        · exact Nat.le_refl n
        · exact Nat.le_of_succ_le ih

/-- A rune that goes no further is not closed. -/
theorem walk_of_le (h : (walk e n r u).length ≤ n) : walk e n r u = ⟨n, r, false⟩ := by
  have hfar {e : Escape} {r : Nat} {u : List Char} (h : (walk e (n + 1) r u).length ≤ n) : False :=
    absurd (Nat.le_trans le_walk h) (Nat.not_succ_le_self n)
  cases u with
  | nil => rfl
  | cons c u =>
    rw [walk] at h ⊢
    cases hnext : e.next? c u with
    | some e' => exact (hfar (hnext ▸ h)).elim
    | none =>
      rw [hnext] at h
      dsimp only at h ⊢
      by_cases hquote : (c == '\'') = true
      · rw [if_pos hquote] at h
        exact absurd h (Nat.not_succ_le_self n)
      rw [if_neg hquote] at h ⊢
      by_cases hbreak : atLineBreak (c :: u)
      · rw [if_pos hbreak]
      · rw [if_neg hbreak] at h
        exact (hfar h).elim

/-- The brace of an escape by code is the next character. -/
theorem head?_of_next? (h : e.next? c u = some e') : e' = .beforeBrace → u.head? = some '{' := by
  rintro rfl
  cases e <;> simp only [Escape.next?] at h
  · simp at h
  · split at h
    · simp_all
    · split at h <;> simp at h
  · simp at h
  · split at h
    · simp at h
    · split at h <;> simp at h

/-- An escape looks at one further character only for its brace. -/
theorem next?_append (h : u ≠ [] ∨ e.next? c (u ++ v) ≠ some .beforeBrace) :
    e.next? c u = e.next? c (u ++ v) := by
  cases u with
  | nil =>
    have h := h.resolve_left (not_not.2 rfl)
    cases e with
    | backslash =>
      rw [List.nil_append] at h ⊢
      simp only [Escape.next?] at h ⊢
      split at h
      · exact absurd rfl h
      · next hbrace =>
        rw [if_neg hbrace]
        simp
    | _ => rfl
  | cons d u => cases e <;> rfl

/-- A rune is read in every slice that it fits in. -/
theorem walk_append (hfit : (walk e n r (u ++ v)).length ≤ n + u.length) (hseam : Seam u v) :
    walk e n r u = walk e n r (u ++ v) := by
  induction u generalizing n r e with
  | nil => exact (walk_of_le hfit).symm
  | cons c u ih =>
    have hlength : n + (c :: u).length = n + 1 + u.length := by rw [List.length_cons]; omega
    have hbreak := hseam.atLineBreak_append (List.cons_ne_nil c u)
    rw [List.cons_append] at hbreak hfit ⊢
    rw [hlength, walk] at hfit
    have hnext : e.next? c u = e.next? c (u ++ v) := by
      refine next?_append (or_iff_not_imp_left.2 fun hu hbrace => ?_)
      rw [not_not] at hu
      subst hu
      -- The brace behind the cut belongs to the escape, so the rune does not fit.
      obtain ⟨v, rfl⟩ := List.head?_eq_some_iff.1 (head?_of_next? hbrace rfl)
      rw [hbrace] at hfit
      have hover : n + 2 ≤ (walk .beforeBrace (n + 1) r ('{' :: v)).length := le_walk
      exact absurd (Nat.le_trans hover hfit) (Nat.not_succ_le_self (n + 1))
    rw [walk, walk, hnext, hbreak]
    cases hstep : e.next? c (u ++ v) with
    | some e' =>
      rw [hstep] at hfit
      exact ih hfit hseam.tail
    | none =>
      rw [hstep, hbreak] at hfit
      dsimp only at hfit ⊢
      split
      · rfl
      · next hquote =>
        rw [if_neg hquote] at hfit
        split
        · rfl
        · next hline =>
          rw [if_neg hline] at hfit
          exact ih hfit hseam.tail

end RuneLiteral

/-! ## Line breaks inside a segment -/

/-- No line break begins with the character. -/
def BreaksNoLine (c : Char) : Prop := c ≠ '\n' ∧ c ≠ '\r'

instance (c : Char) : Decidable (BreaksNoLine c) := inferInstanceAs (Decidable (_ ∧ _))

theorem BreaksNoLine.atLineBreak (h : BreaksNoLine c) : atLineBreak (c :: rest) = false := by
  rw [atLineBreak_cons, beq_eq_false_iff_ne.2 h.1, beq_eq_false_iff_ne.2 h.2]
  rfl

/-- No line break begins in the text, which is followed by `rest`. -/
def Unbroken (text rest : List Char) : Prop :=
  ∀ cs, cs <:+ text → cs ≠ [] → atLineBreak (cs ++ rest) = false

namespace Unbroken

theorem nil : Unbroken [] rest := fun _ hcs hne => absurd (List.suffix_nil.1 hcs) hne

theorem cons (hc : atLineBreak (c :: (text ++ rest)) = false) (h : Unbroken text rest) :
    Unbroken (c :: text) rest := by
  intro cs hcs hne
  rcases List.suffix_cons_iff.1 hcs with rfl | hcs
  · exact hc
  · exact h cs hcs hne

theorem of_forall (h : ∀ d ∈ text, BreaksNoLine d) : Unbroken text rest := by
  induction text with
  | nil => exact nil
  | cons c text ih =>
    obtain ⟨hc, h⟩ := List.forall_mem_cons.1 h
    exact cons hc.atLineBreak (ih h)

/-- A line feed behind the text does not complete a line break. -/
theorem seam (h : Unbroken text rest) : Seam text rest := by
  intro hlast hrest
  obtain ⟨front, rfl⟩ := List.getLast?_eq_some_iff.1 hlast
  obtain ⟨rest, rfl⟩ := List.head?_eq_some_iff.1 hrest
  exact Bool.noConfusion (h ['\r'] (List.suffix_append _ _) (List.cons_ne_nil _ _))

end Unbroken

/-- A string goes on to a line break and not over it. -/
theorem StringLiteral.unbroken_of_walk {e : Bool}
    (h : n + text.length ≤ (walk e n (text ++ rest)).1) : Unbroken text rest := by
  induction text generalizing n e with
  | nil => exact .nil
  | cons c text ih =>
    rw [List.cons_append, walk_cons, List.length_cons] at h
    by_cases hbreak : atLineBreak (c :: (text ++ rest)) = true
    · rw [if_pos hbreak] at h
      omega
    rw [if_neg hbreak] at h
    refine .cons (by simpa using hbreak) ?_
    by_cases hquote : (!e && c == '"') = true
    · rw [if_pos hquote] at h
      obtain rfl : text = [] := List.length_eq_zero_iff.1 (by dsimp only at h; omega)
      exact .nil
    · rw [if_neg hquote] at h
      exact ih (Nat.le_trans (Nat.le_of_eq (Nat.add_right_comm n 1 _)) h)

/-- No escape takes a character that may begin a line break. -/
theorem RuneLiteral.breaksNoLine_of_next? {e e' : Escape} (h : e.next? c u = some e')
    (he : e = .beforeBrace → c = '{') : BreaksNoLine c := by
  cases e with
  | beforeBrace => rw [he rfl]; decide
  | _ => constructor <;> rintro rfl <;> simp [Escape.next?, isHexDigit] at h

/-- A rune goes on to a line break and not over it. -/
theorem RuneLiteral.unbroken_of_walk {e : Escape} {r : Nat}
    (h : n + text.length ≤ (walk e n r (text ++ rest)).length)
    (he : e = .beforeBrace → (text ++ rest).head? = some '{') : Unbroken text rest := by
  induction text generalizing n r e with
  | nil => exact .nil
  | cons c text ih =>
    have hlength : n + 1 + text.length ≤ n + (c :: text).length :=
      Nat.le_of_eq (Nat.add_right_comm n 1 _)
    rw [List.cons_append] at h he
    rw [walk] at h
    cases hnext : e.next? c (text ++ rest) with
    | some e' =>
      rw [hnext] at h
      dsimp only at h
      have hc := breaksNoLine_of_next? hnext fun heq => Option.some.inj (he heq)
      exact .cons hc.atLineBreak (ih (Nat.le_trans hlength h) (head?_of_next? hnext))
    | none =>
      rw [hnext] at h
      dsimp only at h
      by_cases hquote : (c == '\'') = true
      · rw [if_pos hquote] at h
        have hlength : text.length = 0 := by
          dsimp only at h
          rw [List.length_cons] at h
          omega
        obtain rfl := List.eq_nil_of_length_eq_zero hlength
        rw [beq_iff_eq.1 hquote]
        exact .of_forall (List.forall_mem_singleton.2 (by decide))
      rw [if_neg hquote] at h
      by_cases hbreak : atLineBreak (c :: (text ++ rest)) = true
      · rw [if_pos hbreak] at h
        rw [List.length_cons] at h
        dsimp only at h
        omega
      rw [if_neg hbreak] at h
      have hopen : (if c == '\\' then Escape.backslash else .idle) = .beforeBrace →
          (text ++ rest).head? = some '{' := by
        split <;> simp
      exact .cons (by simpa using hbreak) (ih (Nat.le_trans hlength h) hopen)

namespace Lexeme

variable {k : TokenKind}

theorem IsWord.breaksNoLine (h : IsWord text) : ∀ d ∈ text, BreaksNoLine d := by
  cases h with
  | mk hc hcs =>
    refine List.forall_mem_cons.2 ⟨?_, fun d hd => ?_⟩
    · constructor <;> rintro rfl <;> exact absurd (isWordStart_iff.1 hc) (by decide)
    · constructor <;> rintro rfl <;> exact absurd (isWordRest_iff.1 (hcs _ hd)) (by decide)

theorem IsSuffix.breaksNoLine (h : IsSuffix text) : ∀ d ∈ text, BreaksNoLine d := by
  cases h with
  | absent => simp
  | present hletter _ hdigits =>
    refine List.forall_mem_cons.2 ⟨?_, fun d hd => ?_⟩
    · constructor <;> rintro rfl <;> exact absurd hletter (by decide)
    · constructor <;> rintro rfl <;> exact absurd (hdigits _ hd) (by decide)

theorem IsPlace.breaksNoLine (h : IsPlace c) : BreaksNoLine c := by
  constructor <;> rintro rfl <;> simp [IsPlace] at h

theorem IsNumber.breaksNoLine (h : IsNumber k text) : ∀ d ∈ text, BreaksNoLine d := by
  have hdigit {d : Char} (hd : d.isDigit = true) : BreaksNoLine d := IsPlace.breaksNoLine (.inl hd)
  cases h with
  | @hexadecimal mark _ _ hmark _ hplaces hsuffix =>
    have hmark : BreaksNoLine mark := by rcases hmark with rfl | rfl <;> decide
    have hplace {d : Char} (hd : IsHexPlace d) : BreaksNoLine d := by
      constructor <;> rintro rfl <;> exact absurd (Number.isHexPlace_iff.1 hd) (by decide)
    exact List.forall_mem_append.2 ⟨List.forall_mem_cons.2 ⟨by decide,
      List.forall_mem_cons.2 ⟨hmark, fun d hd => hplace (hplaces d hd)⟩⟩, hsuffix.breaksNoLine⟩
  | @binary mark _ _ hmark _ hplaces hsuffix =>
    have hmark : BreaksNoLine mark := by rcases hmark with rfl | rfl <;> decide
    have hplace {d : Char} (hd : IsBinaryPlace d) : BreaksNoLine d := by
      rcases hd with rfl | rfl | rfl <;> decide
    exact List.forall_mem_append.2 ⟨List.forall_mem_cons.2 ⟨by decide,
      List.forall_mem_cons.2 ⟨hmark, fun d hd => hplace (hplaces d hd)⟩⟩, hsuffix.breaksNoLine⟩
  | whole hd hplaces hsuffix =>
    exact List.forall_mem_append.2 ⟨List.forall_mem_cons.2
      ⟨hdigit hd, fun d hd => (hplaces d hd).breaksNoLine⟩, hsuffix.breaksNoLine⟩
  | fraction hd hplaces hd' hplaces' hsuffix =>
    refine List.forall_mem_append.2 ⟨List.forall_mem_append.2 ⟨List.forall_mem_cons.2
      ⟨hdigit hd, fun d hd => (hplaces d hd).breaksNoLine⟩, List.forall_mem_cons.2 ⟨by decide,
      List.forall_mem_cons.2 ⟨hdigit hd', fun d hd => (hplaces' d hd).breaksNoLine⟩⟩⟩,
      hsuffix.breaksNoLine⟩

/-- The texts of terminators. -/
theorem IsLexeme.eq_of_terminator (h : IsLexeme .terminator text rest) :
    text = ['\n'] ∨ text = ['\r', '\n'] ∨ text = [';'] := by
  cases h with
  | lineFeed => exact .inl rfl
  | lineBreak => exact .inr (.inl rfl)
  | keyword _ hk _ => exact absurd hk (by decide)
  | number h => cases h
  | glyph _ hspelling => exact .inr (.inr (Option.some.inj hspelling).symm)

/-- Only a terminator has a line break inside. -/
theorem IsLexeme.unbroken (h : IsLexeme k text rest) (hk : k ≠ .terminator) :
    Unbroken text rest := by
  cases h with
  | whitespace _ h => exact .of_forall fun d hd => by rcases h d hd with rfl | rfl <;> decide
  | lineFeed => exact absurd rfl hk
  | lineBreak => exact absurd rfl hk
  | comment h =>
    exact .cons (BreaksNoLine.atLineBreak (by decide))
      (.cons (BreaksNoLine.atLineBreak (by decide)) h)
  | keyword h _ _ => exact .of_forall h.breaksNoLine
  | identifier h _ => exact .of_forall h.breaksNoLine
  | number h => exact .of_forall h.breaksNoLine
  | glyph hk hspelling =>
    have hall : (Glyph.table.all fun e => e.2.all fun d => decide (BreaksNoLine d)) = true := by
      decide +kernel
    simp only [List.all_eq_true, decide_eq_true_eq] at hall
    exact .of_forall (hall _ (mem_table.2 ⟨hk, hspelling⟩))

end Lexeme

/-! ## Segments -/

namespace Piece

theorem string_append (hfit : (string (u ++ v)).more ≤ u.length) (hseam : Seam u v) :
    string u = string (u ++ v) := by
  have hwalk : StringLiteral.scan u = StringLiteral.scan (u ++ v) :=
    StringLiteral.walk_append (by rwa [Nat.zero_add]) hseam
  rw [string, string, hwalk]

theorem rune_append (hfit : (rune (u ++ v)).more ≤ u.length) (hseam : Seam u v) :
    rune u = rune (u ++ v) := by
  have hwalk : RuneLiteral.scan u = RuneLiteral.scan (u ++ v) :=
    RuneLiteral.walk_append (by rwa [Nat.zero_add]) hseam
  rw [rune, rune, hwalk]

/-- Where no token is read, none is read in a slice. -/
theorem scan_append_of_single {piece : Piece} (hpiece : piece = .unsupported ∨ piece = .invalid)
    (hquote : c ≠ '"') (hapostrophe : c ≠ '\'') (hscan : scan c (u ++ v) = piece)
    (hblank : IsForbiddenBlank c ↔ piece = .unsupported) (hseam : Seam (c :: u) v) :
    scan c u = piece := by
  have hnone : BeginsNone (c :: (u ++ v)) := beginsNone_of_scan fun k n h => by
    rcases hpiece with rfl | rfl <;> simp [hscan, unsupported, invalid, sound] at h
  have hnone : BeginsNone (c :: u) := hnone.of_append hseam
  rcases scan_cases hquote hapostrophe u with ⟨k, n, -, hlexeme⟩ | ⟨h, hc⟩ | ⟨h, hc⟩
  · exact absurd hlexeme (hnone k _ _ (by simp))
  · rw [h, hblank.1 hc]
  · rw [h, hpiece.resolve_left (mt hblank.2 hc)]

/-- What a segment is does not depend on what stands behind a slice that it fits in. -/
theorem scan_append (hfit : (scan c (u ++ v)).more ≤ u.length) (hseam : Seam (c :: u) v) :
    scan c u = scan c (u ++ v) := by
  by_cases hquote : c = '"'
  · subst hquote
    rw [scan_quote] at hfit ⊢
    rw [scan_quote]
    exact string_append hfit hseam.tail
  by_cases hapostrophe : c = '\''
  · subst hapostrophe
    rw [scan_apostrophe] at hfit ⊢
    rw [scan_apostrophe]
    exact rune_append hfit hseam.tail
  rcases scan_cases hquote hapostrophe (u ++ v) with ⟨k, n, hscan, -⟩ | ⟨hscan, hc⟩ | ⟨hscan, hc⟩
  · have hn : n ≤ u.length := by rwa [hscan] at hfit
    have hlongest := isLongest_scan hquote hapostrophe hscan
    rw [List.take_append_of_le_length hn, List.drop_append_of_le_length hn] at hlongest
    have hslice := scan_of_isLongest (hlongest.of_append (by simpa using hseam))
    rw [List.take_append_drop, List.length_take, Nat.min_eq_left hn] at hslice
    rw [hslice, hscan]
  · rw [hscan]
    exact scan_append_of_single (.inl rfl) hquote hapostrophe hscan (by simp [hc]) hseam
  · rw [hscan]
    exact scan_append_of_single (.inr rfl) hquote hapostrophe hscan
      (by simp [hc, unsupported, invalid]) hseam

/-- What begins with a line break is a terminator. -/
theorem kind_scan_of_atLineBreak {cs : List Char} (h : atLineBreak (c :: cs) = true) :
    (scan c cs).kind = some .terminator := by
  rw [atLineBreak_cons, Bool.or_eq_true, Bool.and_eq_true, beq_iff_eq, beq_iff_eq, beq_iff_eq] at h
  rcases h with rfl | ⟨rfl, hhead⟩
  · rfl
  · obtain ⟨cs, rfl⟩ := List.head?_eq_some_iff.1 hhead
    rfl

/-- No line break begins in a segment that is none. -/
theorem unbroken_scan {cs : List Char} (h : (scan c cs).kind ≠ some .terminator) :
    Unbroken (c :: cs.take (scan c cs).more) (cs.drop (scan c cs).more) := by
  have hlength : 0 + (cs.take (scan c cs).more).length ≤ (scan c cs).more := by
    rw [Nat.zero_add]
    exact List.length_take_le _ _
  by_cases hquote : c = '"'
  · subst hquote
    refine .cons (BreaksNoLine.atLineBreak (by decide))
      (StringLiteral.unbroken_of_walk (n := 0) (e := false) ?_)
    rwa [List.take_append_drop, ← StringLiteral.scan]
  by_cases hapostrophe : c = '\''
  · subst hapostrophe
    refine .cons (BreaksNoLine.atLineBreak (by decide))
      (RuneLiteral.unbroken_of_walk (n := 0) (r := 0) (e := .idle) ?_ (fun he => by cases he))
    rwa [List.take_append_drop, ← RuneLiteral.scan]
  have hsingle : Unbroken [c] cs :=
    .cons (Bool.eq_false_iff.2 fun hbreak => h (kind_scan_of_atLineBreak hbreak)) .nil
  rcases scan_cases hquote hapostrophe cs with ⟨k, n, hscan, hlexeme⟩ | ⟨hscan, -⟩ | ⟨hscan, -⟩
  · rw [hscan] at h ⊢
    exact hlexeme.unbroken fun hk => h (congrArg some hk)
  · rw [hscan]
    exact hsingle
  · rw [hscan]
    exact hsingle

/-- What is read as a terminator is one. -/
theorem isLexeme_of_terminator {cs : List Char} (h : (scan c cs).kind = some .terminator) :
    IsLexeme .terminator (c :: cs.take (scan c cs).more) (cs.drop (scan c cs).more) := by
  have hquote : ¬ IsQuote c := by
    intro hquote
    rw [kind_scan_of_isQuote hquote] at h
    split at h <;> cases h
  obtain ⟨hdouble, hsingle⟩ := not_or.1 hquote
  rcases scan_cases hdouble hsingle cs with ⟨k, n, hscan, hlexeme⟩ | ⟨hscan, -⟩ | ⟨hscan, -⟩
  · rw [hscan] at h ⊢
    obtain rfl := Option.some.inj h
    exact hlexeme
  · rw [hscan] at h
    cases h
  · rw [hscan] at h
    cases h

/-- Segments do not cut line breaks in two. -/
theorem seam_scan (c : Char) (cs : List Char) :
    Seam (c :: cs.take (scan c cs).more) (cs.drop (scan c cs).more) := by
  by_cases h : (scan c cs).kind = some .terminator
  · intro hlast
    rcases (isLexeme_of_terminator h).eq_of_terminator with htext | htext | htext <;>
      · rw [htext] at hlast
        exact absurd hlast (by decide)
  · exact (unbroken_scan h).seam

/-- A segment that begins in front of a line break ends in front of it. -/
theorem more_le_of_atLineBreak {cs : List Char} (hw : atLineBreak w = true)
    (hseam : Seam (c :: cs) w) : (scan c (cs ++ w)).more ≤ cs.length := by
  by_contra hover
  have hlt : cs.length < (scan c (cs ++ w)).more := Nat.lt_of_not_le hover
  -- What the segment has of the line break.
  obtain ⟨d, ds, hds⟩ : ∃ d ds, w.take ((scan c (cs ++ w)).more - cs.length) = d :: ds := by
    refine List.exists_cons_of_ne_nil fun hnil => ?_
    rcases List.take_eq_nil_iff.1 hnil with hzero | rfl
    · omega
    · exact absurd hw (by decide)
  have htake : (cs ++ w).take (scan c (cs ++ w)).more = cs ++ d :: ds := by
    rw [List.take_append, List.take_of_length_le (Nat.le_of_lt hlt), hds]
  have hdrop : (d :: ds) ++ (cs ++ w).drop (scan c (cs ++ w)).more = w := by
    rw [← hds, List.drop_append, List.drop_of_length_le (Nat.le_of_lt hlt), List.nil_append,
      List.take_append_drop]
  by_cases h : (scan c (cs ++ w)).kind = some .terminator
  · have htext := (isLexeme_of_terminator h).eq_of_terminator
    rw [htake] at htext
    rcases htext with htext | htext | htext
    · simp at htext
    · obtain ⟨rfl, rfl, rfl, rfl⟩ : c = '\r' ∧ cs = [] ∧ d = '\n' ∧ ds = [] := by
        cases cs <;> simp_all
      exact hseam rfl (by rw [← hdrop]; rfl)
    · simp at htext
  · have hbreak := unbroken_scan h (d :: ds)
      (htake ▸ (List.suffix_append cs _).trans (List.suffix_cons c _)) (List.cons_ne_nil d ds)
    rw [hdrop, hw] at hbreak
    exact Bool.noConfusion hbreak

/-- What a segment is does not depend on what stands behind the line. -/
theorem scan_append_of_atLineBreak {cs : List Char} (hw : atLineBreak w = true)
    (hseam : Seam (c :: cs) w) : scan c (cs ++ w) = scan c cs :=
  (scan_append (more_le_of_atLineBreak hw hseam) hseam).symm

end Piece

namespace Segment

variable {p : Position} {ss ss' : List Segment}

/-- A boundary between two segments is a seam. -/
theorem seam_of_append (h : ofText p (u ++ v) = ss ++ ss') (hu : ss.flatMap Segment.text = u) :
    Seam u v := by
  subst hu
  cases hlast : ss.reverse with
  | nil => simp [List.reverse_eq_nil_iff.1 hlast, Seam]
  | cons s back =>
    obtain rfl : ss = back.reverse ++ [s] := by rw [← List.reverse_reverse ss, hlast]; simp
    have hv : v = ss'.flatMap Segment.text := by
      have htext := flatMap_text p ((back.reverse ++ [s]).flatMap Segment.text ++ v)
      rw [h, List.flatMap_append] at htext
      exact (List.append_cancel_left htext).symm
    rw [List.append_assoc, List.singleton_append] at h
    obtain ⟨d, ds, rfl, hds⟩ := eq_first_of_append h
    intro hlast hhead
    have hseam := Piece.seam_scan d ds
    have htext : ss'.flatMap Segment.text = ds.drop (Piece.scan d ds).more := by
      have hds := (List.cons.inj hds).2
      exact (List.append_cancel_left ((List.take_append_drop _ ds).trans hds)).symm
    rw [← htext, ← hv] at hseam
    refine hseam ?_ hhead
    rw [List.flatMap_append, List.flatMap_singleton, first, List.getLast?_append] at hlast
    simpa using hlast

/-- **Slices.** The segments of a text up to a boundary between two of them are the segments of the
text cut there. -/
theorem ofText_slice (h : ofText p (u ++ v) = ss ++ ss') (hu : ss.flatMap Segment.text = u) :
    ofText p u = ss := by
  have hseam := seam_of_append h hu
  induction ss generalizing p u with
  | nil =>
    obtain rfl : [] = u := hu
    exact ofText_nil p
  | cons s ss ih =>
    cases u with
    | nil =>
      have hne : s.text ≠ [] := by
        obtain ⟨q, d, ds, hs⟩ := exists_first_of_mem (h ▸ List.mem_append_left _ List.mem_cons_self)
        rw [hs]
        exact List.cons_ne_nil _ _
      exact absurd (List.append_eq_nil_iff.1 hu).1 hne
    | cons c u =>
      rw [List.cons_append, ofText_cons, List.cons_append, List.cons.injEq] at h
      obtain ⟨rfl, hrest⟩ := h
      have htext : (u ++ v).take (Piece.scan c (u ++ v)).more ++ ss.flatMap Segment.text = u :=
        (List.cons.inj hu).2
      have hfit : (Piece.scan c (u ++ v)).more ≤ u.length := by
        have hmore := Piece.more_le c (u ++ v)
        have hlength := congrArg List.length htext
        rw [List.length_append, List.length_take, Nat.min_eq_left hmore] at hlength
        exact Nat.le_of_add_right_le (Nat.le_of_eq hlength)
      have hscan := Piece.scan_append hfit hseam
      have htake :
          (u ++ v).take (Piece.scan c (u ++ v)).more = u.take (Piece.scan c (u ++ v)).more :=
        List.take_append_of_le_length hfit
      rw [htake] at htext
      have hdrop : ss.flatMap Segment.text = u.drop (Piece.scan c (u ++ v)).more :=
        List.append_cancel_left (htext.trans (List.take_append_drop _ _).symm)
      rw [List.drop_append_of_le_length hfit] at hrest
      have hfirst : first p c u = first p c (u ++ v) := by rw [first, first, hscan, htake]
      rw [ofText_cons, hscan, hfirst]
      exact congrArg _ (ih hrest hdrop (hseam.tail.drop _))

/-- **Line breaks.** The segments of a text with a line break inside are those of the text in front
of it and those of the text from it on. -/
theorem ofText_append_of_atLineBreak (hw : atLineBreak w = true) (p : Position) (hseam : Seam u w) :
    ofText p (u ++ w) = ofText p u ++ ofText (p.after u) w := by
  revert hseam
  refine ofText_induction (P := fun p u ss => Seam u w →
    ofText p (u ++ w) = ss ++ ofText (p.after u) w) (fun p _ => rfl) (fun p c cs ih hseam => ?_) p u
  have hscan := Piece.scan_append_of_atLineBreak hw hseam
  have hfirst : first p c (cs ++ w) = first p c cs := by
    rw [first, first, hscan, List.take_append_of_le_length (Piece.more_le c cs)]
  rw [List.cons_append, ofText_cons, hfirst, hscan,
    List.drop_append_of_le_length (Piece.more_le c cs), ih (hseam.tail.drop _), after_stop_first,
    List.cons_append]

end Segment

end DeclFront
