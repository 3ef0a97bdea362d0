import DeclFront.Proofs.Segments

/-!
# How far a segment reaches

Every scanner passes characters that are there, so a segment does not reach behind the end of its
text (`Piece.more_le`). What else a scanner asks for is how the text goes on; a line break is told
by one character or two.
-/

namespace DeclFront

open Character

variable {c : Char} {u : List Char} {n : Nat}

theorem atLineBreak_cons (c : Char) (cs : List Char) :
    atLineBreak (c :: cs) = (c == '\n' || c == '\r' && cs.head? == some '\n') := by
  cases cs with
  | nil => unfold atLineBreak; split <;> simp_all
  | cons d cs => unfold atLineBreak; split <;> simp_all

/-! ## Scanners -/

theorem untilLineBreak_le : Piece.untilLineBreak n u ≤ n + u.length := by
  induction u generalizing n with
  | nil => exact Nat.le_refl _
  | cons c u ih =>
    rw [Piece.untilLineBreak, List.length_cons]
    split
    · omega
    · exact Nat.le_trans ih (by omega)

namespace StringLiteral

theorem walk_le {escaped : Bool} : (walk escaped n u).1 ≤ n + u.length := by
  induction u generalizing n escaped with
  | nil => exact Nat.le_refl _
  | cons c u ih =>
    have hle {escaped : Bool} : (walk escaped (n + 1) u).1 ≤ n + (u.length + 1) :=
      Nat.le_trans ih (by omega)
    rw [walk, List.length_cons]
    split
    · exact Nat.le_add_right _ _
    · split
      · exact hle
      · split
        · simp only; omega
        · exact hle

end StringLiteral

namespace RuneLiteral

theorem walk_le {e : Escape} {k : Nat} : (walk e n k u).length ≤ n + u.length := by
  induction u generalizing n k e with
  | nil => exact Nat.le_refl _
  | cons c u ih =>
    have hle {e : Escape} {k : Nat} : (walk e (n + 1) k u).length ≤ n + (u.length + 1) :=
      Nat.le_trans ih (by omega)
    rw [walk, List.length_cons]
    split
    · exact hle
    · split
      · simp only; omega
      · split
        · exact Nat.le_add_right _ _
        · exact hle

end RuneLiteral

namespace Number

theorem run_le (p : Char → Bool) (cs : List Char) : run p cs ≤ cs.length :=
  (List.takeWhile_sublist p).length_le

theorem two_le_of_opensRadix {m : Char} {p : Char → Bool} (h : opensRadix m p u = true) :
    2 ≤ u.length := by
  match u with
  | [] | [_] => simp [opensRadix] at h
  | _ :: _ :: _ => simp

theorem suffixLength_le : suffixLength u ≤ u.length := by
  match u with
  | [] | [_] => simp [suffixLength]
  | c :: d :: u =>
    have := run_le Char.isDigit (d :: u)
    simp only [suffixLength, List.length_cons] at this ⊢
    split <;> omega

theorem fractionLength_le : fractionLength u ≤ u.length := by
  unfold fractionLength
  split
  · rename_i d ds
    have := run_le (orSeparator Char.isDigit) (d :: ds)
    simp only [List.length_cons] at this ⊢
    split <;> omega
  · exact Nat.zero_le _

theorem withSuffix_le (h : n ≤ u.length) : withSuffix n u ≤ u.length := by
  have := suffixLength_le (u := u.drop n)
  rw [withSuffix]
  rw [List.length_drop] at this
  omega

/-- A number in a radix reaches over its mark and digits. -/
theorem radix_le {m : Char} {p : Char → Bool} (h : opensRadix m p u = true) :
    withSuffix (1 + run (orSeparator p) (u.drop 1)) u ≤ u.length := by
  have htwo := two_le_of_opensRadix h
  have hrun := run_le (orSeparator p) (u.drop 1)
  rw [List.length_drop] at hrun
  exact withSuffix_le (by omega)

theorem scan_le : (scan c u).1 ≤ u.length := by
  unfold scan
  split
  · rename_i h
    exact radix_le (Bool.and_eq_true_iff.1 h).2
  · split
    · rename_i h
      exact radix_le (Bool.and_eq_true_iff.1 h).2
    · have hrun := run_le (orSeparator Char.isDigit) u
      have hfraction := fractionLength_le (u := u.drop (run (orSeparator Char.isDigit) u))
      rw [List.length_drop] at hfraction
      exact withSuffix_le (by omega)

end Number

theorem Glyph.length_le_of_match? {g : GlyphMatch} (h : match? u = some g) :
    g.length ≤ u.length := by
  obtain ⟨e, he, rfl⟩ := Option.map_eq_some_iff.1 h
  exact (List.isPrefixOf_iff_prefix.1 (by simpa using List.find?_some he)).length_le

/-! ## Segments -/

theorem Piece.more_le (c : Char) (cs : List Char) : (scan c cs).more ≤ cs.length := by
  unfold scan
  split
  · exact (List.takeWhile_sublist _).length_le
  split
  · exact Nat.zero_le _
  split
  · rename_i h
    cases cs with
    | nil => simp at h
    | cons d cs => simp [sound]
  split
  · exact Nat.zero_le _
  split
  · simpa [sound] using untilLineBreak_le (n := 0) (u := cs)
  split
  · simpa [string, StringLiteral.scan] using StringLiteral.walk_le (n := 0) (u := cs)
  split
  · simpa [rune, RuneLiteral.scan] using RuneLiteral.walk_le (n := 0) (u := cs)
  split
  · exact Number.scan_le
  split
  · exact (List.takeWhile_sublist _).length_le
  split
  · rename_i g hg
    have := Glyph.length_le_of_match? hg
    simp only [sound, List.length_cons] at this ⊢
    omega
  · exact Nat.zero_le _

end DeclFront
