import DeclFront.Proofs.Consumption
import DeclFront.Proofs.Numerals
import Mathlib.Data.List.Basic

/-!
# Every token is the longest lexeme

Two facts about the rule for one segment say that it finds the longest lexeme. What it reads is a
lexeme, a blank that is not allowed or an invalid character (`Lexeme.scan_cases`), and it covers
every lexeme that the text begins with (`Lexeme.covers_scan`). Neither the order in which the rules
are tried nor how far they look ahead shows in these.

The rules are told apart by the first character. Only that of a comment meets another one, the
glyph that is one slash. That no blank is alphabetic holds by the tables of the characters.

**Theorem (`scans_lexRaw`).** Outside strings and runes, reading a text takes the longest lexeme at
every place, and where no lexeme begins, it passes one character with a complaint.
-/

namespace DeclFront

open Character Lexeme

variable {c : Char} {cs u rest : List Char} {k : TokenKind} {n : Nat}

/-! ## Classes of characters -/

theorem forall_ascii {P : Char → Prop} (h : ∀ n < 0x80, P (Char.ofNat n)) (hc : isAscii c = true) :
    P c := by
  have hlt : c.toNat < 0x80 := of_decide_eq_true hc
  simpa using h c.toNat hlt

/-- The blanks beyond ASCII and the byte-order mark. -/
def foreignBlanks : List Nat :=
  [0x85, 0xa0, 0x1680, 0x2000, 0x2001, 0x2002, 0x2003, 0x2004, 0x2005, 0x2006, 0x2007, 0x2008,
   0x2009, 0x200a, 0x2028, 0x2029, 0x202f, 0x205f, 0x3000, 0xfeff]

theorem mem_foreignBlanks (hc : isAscii c = false) (h : isUnsupportedBlank c = true) :
    c.toNat ∈ foreignBlanks := by
  have hge : 0x80 ≤ c.toNat := by simpa [isAscii] using hc
  simp only [isUnsupportedBlank, hc, Bool.false_eq_true, if_false, Bool.or_eq_true, beq_iff_eq] at h
  rcases h with h | rfl
  · simp only [Unicode.blank, CharSet.contains, CharSet.switch, Bool.not_false, Bool.not_true,
      Bool.if_false_right, Bool.and_true, Bool.if_false_left, Bool.if_true_left, Bool.and_eq_true,
      Bool.not_eq_eq_eq_not, decide_eq_false_iff_not, Nat.not_lt, Bool.or_eq_true,
      decide_eq_true_eq] at h
    simp only [foreignBlanks, List.mem_cons, List.not_mem_nil, or_false]
    omega
  · decide

theorem isForbiddenBlank_iff : IsForbiddenBlank c ↔ isUnsupportedBlank c = true := by
  unfold IsForbiddenBlank isUnsupportedBlank
  cases hc : isAscii c with
  | true =>
    have hne : c ≠ '\ufeff' := by rintro rfl; exact absurd hc (by decide)
    simp [hne, or_assoc]
  | false =>
    have hne : c ≠ '\x0b' ∧ c ≠ '\x0c' ∧ c ≠ '\r' := by
      refine ⟨?_, ?_, ?_⟩ <;> rintro rfl <;> exact absurd hc (by decide)
    simp [hne, or_comm]

theorem isAscii_of_isDigit (h : c.isDigit = true) : isAscii c = true := by
  simp only [Char.isDigit, Bool.and_eq_true, decide_eq_true_eq] at h
  have : c.toNat ≤ 57 := h.2
  simp only [isAscii, decide_eq_true_eq]
  omega

/-- No character beyond ASCII is a digit. -/
theorem isDigit_of_not_ascii (hc : isAscii c = false) : c.isDigit = false := by
  rw [← Bool.not_eq_true]
  exact fun h => by simp [isAscii_of_isDigit h] at hc

theorem isAscii_of_isAlpha (h : c.isAlpha = true) : isAscii c = true := by
  have hle : c.toNat ≤ 122 := by
    rcases Bool.or_eq_true_iff.1 h with hupper | hlower
    · have : c.toNat ≤ 90 := (of_decide_eq_true hupper).2
      omega
    · exact of_decide_eq_true (Bool.and_eq_true_iff.1 hlower).2
  simp only [isAscii, decide_eq_true_eq]
  omega

theorem isWordStart_iff : IsWordStart c ↔ isIdentifierStart c = true := by
  unfold IsWordStart isIdentifierStart
  cases hc : isAscii c with
  | true => simp
  | false =>
    have hne : c ≠ '_' := by rintro rfl; exact absurd hc (by decide)
    have halpha : c.isAlpha = false := by
      rw [← Bool.not_eq_true]
      exact fun h => by simp [isAscii_of_isAlpha h] at hc
    simp [hne, halpha]

theorem isWordRest_iff : IsWordRest c ↔ isIdentifierRest c = true := by
  rw [IsWordRest, isWordStart_iff]
  unfold isIdentifierStart isIdentifierRest
  cases hc : isAscii c with
  | true => simp [Char.isAlphanum, or_right_comm]
  | false => simp [isDigit_of_not_ascii hc]

/-- A character that is no blank and no quote, and with which no line break begins. -/
structure IsOrdinary (c : Char) : Prop where
  isSpace : isSpace c = false
  ne_lineFeed : c ≠ '\n'
  ne_return : c ≠ '\r'
  isUnsupportedBlank : isUnsupportedBlank c = false
  ne_quote : c ≠ '"'
  ne_apostrophe : c ≠ '\''

theorem isOrdinary_iff : IsOrdinary c ↔ isSpace c = false ∧ c ≠ '\n' ∧ c ≠ '\r' ∧
    isUnsupportedBlank c = false ∧ c ≠ '"' ∧ c ≠ '\'' :=
  ⟨fun ⟨h₁, h₂, h₃, h₄, h₅, h₆⟩ => ⟨h₁, h₂, h₃, h₄, h₅, h₆⟩,
    fun ⟨h₁, h₂, h₃, h₄, h₅, h₆⟩ => ⟨h₁, h₂, h₃, h₄, h₅, h₆⟩⟩

instance (c : Char) : Decidable (IsOrdinary c) := decidable_of_iff _ isOrdinary_iff.symm

theorem isOrdinary_of_isDigit (h : c.isDigit = true) : IsOrdinary c ∧ c ≠ '/' := by
  have hall : ∀ n < 0x80, (Char.ofNat n).isDigit = true →
      IsOrdinary (Char.ofNat n) ∧ Char.ofNat n ≠ '/' := by decide +kernel
  exact forall_ascii (P := fun c => c.isDigit = true → IsOrdinary c ∧ c ≠ '/') hall
    (isAscii_of_isDigit h) h

/-- A character beyond ASCII is ordinary unless it is a blank. -/
theorem isOrdinary_of_not_ascii (hc : isAscii c = false) (h : isUnsupportedBlank c = false) :
    IsOrdinary c ∧ c ≠ '/' ∧ c.isDigit = false := by
  have hne : ∀ d : Char, isAscii d = true → c ≠ d := by
    rintro d hd rfl
    simp [hc] at hd
  have hspace : isSpace c = false := by simp [isSpace, hne ' ' rfl, hne '\t' rfl]
  exact ⟨⟨hspace, hne _ (by decide), hne _ (by decide), h, hne _ (by decide), hne _ (by decide)⟩,
    hne _ (by decide), isDigit_of_not_ascii hc⟩

/-- No blank is alphabetic. -/
theorem isUnsupportedBlank_of_alphabetic (hc : isAscii c = false)
    (h : Unicode.alphabetic.contains c = true) : isUnsupportedBlank c = false := by
  rw [← Bool.not_eq_true]
  intro hblank
  have hall : ∀ n ∈ foreignBlanks, CharSet.switch n false Unicode.alphabetic.bounds = false := by
    decide +kernel
  rw [CharSet.contains, hall _ (mem_foreignBlanks hc hblank)] at h
  exact Bool.false_ne_true h

theorem isOrdinary_of_isIdentifierStart (h : isIdentifierStart c = true) :
    IsOrdinary c ∧ c ≠ '/' ∧ c.isDigit = false := by
  cases hc : isAscii c with
  | true =>
    have hall : ∀ n < 0x80, isIdentifierStart (Char.ofNat n) = true →
        IsOrdinary (Char.ofNat n) ∧ Char.ofNat n ≠ '/' ∧ (Char.ofNat n).isDigit = false := by
      decide +kernel
    exact forall_ascii (P := fun c => isIdentifierStart c = true →
      IsOrdinary c ∧ c ≠ '/' ∧ c.isDigit = false) hall hc h
  | false =>
    simp only [isIdentifierStart, hc, Bool.false_eq_true, if_false] at h
    exact isOrdinary_of_not_ascii hc (isUnsupportedBlank_of_alphabetic hc h)

/-! ## Keywords and glyphs -/

theorem keyword?_eq_some {text : List Char} : TokenKind.keyword? text = some k ↔
    k.isKeyword = true ∧ k.spelling? = some text := by
  have hinj : ∀ k ∈ TokenKind.all, ∀ k' ∈ TokenKind.all, k.isKeyword = true →
      k'.isKeyword = true → k.spelling? = k'.spelling? → k = k' := by decide +kernel
  constructor
  · intro h
    simpa using List.find?_some h
  · rintro ⟨hk, hspelling⟩
    cases h : TokenKind.keyword? text with
    | none =>
      have := List.find?_eq_none.1 h k k.mem_all
      simp [hk, hspelling] at this
    | some k' =>
      obtain ⟨hk', hspelling'⟩ : k'.isKeyword = true ∧ k'.spelling? = some text := by
        simpa using List.find?_some h
      rw [hinj k' k'.mem_all k k.mem_all hk' hk (hspelling'.trans hspelling.symm)]

theorem mem_table {text : List Char} :
    (k, text) ∈ Glyph.table ↔ k.isGlyph = true ∧ k.spelling? = some text := by
  simp only [Glyph.table, List.mem_filterMap]
  constructor
  · rintro ⟨j, -, hj⟩
    split at hj
    · next hglyph =>
      obtain ⟨_, hspelling, heq⟩ := Option.map_eq_some_iff.1 hj
      obtain ⟨rfl, rfl⟩ := Prod.mk.inj heq
      exact ⟨hglyph, hspelling⟩
    · simp at hj
  · rintro ⟨hglyph, hspelling⟩
    exact ⟨k, k.mem_all, by simp [hglyph, hspelling]⟩

/-- In the table, no spelling begins a later one. -/
theorem pairwise_table : Glyph.table.Pairwise fun e e' => ¬ e.2 <+: e'.2 := by decide +kernel

theorem match?_eq_some {g : GlyphMatch} (h : Glyph.match? cs = some g) :
    ∃ text, (g.kind, text) ∈ Glyph.table ∧ text <+: cs ∧ g.length = text.length := by
  obtain ⟨⟨k, text⟩, hfind, rfl⟩ := Option.map_eq_some_iff.1 h
  have hbegins := List.find?_some hfind
  exact ⟨text, List.mem_of_find?_eq_some hfind, List.isPrefixOf_iff_prefix.1 hbegins, rfl⟩

/-- Of the glyphs that a text begins with, the first in the table is the longest. -/
theorem exists_match? {text : List Char} (hmem : (k, text) ∈ Glyph.table) (h : text <+: cs) :
    ∃ g, Glyph.match? cs = some g ∧ text.length ≤ g.length ∧
      (g.length = text.length → g.kind = k) := by
  unfold Glyph.match?
  cases hfind : Glyph.table.find? fun e => e.2.isPrefixOf cs with
  | none =>
    have := List.find?_eq_none.1 hfind _ hmem
    exact absurd (List.isPrefixOf_iff_prefix.2 h) this
  | some e =>
    refine ⟨_, rfl, ?_⟩
    obtain ⟨hbegins, before, behind, htable, hbefore⟩ := List.find?_eq_some_iff_append.1 hfind
    have hbegins : e.2 <+: cs := List.isPrefixOf_iff_prefix.1 hbegins
    rw [htable] at hmem
    rcases List.mem_append.1 hmem with hmem | hmem
    · have := hbefore _ hmem
      simp [List.isPrefixOf_iff_prefix.2 h] at this
    · rcases List.mem_cons.1 hmem with rfl | hmem
      · exact ⟨Nat.le_refl _, fun _ => rfl⟩
      · have hpairwise := pairwise_table
        rw [htable] at hpairwise
        have hnot : ¬ e.2 <+: text :=
          (List.pairwise_cons.1 (List.pairwise_append.1 hpairwise).2.1).1 _ hmem
        have hlt : text.length < e.2.length := by
          by_contra hle
          exact hnot (List.prefix_of_prefix_length_le hbegins h (Nat.le_of_not_lt hle))
        exact ⟨Nat.le_of_lt hlt, fun heq => absurd heq (Nat.ne_of_gt hlt)⟩

/-- What glyphs begin with. The slash is the only glyph that begins with a slash. -/
theorem glyph_front {text : List Char} (h : (k, c :: text) ∈ Glyph.table) :
    IsOrdinary c ∧ c.isDigit = false ∧ isIdentifierStart c = false ∧ (c = '/' → text = []) := by
  have hall : ∀ e ∈ Glyph.table, IsOrdinary (e.2.headD '/') ∧ (e.2.headD '/').isDigit = false ∧
      isIdentifierStart (e.2.headD '/') = false ∧ (e.2.headD '/' = '/' → e.2.tail = []) := by
    decide +kernel
  exact hall _ h

theorem ne_nil_of_mem_table {text : List Char} (h : (k, text) ∈ Glyph.table) : text ≠ [] := by
  have hall : ∀ e ∈ Glyph.table, e.2 ≠ [] := by decide +kernel
  exact hall _ h

/-! ## Comments -/

namespace Piece

theorem le_untilLineBreak (n : Nat) (cs : List Char) : n ≤ untilLineBreak n cs := by
  induction cs generalizing n with
  | nil => exact Nat.le_refl _
  | cons c cs ih =>
    rw [untilLineBreak]
    split
    · exact Nat.le_refl _
    · exact Nat.le_of_succ_le (ih (n + 1))

/-- What no line break begins in is passed. -/
theorem length_le_untilLineBreak (n : Nat) {body : List Char}
    (h : ∀ cs, cs <:+ body → cs ≠ [] → atLineBreak (cs ++ rest) = false) :
    n + body.length ≤ untilLineBreak n (body ++ rest) := by
  induction body generalizing n with
  | nil => exact le_untilLineBreak n _
  | cons c body ih =>
    have hc := h (c :: body) List.suffix_rfl (List.cons_ne_nil _ _)
    rw [List.cons_append] at hc ⊢
    rw [untilLineBreak, hc, List.length_cons]
    have := ih (n + 1) fun cs hcs => h cs (hcs.trans (List.suffix_cons _ _))
    simp only [Bool.false_eq_true, if_false]
    omega

/-- No line break begins in what is passed. -/
theorem atLineBreak_of_untilLineBreak (n : Nat) (cs v : List Char)
    (h : v <:+ cs.take (untilLineBreak n cs - n)) (hne : v ≠ []) :
    atLineBreak (v ++ cs.drop (untilLineBreak n cs - n)) = false := by
  induction cs generalizing n v with
  | nil => exact absurd (List.suffix_nil.1 (by simpa using h)) hne
  | cons c cs ih =>
    rw [untilLineBreak] at h ⊢
    split at h
    · exact absurd (List.suffix_nil.1 (by simpa using h)) hne
    · next hc =>
      rw [if_neg hc]
      have hle := le_untilLineBreak (n + 1) cs
      have hpred : untilLineBreak (n + 1) cs - n = untilLineBreak (n + 1) cs - (n + 1) + 1 := by
        omega
      rw [hpred, List.take_succ_cons] at h
      rw [hpred, List.drop_succ_cons]
      rcases List.suffix_cons_iff.1 h with rfl | h
      · rw [List.cons_append, List.take_append_drop]
        simpa using hc
      · exact ih (n + 1) v h hne

/-! ## The rule for one segment -/

theorem scan_of_isOrdinary (h : IsOrdinary c) : scan c cs =
    if c == '/' && cs.head? == some '/' then sound .comment (untilLineBreak 0 cs)
    else if c.isDigit then sound (Number.scan c cs).2 (Number.scan c cs).1
    else if isIdentifierStart c then word c cs
    else match Glyph.match? (c :: cs) with
      | some g => sound g.kind (g.length - 1)
      | none => invalid := by
  cases hglyph : Glyph.match? (c :: cs) <;>
    simp only [scan, h.isSpace, beq_eq_false_iff_ne.2 h.ne_lineFeed,
      beq_eq_false_iff_ne.2 h.ne_return, h.isUnsupportedBlank, beq_eq_false_iff_ne.2 h.ne_quote,
      beq_eq_false_iff_ne.2 h.ne_apostrophe, hglyph, Bool.false_and, Bool.false_eq_true, if_false]

theorem scan_of_isSpace (h : isSpace c = true) :
    scan c cs = sound .whitespace (cs.takeWhile isSpace).length := by
  simp [scan, h]

theorem scan_lineFeed : scan '\n' cs = sound .terminator 0 := by
  simp [scan, isSpace]

theorem scan_lineBreak : scan '\r' ('\n' :: cs) = sound .terminator 1 := by
  simp [scan, isSpace]

theorem scan_comment : scan '/' ('/' :: cs) = sound .comment (untilLineBreak 1 cs) := by
  rw [scan_of_isOrdinary (by decide)]
  rfl

theorem scan_of_isDigit (h : c.isDigit = true) :
    scan c cs = sound (Number.scan c cs).2 (Number.scan c cs).1 := by
  obtain ⟨hordinary, hslash⟩ := isOrdinary_of_isDigit h
  simp [scan_of_isOrdinary hordinary, hslash, h]

theorem scan_of_isIdentifierStart (h : isIdentifierStart c = true) : scan c cs = word c cs := by
  obtain ⟨hordinary, hslash, hdigit⟩ := isOrdinary_of_isIdentifierStart h
  simp [scan_of_isOrdinary hordinary, hslash, hdigit, h]

end Piece

/-! ## Every lexeme is covered -/

/-- What is read is a token that covers `n` characters behind its first one, and if it covers no
others, then it is of the kind. -/
def Piece.Covers (k : TokenKind) (n : Nat) (p : Piece) : Prop :=
  ∃ k' m, p = .sound k' m ∧ n ≤ m ∧ (m = n → k' = k)

namespace Lexeme

theorem length_le_takeWhile {p : Char → Bool} (h : ∀ d ∈ u, p d = true) :
    u.length ≤ ((u ++ rest).takeWhile p).length := by
  rw [List.takeWhile_append_of_pos h, List.length_append]
  exact Nat.le_add_right _ _

theorem takeWhile_of_length {p : Char → Bool} (h : ∀ d ∈ u, p d = true)
    (hlength : ((u ++ rest).takeWhile p).length = u.length) : (u ++ rest).takeWhile p = u := by
  rw [List.takeWhile_append_of_pos h, List.length_append] at hlength
  have hrest : rest.takeWhile p = [] := List.eq_nil_of_length_eq_zero (by omega)
  rw [List.takeWhile_append_of_pos h, hrest, List.append_nil]

/-- A word is read to its end, and what is read is told by its whole text. -/
theorem covers_word (h : IsWord (c :: u))
    (hk : (TokenKind.keyword? (c :: u)).getD .identifier = k) :
    Piece.Covers k u.length (.scan c (u ++ rest)) := by
  cases h with
  | mk hc hcs =>
    rw [Piece.scan_of_isIdentifierStart (isWordStart_iff.1 hc), Piece.word]
    have hcs : ∀ d ∈ u, isIdentifierRest d = true := fun d hd => isWordRest_iff.1 (hcs d hd)
    refine ⟨_, _, rfl, length_le_takeWhile hcs, fun hlength => ?_⟩
    rw [takeWhile_of_length hcs hlength, hk]

theorem covers_glyph (h : (k, c :: u) ∈ Glyph.table) :
    Piece.Covers k u.length (.scan c (u ++ rest)) := by
  obtain ⟨hordinary, hdigit, hstart, hslash⟩ := glyph_front h
  obtain ⟨g, hg, hle, hkind⟩ := exists_match? h (List.prefix_append (c :: u) rest)
  rw [List.cons_append] at hg
  rw [List.length_cons] at hle hkind
  rw [Piece.scan_of_isOrdinary hordinary]
  split
  · next hcomment =>
    -- Two slashes begin a comment, and the one that is a glyph is its first character.
    obtain ⟨rfl, hhead⟩ : c = '/' ∧ (u ++ rest).head? = some '/' := by simpa using hcomment
    obtain rfl := hslash rfl
    obtain ⟨cs, rfl⟩ : ∃ cs, rest = '/' :: cs := by
      cases rest with
      | nil => simp at hhead
      | cons d cs => exact ⟨cs, by simpa using hhead⟩
    refine ⟨_, _, rfl, Nat.zero_le _, fun hzero => ?_⟩
    exact absurd hzero (Nat.ne_of_gt (Piece.le_untilLineBreak 1 cs))
  · rw [hdigit, hstart, hg]
    exact ⟨_, _, rfl, by omega, fun hlength => hkind (by omega)⟩

/-- **No lexeme is longer than what is read.** -/
theorem covers_scan (h : IsLexeme k (c :: u) rest) :
    Piece.Covers k u.length (.scan c (u ++ rest)) := by
  generalize htext : c :: u = text at h
  cases h with
  | whitespace hne hspace =>
    subst htext
    have hspace : ∀ d ∈ c :: u, isSpace d = true := fun d hd => by simpa [isSpace] using hspace d hd
    rw [Piece.scan_of_isSpace (hspace c List.mem_cons_self)]
    exact ⟨_, _, rfl, length_le_takeWhile fun d hd => hspace d (List.mem_cons_of_mem _ hd),
      fun _ => rfl⟩
  | lineFeed =>
    obtain ⟨rfl, rfl⟩ := List.cons.inj htext
    rw [Piece.scan_lineFeed]
    exact ⟨_, _, rfl, Nat.le_refl _, fun _ => rfl⟩
  | lineBreak =>
    obtain ⟨rfl, rfl⟩ := List.cons.inj htext
    rw [List.singleton_append, Piece.scan_lineBreak]
    exact ⟨_, _, rfl, Nat.le_refl _, fun _ => rfl⟩
  | comment hbody =>
    obtain ⟨rfl, rfl⟩ := List.cons.inj htext
    rw [List.cons_append, Piece.scan_comment]
    refine ⟨_, _, rfl, ?_, fun _ => rfl⟩
    rw [List.length_cons, Nat.add_comm]
    exact Piece.length_le_untilLineBreak 1 hbody
  | keyword hword hk hspelling =>
    subst htext
    exact covers_word hword (by rw [keyword?_eq_some.2 ⟨hk, hspelling⟩]; rfl)
  | identifier hword hk =>
    subst htext
    refine covers_word hword ?_
    cases hkeyword : TokenKind.keyword? (c :: u) with
    | none => rfl
    | some k =>
      obtain ⟨hkey, hspelling⟩ := keyword?_eq_some.1 hkeyword
      exact absurd hspelling (hk k hkey)
  | number hnumber =>
    subst htext
    rw [Piece.scan_of_isDigit (Number.isDigit_of_isNumber hnumber)]
    obtain ⟨hle, hkind⟩ := Number.covers_scan rest hnumber
    exact ⟨_, _, rfl, hle, hkind⟩
  | glyph hk hspelling =>
    subst htext
    exact covers_glyph (mem_table.2 ⟨hk, hspelling⟩)

/-! ## What is read is a lexeme -/

theorem isLexeme_word (h : isIdentifierStart c = true) :
    IsLexeme ((TokenKind.keyword? (c :: cs.takeWhile isIdentifierRest)).getD .identifier)
      (c :: cs.takeWhile isIdentifierRest) rest := by
  have hword : IsWord (c :: cs.takeWhile isIdentifierRest) :=
    .mk (isWordStart_iff.2 h) fun d hd => isWordRest_iff.2 (List.mem_takeWhile_imp hd)
  cases hkeyword : TokenKind.keyword? (c :: cs.takeWhile isIdentifierRest) with
  | none =>
    refine .identifier hword fun k hk hspelling => ?_
    rw [keyword?_eq_some.2 ⟨hk, hspelling⟩] at hkeyword
    exact Option.some_ne_none k hkeyword
  | some k =>
    obtain ⟨hk, hspelling⟩ := keyword?_eq_some.1 hkeyword
    exact .keyword hword hk hspelling

theorem isLexeme_glyph {g : GlyphMatch} (h : Glyph.match? (c :: cs) = some g) :
    IsLexeme g.kind (c :: cs.take (g.length - 1)) rest := by
  obtain ⟨text, hmem, hbegins, hlength⟩ := match?_eq_some h
  cases text with
  | nil => exact absurd rfl (ne_nil_of_mem_table hmem)
  | cons d text =>
    obtain ⟨rfl, htext⟩ := List.cons_prefix_cons.1 hbegins
    rw [hlength, List.length_cons, Nat.add_sub_cancel, ← List.prefix_iff_eq_take.1 htext]
    obtain ⟨hk, hspelling⟩ := mem_table.1 hmem
    exact .glyph hk hspelling

theorem isLexeme_comment (cs : List Char) :
    IsLexeme .comment ('/' :: ('/' :: cs).take (Piece.untilLineBreak 1 cs))
      (('/' :: cs).drop (Piece.untilLineBreak 1 cs)) := by
  have hbody := Piece.atLineBreak_of_untilLineBreak 1 cs
  obtain ⟨m, hm⟩ : ∃ m, Piece.untilLineBreak 1 cs = m + 1 :=
    ⟨_, (Nat.sub_add_cancel (Piece.le_untilLineBreak 1 cs)).symm⟩
  rw [hm] at hbody
  rw [hm, List.take_succ_cons, List.drop_succ_cons]
  exact .comment hbody

/-- An ordinary character begins a comment, a number, a word or a glyph, or it is invalid. -/
theorem scan_cases_of_isOrdinary (hc : IsOrdinary c) (cs : List Char) :
    (∃ k n, Piece.scan c cs = .sound k n ∧ IsLexeme k (c :: cs.take n) (cs.drop n)) ∨
    Piece.scan c cs = .invalid := by
  by_cases hcomment : c = '/' ∧ cs.head? = some '/'
  · obtain ⟨rfl, hhead⟩ := hcomment
    obtain ⟨cs, rfl⟩ : ∃ cs', cs = '/' :: cs' := List.head?_eq_some_iff.1 hhead
    exact .inl ⟨_, _, Piece.scan_comment, isLexeme_comment cs⟩
  cases hdigit : c.isDigit with
  | true =>
    exact .inl ⟨_, _, Piece.scan_of_isDigit hdigit, .number (Number.isNumber_scan hdigit cs)⟩
  | false =>
    cases hstart : isIdentifierStart c with
    | true =>
      refine .inl ⟨_, _, Piece.scan_of_isIdentifierStart hstart, ?_⟩
      rw [← Number.run, Number.take_run]
      exact isLexeme_word hstart
    | false =>
      rw [Piece.scan_of_isOrdinary hc]
      cases hglyph : Glyph.match? (c :: cs) with
      | none => exact .inr (by simp [hcomment, hdigit, hstart])
      | some g =>
        exact .inl ⟨g.kind, g.length - 1, by simp [hcomment, hdigit, hstart],
          isLexeme_glyph hglyph⟩

/-- What is read where no quote stands: a lexeme, a blank that is not allowed, or an invalid
character. -/
theorem scan_cases (hquote : c ≠ '"') (hapostrophe : c ≠ '\'') (cs : List Char) :
    (∃ k n, Piece.scan c cs = .sound k n ∧ IsLexeme k (c :: cs.take n) (cs.drop n)) ∨
    (Piece.scan c cs = .unsupported ∧ IsForbiddenBlank c) ∨
    (Piece.scan c cs = .invalid ∧ ¬ IsForbiddenBlank c) := by
  cases hspace : isSpace c with
  | true =>
    refine .inl ⟨_, _, Piece.scan_of_isSpace hspace, .whitespace (List.cons_ne_nil _ _) ?_⟩
    rw [← Number.run, Number.take_run]
    intro d hd
    have hd : isSpace d = true := by
      rcases List.mem_cons.1 hd with rfl | hd
      · exact hspace
      · exact List.mem_takeWhile_imp hd
    simpa [isSpace] using hd
  | false =>
    by_cases hfeed : c = '\n'
    · subst hfeed
      exact .inl ⟨_, _, Piece.scan_lineFeed, .lineFeed⟩
    by_cases hbreak : c = '\r' ∧ cs.head? = some '\n'
    · obtain ⟨rfl, hhead⟩ := hbreak
      obtain ⟨cs, rfl⟩ : ∃ cs', cs = '\n' :: cs' := List.head?_eq_some_iff.1 hhead
      exact .inl ⟨_, _, Piece.scan_lineBreak, .lineBreak⟩
    cases hblank : isUnsupportedBlank c with
    | true =>
      refine .inr (.inl ⟨?_, isForbiddenBlank_iff.2 hblank⟩)
      simp [Piece.scan, hspace, hfeed, hbreak, hblank]
    | false =>
      have hforbidden : ¬ IsForbiddenBlank c := by simp [isForbiddenBlank_iff, hblank]
      have hreturn : c ≠ '\r' := by rintro rfl; exact absurd hblank (by decide)
      have hordinary : IsOrdinary c := ⟨hspace, hfeed, hreturn, hblank, hquote, hapostrophe⟩
      rcases scan_cases_of_isOrdinary hordinary cs with h | h
      · exact .inl h
      · exact .inr (.inr ⟨h, hforbidden⟩)

theorem ne_nil (h : IsLexeme k u rest) : u ≠ [] := by
  cases h with
  | whitespace hne => exact hne
  | keyword hword | identifier hword => cases hword; exact List.cons_ne_nil _ _
  | number hnumber => cases hnumber <;> exact List.cons_ne_nil _ _
  | glyph hk hspelling => exact ne_nil_of_mem_table (mem_table.2 ⟨hk, hspelling⟩)
  | _ => exact List.cons_ne_nil _ _

/-- No lexeme begins with a quote. -/
theorem ne_quote (h : IsLexeme k (c :: u) rest) : c ≠ '"' ∧ c ≠ '\'' := by
  generalize htext : c :: u = text at h
  have hword (h : IsWord text) : c ≠ '"' ∧ c ≠ '\'' := by
    cases h with
    | mk hc =>
      obtain ⟨rfl, -⟩ := List.cons.inj htext
      obtain ⟨hordinary, -⟩ := isOrdinary_of_isIdentifierStart (isWordStart_iff.1 hc)
      exact ⟨hordinary.ne_quote, hordinary.ne_apostrophe⟩
  cases h with
  | whitespace hne hspace =>
    rcases hspace c (htext ▸ List.mem_cons_self) with rfl | rfl <;> decide
  | keyword h | identifier h => exact hword h
  | number hnumber =>
    subst htext
    obtain ⟨hordinary, -⟩ := isOrdinary_of_isDigit (Number.isDigit_of_isNumber hnumber)
    exact ⟨hordinary.ne_quote, hordinary.ne_apostrophe⟩
  | glyph hk hspelling =>
    subst htext
    obtain ⟨hordinary, -⟩ := glyph_front (mem_table.2 ⟨hk, hspelling⟩)
    exact ⟨hordinary.ne_quote, hordinary.ne_apostrophe⟩
  | _ => obtain ⟨rfl, -⟩ := List.cons.inj htext; decide

/-- A text that begins with a lexeme is read as a token that covers it. -/
theorem covers_of_append {text : List Char} (h : IsLexeme k text rest)
    (htext : text ++ rest = c :: cs) : Piece.Covers k (text.length - 1) (.scan c cs) := by
  cases text with
  | nil => exact absurd rfl (ne_nil h)
  | cons d u =>
    obtain ⟨rfl, rfl⟩ := List.cons.inj htext
    exact covers_scan h

/-- A lexeme that is read is the longest one. -/
theorem isLongest_of_scan (hscan : Piece.scan c cs = .sound k n)
    (h : IsLexeme k (c :: cs.take n) (cs.drop n)) :
    IsLongest k (c :: cs.take n) (cs.drop n) := by
  refine ⟨h, fun k' text' rest' htext h' => ?_⟩
  rw [List.cons_append, List.take_append_drop] at htext
  obtain ⟨k'', m, heq, hle, -⟩ := covers_of_append h' htext
  have hn : n = m := (Piece.mk.inj (hscan.symm.trans heq)).2.2
  have hlength : text'.length + rest'.length = cs.length + 1 := by
    rw [← List.length_append, htext, List.length_cons]
  rw [List.length_cons, List.length_take]
  omega

/-- Where no token is read, no lexeme begins. -/
theorem beginsNone_of_scan (h : ∀ k n, Piece.scan c cs ≠ .sound k n) : BeginsNone (c :: cs) := by
  intro k text rest htext hlexeme
  obtain ⟨k', m, heq, -⟩ := covers_of_append hlexeme htext
  exact h k' m heq

/-- A token outside strings and runes is the longest lexeme. -/
theorem isLongest_scan (hquote : c ≠ '"') (hapostrophe : c ≠ '\'')
    (hscan : Piece.scan c cs = .sound k n) : IsLongest k (c :: cs.take n) (cs.drop n) := by
  rcases scan_cases hquote hapostrophe cs with ⟨k', m, hscan', h⟩ | ⟨hscan', -⟩ | ⟨hscan', -⟩
  · obtain ⟨hk, -, rfl⟩ := Piece.mk.inj (hscan.symm.trans hscan')
    obtain rfl := Option.some.inj hk
    exact isLongest_of_scan hscan h
  all_goals
    simp [hscan, Piece.sound, Piece.unsupported, Piece.invalid] at hscan'

/-- The longest lexeme that a text begins with is read. -/
theorem scan_of_isLongest (h : IsLongest k (c :: u) rest) :
    Piece.scan c (u ++ rest) = .sound k u.length := by
  obtain ⟨hquote, hapostrophe⟩ := ne_quote h.isLexeme
  obtain ⟨i, m, hscan, hle, hi⟩ := covers_scan h.isLexeme
  -- What is read is a lexeme itself, so it is no longer than the longest one.
  have hread := (isLongest_scan hquote hapostrophe hscan).isLexeme
  have hlength := h.length_le _ _ _ (by simp) hread
  have hmore := Piece.more_le c (u ++ rest)
  rw [hscan] at hmore
  simp only [List.length_cons, List.length_take, Piece.sound] at hlength hmore
  have hm : m = u.length := by omega
  rw [hscan, hi hm, hm]

/-- **A text begins with one longest lexeme at most.** -/
theorem IsLongest.unique {k' : TokenKind} {text text' rest' : List Char}
    (h : IsLongest k text rest) (h' : IsLongest k' text' rest')
    (heq : text ++ rest = text' ++ rest') : k = k' ∧ text = text' := by
  have htext : text = text' := by
    refine (List.append_inj heq (Nat.le_antisymm ?_ ?_)).1
    · exact h'.length_le _ _ _ heq h.isLexeme
    · exact h.length_le _ _ _ heq.symm h'.isLexeme
  subst htext
  obtain rfl := List.append_cancel_left heq
  cases text with
  | nil => exact absurd rfl (ne_nil h.isLexeme)
  | cons c u =>
    have hscan := (scan_of_isLongest h).symm.trans (scan_of_isLongest h')
    exact ⟨Option.some.inj (Piece.mk.inj hscan).1, rfl⟩

end Lexeme

/-! ## Reading a text -/

namespace Piece

theorem scan_quote (cs : List Char) : scan '"' cs = string cs := by
  simp [scan, isSpace, isUnsupportedBlank, isAscii]

theorem scan_apostrophe (cs : List Char) : scan '\'' cs = rune cs := by
  simp [scan, isSpace, isUnsupportedBlank, isAscii]

/-- What begins with a quote is read as a string or a rune. -/
theorem kind_scan_of_isQuote (h : IsQuote c) :
    (scan c cs).kind = some (if c = '"' then .string else .rune) := by
  rcases h with rfl | rfl
  · rw [scan_quote]
    rfl
  · rw [scan_apostrophe]
    rfl

end Piece

namespace Segment

section

variable {p : Position} {ts : List Token} {xs : List Diagnostic}

/-- A string or a rune in front of what is read. -/
theorem scans_quoted (hquote : IsQuote c)
    (hrest : Scans (first p c cs).stop (cs.drop (Piece.scan c cs).more) ts xs) :
    Scans p (c :: cs) ((first p c cs).token?.toList ++ ts)
      ((first p c cs).diagnostic?.toList ++ xs) := by
  have htoken : (first p c cs).token? = some ⟨if c = '"' then .string else .rune, p,
      byteLength (c :: cs.take (Piece.scan c cs).more)⟩ := by
    simp only [token?, first, Piece.kind_scan_of_isQuote hquote]
    rfl
  have htext : c :: cs.take (Piece.scan c cs).more ++ cs.drop (Piece.scan c cs).more = c :: cs := by
    simp
  have hquoted := @Scans.quoted _ _ _ _ _ _ (first p c cs).diagnostic? hquote hrest
  rw [htext] at hquoted
  rw [htoken]
  exact hquoted

/-- A lexeme, or a character with which none begins, in front of what is read. -/
theorem scans_plain (hquote : ¬ IsQuote c)
    (hrest : Scans (first p c cs).stop (cs.drop (Piece.scan c cs).more) ts xs) :
    Scans p (c :: cs) ((first p c cs).token?.toList ++ ts)
      ((first p c cs).diagnostic?.toList ++ xs) := by
  obtain ⟨hdouble, hsingle⟩ := not_or.1 hquote
  rcases scan_cases hdouble hsingle cs with
    ⟨k, n, hscan, hlexeme⟩ | ⟨hscan, hblank⟩ | ⟨hscan, hblank⟩
  · have hfirst : first p c cs = ⟨p, c :: cs.take n, some k, none⟩ := by rw [first, hscan]; rfl
    have htext : c :: cs.take n ++ cs.drop n = c :: cs := by simp
    rw [hfirst, hscan] at hrest
    have hlongest := Scans.lexeme (isLongest_of_scan hscan hlexeme) hrest
    rw [htext] at hlongest
    rw [hfirst]
    exact hlongest
  · have hfirst : first p c cs = ⟨p, [c], none, some .unsupportedWhitespace⟩ := by
      rw [first, hscan]; rfl
    have hnone : BeginsNone (c :: cs) := beginsNone_of_scan fun k n h => by
      simp [hscan, Piece.unsupported, Piece.sound] at h
    rw [hfirst, hscan] at hrest
    rw [hfirst]
    exact .blank hquote hnone hblank hrest
  · have hfirst : first p c cs = ⟨p, [c], some .invalid, some .invalidCharacter⟩ := by
      rw [first, hscan]; rfl
    have hnone : BeginsNone (c :: cs) := beginsNone_of_scan fun k n h => by
      simp [hscan, Piece.invalid, Piece.sound] at h
    rw [hfirst, hscan] at hrest
    rw [hfirst]
    exact .invalid hquote hnone hblank hrest

end

theorem scans_ofText (p : Position) (cs : List Char) :
    Scans p cs ((ofText p cs).filterMap token? ++ [⟨.endOfInput, p.after cs, 0⟩])
      ((ofText p cs).filterMap diagnostic?) := by
  refine ofText_induction (P := fun p cs ss => Scans p cs
    (ss.filterMap token? ++ [⟨.endOfInput, p.after cs, 0⟩]) (ss.filterMap diagnostic?))
    (fun p => .done) (fun p c cs ih => ?_) p cs
  rw [after_stop_first] at ih
  simp only [List.filterMap_eq_flatMap_toList, List.flatMap_cons, List.append_assoc] at ih ⊢
  by_cases hquote : IsQuote c
  · exact scans_quoted hquote ih
  · exact scans_plain hquote ih

end Segment

/-- **Every token is the longest lexeme.** Read without a limit, a text falls into the longest
lexemes that it begins with, one behind the other, and strings and runes. Where no lexeme begins, a
blank that is not allowed gives a diagnostic alone, and any other character an invalid token and a
diagnostic about it. -/
theorem scans_lexRaw (s : Source) :
    Scans .origin s.chars (lexRaw s 0).tokens (lexRaw s 0).diagnostics := by
  rw [tokens_lexRaw, Module.diagnostics_lexRaw_zero]
  exact Segment.scans_ofText .origin s.chars

end DeclFront
