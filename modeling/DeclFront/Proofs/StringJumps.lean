import DeclFront.Proofs.Anchors
import DeclFront.Proofs.BytePositions
import DeclFront.Proofs.QuotedBodies

/-!
# Strings scanned by jumps

A string can be scanned on bytes, without looking at the plain characters in it one by one: a cursor
jumps from one delimiter to the next (`ByteCursor.passString`). A carriage return is a delimiter
because it may begin a line break, and one behind a backslash is left to the next jump, which passes
it after all if no line feed follows.

That this finds the end of the literal is shown along the grammar of literals (`QuotedBody`), one
case for each way in which a text can go on. Two facts about UTF-8 are needed. No byte of a
character beyond ASCII is a delimiter, so that a jump stops in front of whole characters, and the
first byte of a character announces its length.

**Theorem (`scans_strings`).** Where a double quote begins a token, the token is the string that the
grammar finds there, the scanner on bytes ends where the token does, and the only complaint is that
the string is not closed, if it is not.
-/

namespace DeclFront

open Character

/-! ## Characters as bytes -/

/-- A byte below 128 is a character of ASCII. -/
theorem encode_of_mem {c : Char} {b : UInt8} (hb : b ∈ String.utf8EncodeChar c)
    (hlt : b.toNat < 128) : String.utf8EncodeChar c = [b] ∧ c.toNat = b.toNat := by
  have hc : c.toNat = c.val.toNat := rfl
  unfold String.utf8EncodeChar at hb ⊢
  dsimp only at hb ⊢
  split_ifs at hb ⊢ with h₁ h₂ h₃
  · obtain rfl := List.mem_singleton.1 hb
    refine ⟨rfl, ?_⟩
    rw [hc, UInt8.toNat_ofNat']
    omega
  all_goals
    simp only [List.mem_cons, List.not_mem_nil, or_false] at hb
    rcases hb with rfl | rfl | rfl | rfl <;> rw [UInt8.toNat_ofNat'] at hlt <;> omega

theorem charWidth_ofNat : ∀ n < 256, ByteCursor.charWidth (.ofNat n) =
    if n < 192 then 1 else if n < 224 then 2 else if n < 240 then 3
    else if n < 248 then 4 else 1 := by
  decide +kernel

/-- The first byte of a character announces how many there are. -/
theorem charWidth_encode (c : Char) : ∃ b bs, String.utf8EncodeChar c = b :: bs ∧
    ByteCursor.charWidth b = c.utf8Size := by
  rw [← String.length_utf8EncodeChar]
  unfold String.utf8EncodeChar
  dsimp only
  split_ifs with h₁ h₂ h₃ <;> refine ⟨_, _, rfl, ?_⟩ <;> rw [charWidth_ofNat _ (by omega)]
  · rw [if_pos (by omega)]
    rfl
  · rw [if_neg (by omega), if_pos (by omega)]
    rfl
  · rw [if_neg (by omega), if_neg (by omega), if_pos (by omega)]
    rfl
  · rw [if_neg (by omega), if_neg (by omega), if_neg (by omega), if_pos (by omega)]
    rfl

namespace ByteCursor

variable {c : ByteCursor} {d : Char} {b : UInt8} {cs body behind : List Char} {closed : Bool}

/-! ## The scanner -/

theorem length_rest_advance (h : c.current ≠ 0) : c.advance.rest.length < c.rest.length := by
  unfold advance
  cases hrest : c.rest with
  | nil => simp [current, hrest] at h
  | cons b bs => simp

theorem length_rest_advanceN_le (c : ByteCursor) (n : Nat) :
    (c.advanceN n).rest.length ≤ c.rest.length := by
  rw [advanceN_eq_iterate, rest_iterate_advance, List.length_drop]
  exact Nat.sub_le _ _

theorem length_rest_skipPlain_le (c : ByteCursor) : c.skipPlain.rest.length ≤ c.rest.length := by
  show (c.rest.drop _).length ≤ _
  rw [List.length_drop]
  exact Nat.sub_le _ _

/-- Goes through the content of a string from one delimiter to the next. Gives the cursor behind
the string, and whether the string is closed. -/
def passContent (c : ByteCursor) : ByteCursor × Bool :=
  let d := c.skipPlain
  if d.current = 34 then (d.advance, true)
  else if _ : d.current = 92 then
    let e := d.advance
    if e.current = 10 ∨ e.current = 13 then e.passContent else e.advanceChar.passContent
  else if _ : d.current = 13 ∧ d.peek ≠ 10 then d.advance.passContent
  else (d, false)
termination_by c.rest.length
decreasing_by
  all_goals
    have hskip := length_rest_skipPlain_le c
    have hadvance : c.skipPlain.advance.rest.length < c.skipPlain.rest.length :=
      length_rest_advance (by simp_all [d])
  · exact Nat.lt_of_lt_of_le hadvance hskip
  · exact Nat.lt_of_le_of_lt (length_rest_advanceN_le _ _) (Nat.lt_of_lt_of_le hadvance hskip)
  · exact Nat.lt_of_lt_of_le hadvance hskip

/-- Goes through a string from its opening quote. -/
def passString (c : ByteCursor) : ByteCursor × Bool := c.advance.passContent

/-! ## Jumps -/

theorem skipPlain_eq_iterate (c : ByteCursor) :
    c.skipPlain = advance^[(c.rest.takeWhile (!isStringDelimiter ·)).length] c := by
  refine skip_eq_iterate (List.takeWhile_sublist _).length_le ?_
  rw [← List.prefix_iff_eq_take.1 (List.takeWhile_prefix _)]
  intro hfeed
  exact absurd (List.mem_takeWhile_imp hfeed) (by decide)

theorem skipPlain_eq_self (h : AtDelimiter c.rest) : c.skipPlain = c := by
  rw [skipPlain_eq_iterate]
  rcases h with h | ⟨b, hb, hdelimiter⟩
  · rw [h]
    rfl
  · obtain ⟨bs, hrest⟩ := List.head?_eq_some_iff.1 hb
    simp [hrest, hdelimiter]

/-- A jump leads to the same place from behind plain content as from in front of it. -/
theorem skipPlain_iterate {bs bs' : List UInt8} (hrest : c.rest = bs ++ bs')
    (h : ∀ b ∈ bs, isStringDelimiter b = false) :
    (advance^[bs.length] c).skipPlain = c.skipPlain := by
  have htake : c.rest.takeWhile (!isStringDelimiter ·) =
      bs ++ bs'.takeWhile (!isStringDelimiter ·) := by
    rw [hrest, List.takeWhile_append_of_pos (by simpa using h)]
  rw [skipPlain_eq_iterate, skipPlain_eq_iterate c, rest_iterate_advance, htake, hrest,
    List.drop_left, List.length_append, Nat.add_comm, Function.iterate_add_apply]

theorem passContent_congr {c' : ByteCursor} (h : c.skipPlain = c'.skipPlain) :
    c.passContent = c'.passContent := by
  rw [passContent.eq_def c, passContent.eq_def c', h]

/-- In front of a delimiter there is no jump. -/
theorem passContent_of_atDelimiter (h : AtDelimiter c.rest) : c.passContent =
    if c.current = 34 then (c.advance, true)
    else if c.current = 92 then
      if c.advance.current = 10 ∨ c.advance.current = 13 then c.advance.passContent
      else c.advance.advanceChar.passContent
    else if c.current = 13 ∧ c.peek ≠ 10 then c.advance.passContent
    else (c, false) := by
  rw [passContent.eq_def, skipPlain_eq_self h]
  simp only [dite_eq_ite]

/-! ## Jumps in front of characters -/

theorem rest_passed (hc : c.rest = utf8 (d :: cs)) : (advance^[d.utf8Size] c).rest = utf8 cs := by
  rw [rest_iterate_advance, hc, utf8_cons, ← String.length_utf8EncodeChar, List.drop_left]

theorem iterate_byteLength_cons (c : ByteCursor) (d : Char) (cs : List Char) :
    advance^[byteLength (d :: cs)] c = advance^[byteLength cs] (advance^[d.utf8Size] c) := by
  rw [byteLength_cons, Nat.add_comm, Function.iterate_add_apply]

theorem current_mem (hc : c.rest = utf8 (d :: cs)) : c.current ∈ String.utf8EncodeChar d := by
  obtain ⟨b, bs, hd, -⟩ := charWidth_encode d
  rw [current, hc, utf8_cons, hd]
  exact List.mem_cons_self

theorem advanceChar_eq (hc : c.rest = utf8 (d :: cs)) : c.advanceChar = advance^[d.utf8Size] c := by
  obtain ⟨b, bs, hd, hwidth⟩ := charWidth_encode d
  have hcurrent : c.current = b := by simp [current, hc, hd]
  rw [advanceChar, hcurrent, hwidth, advanceN_eq_iterate]

theorem eq_of_mem_encode (hb : b ∈ String.utf8EncodeChar d) (hlt : b.toNat < 128) :
    d = .ofNat b.toNat := by
  rw [← (encode_of_mem hb hlt).2, Char.ofNat_toNat]

theorem isStringDelimiter_of_mem (hb : b ∈ String.utf8EncodeChar d) (hquote : d ≠ '"')
    (hbackslash : d ≠ '\\') (hfeed : d ≠ '\n') (hreturn : d ≠ '\r') :
    isStringDelimiter b = false := by
  rw [← Bool.not_eq_true]
  intro h
  simp only [isStringDelimiter, Bool.or_eq_true, beq_iff_eq] at h
  rcases h with ((rfl | rfl) | rfl) | rfl
  · exact hquote (eq_of_mem_encode hb (by decide))
  · exact hbackslash (eq_of_mem_encode hb (by decide))
  · exact hfeed (eq_of_mem_encode hb (by decide))
  · exact hreturn (eq_of_mem_encode hb (by decide))

theorem ne_lineFeed_of_atLineBreak (h : atLineBreak (d :: cs) = false) : d ≠ '\n' := by
  rintro rfl
  simp [atLineBreak_cons] at h

/-- At a line break or the end, the scanner stops. -/
theorem passContent_of_lineStops (h : LineStops cs) (hc : c.rest = utf8 cs) :
    c.passContent = (c, false) := by
  cases cs with
  | nil =>
    rw [passContent_of_atDelimiter (.inl hc)]
    simp [current, hc]
  | cons d cs =>
    rcases h.cases_cons.2 with rfl | ⟨rfl, hfeed⟩
    · have hrest : c.rest = 10 :: utf8 cs := hc
      rw [passContent_of_atDelimiter (.inr ⟨10, by simp [hrest], rfl⟩)]
      simp [current, hrest]
    · obtain ⟨cs, rfl⟩ := List.head?_eq_some_iff.1 hfeed
      have hrest : c.rest = 13 :: 10 :: utf8 cs := hc
      rw [passContent_of_atDelimiter (.inr ⟨13, by simp [hrest], rfl⟩)]
      simp [current, peek, hrest]

/-- A carriage return without a line feed behind it is passed. -/
theorem passContent_of_return (h : atLineBreak ('\r' :: cs) = false)
    (hc : c.rest = utf8 ('\r' :: cs)) : c.passContent = c.advance.passContent := by
  have hrest : c.rest = 13 :: utf8 cs := hc
  have hpeek : c.peek ≠ 10 := by
    cases cs with
    | nil => simp [peek, hrest]
    | cons d cs =>
      obtain ⟨b, bs, hd, -⟩ := charWidth_encode d
      have hb : b ∈ String.utf8EncodeChar d := hd ▸ List.mem_cons_self
      simp only [peek, hrest, utf8_cons, hd]
      rintro rfl
      have hd : d = '\n' := eq_of_mem_encode hb (by decide)
      simp [atLineBreak_cons, hd] at h
  rw [passContent_of_atDelimiter (.inr ⟨13, by simp [hrest], rfl⟩)]
  simp [current, hrest, hpeek]

/-- A backslash in front of a line break or the end is passed alone. -/
theorem passContent_of_stopEscape (h : LineStops cs) (hc : c.rest = utf8 ('\\' :: cs)) :
    c.passContent = (c.advance, false) := by
  have hrest : c.rest = 92 :: utf8 cs := hc
  have hadvance : c.advance.rest = utf8 cs := rest_passed hc
  have hstop := passContent_of_lineStops h hadvance
  rw [passContent_of_atDelimiter (.inr ⟨92, by simp [hrest], rfl⟩),
    if_neg (by simp [current, hrest]), if_pos (by simp [current, hrest])]
  cases cs with
  | nil =>
    -- At the end there is no character to pass.
    have hend : c.advance.advanceChar = c.advance := by
      rw [advanceChar, advanceN_eq_iterate,
        iterate_advance_of_isAtEnd (by rw [isAtEnd, hadvance]; rfl)]
    rw [hend, hstop, ite_self]
  | cons d cs =>
    have hcurrent : c.advance.current = 10 ∨ c.advance.current = 13 := by
      rw [current, hadvance]
      rcases h.cases_cons.2 with rfl | ⟨rfl, -⟩
      · exact .inl rfl
      · exact .inr rfl
    rw [if_pos hcurrent, hstop]

/-- What stands behind a backslash is passed, unless it is a line break. -/
theorem passContent_of_escape (h : atLineBreak (d :: cs) = false)
    (hc : c.rest = utf8 ('\\' :: d :: cs)) :
    c.passContent = (advance^[d.utf8Size] c.advance).passContent := by
  have hrest : c.rest = 92 :: utf8 (d :: cs) := hc
  have hadvance : c.advance.rest = utf8 (d :: cs) := rest_passed hc
  rw [passContent_of_atDelimiter (.inr ⟨92, by simp [hrest], rfl⟩),
    if_neg (by simp [current, hrest]), if_pos (by simp [current, hrest])]
  by_cases hreturn : d = '\r'
  · subst hreturn
    have hcurrent : c.advance.current = 13 := by
      rw [current, hadvance]
      rfl
    rw [if_pos (.inr hcurrent), passContent_of_return h hadvance]
    rfl
  · have hcurrent := current_mem hadvance
    rw [if_neg, advanceChar_eq hadvance]
    rintro (heq | heq) <;> rw [heq] at hcurrent
    · exact ne_lineFeed_of_atLineBreak h (eq_of_mem_encode hcurrent (by decide))
    · exact hreturn (eq_of_mem_encode hcurrent (by decide))

/-- A plain character is passed, in a jump or, if it is a carriage return, between two. -/
theorem passContent_of_plain (hquote : d ≠ '"') (hbackslash : d ≠ '\\')
    (h : atLineBreak (d :: cs) = false) (hc : c.rest = utf8 (d :: cs)) :
    c.passContent = (advance^[d.utf8Size] c).passContent := by
  by_cases hreturn : d = '\r'
  · subst hreturn
    exact passContent_of_return h hc
  · have hplain : ∀ b ∈ String.utf8EncodeChar d, isStringDelimiter b = false := fun b hb =>
      isStringDelimiter_of_mem hb hquote hbackslash (ne_lineFeed_of_atLineBreak h) hreturn
    rw [← String.length_utf8EncodeChar]
    exact passContent_congr (skipPlain_iterate hc hplain).symm

/-- The scanner by jumps ends where the grammar says. -/
theorem passContent_of_quotedBody (h : QuotedBody '"' body behind closed)
    (hc : c.rest = utf8 (body ++ behind)) :
    c.passContent = (advance^[byteLength body] c, closed) := by
  induction h generalizing c with
  | close =>
    have hrest : c.rest = 34 :: utf8 _ := hc
    rw [passContent_of_atDelimiter (.inr ⟨34, by simp [hrest], rfl⟩),
      if_pos (by simp [current, hrest])]
    rfl
  | stop h => exact passContent_of_lineStops h hc
  | stopEscape h => exact passContent_of_stopEscape h hc
  | escape hd h ih =>
    rw [List.cons_append, List.cons_append] at hc
    rw [passContent_of_escape hd hc, iterate_byteLength_cons, iterate_byteLength_cons]
    exact ih (rest_passed (rest_passed hc))
  | plain hquote hbackslash hd h ih =>
    rw [List.cons_append] at hc
    rw [passContent_of_plain hquote hbackslash hd hc, iterate_byteLength_cons]
    exact ih (rest_passed hc)

theorem rest_advanceN_ofSource {s : Source} {front : List Char} (hs : s.chars = front ++ cs) :
    ((ofSource s).advanceN (byteLength front)).rest = utf8 cs := by
  rw [advanceN_eq_iterate, rest_iterate_advance]
  show (utf8 s.chars).drop _ = _
  rw [hs, utf8_append, ← length_utf8, List.drop_left]

/-- From its quote, the scanner by jumps passes the string that the grammar finds. -/
theorem passString_of_quotedBody {s : Source} {front : List Char}
    (hs : s.chars = front ++ '"' :: (body ++ behind)) (h : QuotedBody '"' body behind closed) :
    ((ofSource s).advanceN (byteLength front)).passString =
      ((ofSource s).advanceN (byteLength (front ++ '"' :: body)), closed) := by
  have hquote := rest_advanceN_ofSource hs
  have hcontent := passContent_of_quotedBody h (rest_passed hquote)
  have hstop : (ofSource s).advanceN (byteLength (front ++ '"' :: body)) =
      advance^[byteLength ('"' :: body)] ((ofSource s).advanceN (byteLength front)) := by
    rw [advanceN_eq_iterate, advanceN_eq_iterate, byteLength_append, Nat.add_comm,
      Function.iterate_add_apply]
  rw [hstop, iterate_byteLength_cons]
  exact hcontent

end ByteCursor

/-! ## String tokens -/

variable {s : Source} {t : Token} {front body behind : List Char} {closed : Bool}

/-- A token that begins with a double quote, by what the grammar finds behind the quote. -/
theorem ReadAt.string_of_quotedBody (h : ReadAt s t front '"' (body ++ behind))
    (hbody : QuotedBody '"' body behind closed) :
    t = ⟨.string, .recount front, byteLength ('"' :: body)⟩ ∧
    s.tokenText t = String.ofList ('"' :: body) ∧
    (lexRaw s 0).diagnosticsIn t.span =
      if closed then [] else [.about .unterminatedString .lexing t.position t.length] := by
  obtain ⟨-, hkind, hposition, hlength, htext, hdiagnostics⟩ := h
  have hscan : Piece.scan '"' (body ++ behind) =
      ⟨some .string, if closed then none else some .unterminatedString, body.length⟩ := by
    rw [Piece.scan_quote, Piece.string, StringLiteral.scan_of_quotedBody hbody]
  rw [hscan] at hkind hlength htext hdiagnostics
  rw [List.take_left] at hlength htext
  refine ⟨?_, htext, ?_⟩
  · rw [← hlength, ← hposition, Option.some.inj hkind]
  · rw [hdiagnostics]
    cases closed <;> rfl

/-- **Strings end where the grammar says.** Every string token begins with a double quote, and where
a double quote begins a token, that token is the string that the grammar of literals finds there,
and nothing else. Scanning on bytes by jumps leads from the beginning of the token to its end. The
only complaint in its span is that the string is not closed, which is made once, about the whole
token, if the grammar finds it so. -/
theorem scans_strings (s : Source) :
    (∀ t ∈ (lexRaw s 0).tokens, t.kind = .string → ∃ front rest, s.chars = front ++ '"' :: rest ∧
      t.start = byteLength front) ∧
    ∀ t ∈ (lexRaw s 0).tokens, ∀ front rest, s.chars = front ++ '"' :: rest →
      t.start = byteLength front → ∃ body behind closed, rest = body ++ behind ∧
        QuotedBody '"' body behind closed ∧
        (∀ body' behind' closed', rest = body' ++ behind' → QuotedBody '"' body' behind' closed' →
          body' = body ∧ closed' = closed) ∧
        t = ⟨.string, .recount front, byteLength ('"' :: body)⟩ ∧
        s.tokenText t = String.ofList ('"' :: body) ∧
        (lexRaw s 0).diagnosticsIn t.span =
          (if closed then [] else [.about .unterminatedString .lexing t.position t.length]) ∧
        ((ByteCursor.ofSource s).advanceN t.start).passString =
          ((ByteCursor.ofSource s).advanceN t.stop, closed) := by
  constructor
  · intro t ht hkind
    obtain ⟨front, c, cs, h⟩ := exists_readAt ht (by simp [hkind])
    obtain rfl := (Piece.quote_of_scan h.kind_eq).1 hkind
    exact ⟨front, cs, h.chars_eq, congrArg Position.offset h.position_eq⟩
  · intro t ht front rest hs hstart
    obtain ⟨body, behind, closed, rfl, hbody⟩ := exists_quotedBody '"' rest
    obtain ⟨htoken, htext, hdiagnostics⟩ :=
      (readAt_of_start_eq ht hs hstart).string_of_quotedBody hbody
    have hstop : t.stop = byteLength (front ++ '"' :: body) := by
      rw [byteLength_append, Token.stop, hstart, htoken]
    refine ⟨body, behind, closed, rfl, hbody, fun _ _ _ heq h => hbody.unique (.inl rfl) h heq,
      htoken, htext, hdiagnostics, ?_⟩
    rw [hstart, hstop]
    exact ByteCursor.passString_of_quotedBody hs hbody

/-- A string with an escaped carriage return, a character of two bytes and a zero character, which
is open at its line break. -/
theorem scans_strings_open :
    let s : Source := ⟨"x\"\u00e9\\\r\x00\r\ny", none⟩
    let t : Token := ⟨.string, ⟨1, 1, 2⟩, 6⟩
    let rest := ['\u00e9', '\\', '\r', '\x00', '\r', '\n', 'y']
    (t ∈ (lexRaw s 0).tokens ∧ s.chars = ['x'] ++ '"' :: rest ∧ t.start = byteLength ['x']) ∧
    (∃ front rest, s.chars = front ++ '"' :: rest ∧ t.start = byteLength front) ∧
    ∃ body behind closed, rest = body ++ behind ∧ QuotedBody '"' body behind closed ∧
      (∀ body' behind' closed', rest = body' ++ behind' → QuotedBody '"' body' behind' closed' →
        body' = body ∧ closed' = closed) ∧
      t = ⟨.string, .recount ['x'], byteLength ('"' :: body)⟩ ∧
      s.tokenText t = String.ofList ('"' :: body) ∧
      (lexRaw s 0).diagnosticsIn t.span =
        (if closed then [] else [.about .unterminatedString .lexing t.position t.length]) ∧
      ((ByteCursor.ofSource s).advanceN t.start).passString =
        ((ByteCursor.ofSource s).advanceN t.stop, closed) := by
  intro s t rest
  have ht : t ∈ (lexRaw s 0).tokens := by decide +kernel
  have hs : s.chars = ['x'] ++ '"' :: rest := by decide +kernel
  obtain ⟨hquote, hstring⟩ := scans_strings s
  exact ⟨⟨ht, hs, rfl⟩, hquote t ht rfl, hstring t ht ['x'] rest hs rfl⟩

end DeclFront
