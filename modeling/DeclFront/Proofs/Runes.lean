import DeclFront.Proofs.QuotedBodies

/-!
# Runes that spell one rune

A rune literal is to spell one rune. Spelled is a rune by a character, by an escape of one
character, or by an escape by code (`RuneLiteral.IsUnit`). The scanner counts as it goes, and as the
count never falls (`RuneLiteral.le_runes`), it is one at the closing quote only if the quote stands
behind the first unit.

The scanner does not ask whether the brace of an escape by code is closed. An escape that breaks off
at another character, such as the closing quote, counts as a rune too (`RuneLiteral.IsOpenCode`),
and nothing is said about it (`not_complains_open_code`).

**Theorem (`complains_runes`).** Apart from this, the only runes without a complaint are the ones of
one unit. A rune that is not closed is complained about for that, and every other one for the number
of its units.
-/

namespace DeclFront

open Character

namespace RuneLiteral

variable {c : Char} {u cs rest : List Char} {e : Escape} {n k m : Nat}

/-! ## Units -/

/-- The spellings of one rune. -/
inductive IsUnit : List Char → Prop
  | plain {c : Char} (hquote : c ≠ '\'') (hbackslash : c ≠ '\\') (hfeed : c ≠ '\n') : IsUnit [c]
  | escape {c : Char} (hreturn : c ≠ '\r') (hfeed : c ≠ '\n') : IsUnit ['\\', c]
  | code {digits : List Char} (h : ∀ d ∈ digits, isHexDigit d = true) :
    IsUnit ('\\' :: 'u' :: '{' :: (digits ++ ['}']))

/-- Escapes by code without the brace that closes them. -/
inductive IsOpenCode : List Char → Prop
  | mk {digits : List Char} (h : ∀ d ∈ digits, isHexDigit d = true) :
    IsOpenCode ('\\' :: 'u' :: '{' :: digits)

/-- What the scanner counts as one rune. -/
def CountsOnce (u : List Char) : Prop := IsUnit u ∨ IsOpenCode u

/-! ## Counting -/

/-- The count never falls. -/
theorem le_runes : k ≤ (walk e n k cs).runes := by
  induction cs generalizing e n k with
  | nil => exact Nat.le_refl _
  | cons c cs ih =>
    rw [walk]
    split
    · exact ih
    · split_ifs
      · exact Nat.le_refl _
      · exact Nat.le_refl _
      all_goals exact Nat.le_of_succ_le ih

/-- Where no escape goes on, only a closing quote closes the literal without another rune. -/
theorem quote_of_walk (hnext : e.next? c cs = none) (h : walk e n k (c :: cs) = ⟨m, k, true⟩) :
    c = '\'' ∧ m = n + 1 := by
  by_cases hquote : c = '\''
  · rw [walk, hnext, hquote] at h
    exact ⟨hquote, (Extent.mk.inj h).1.symm⟩
  rcases lineStops_or c cs with hstop | hc
  · have hopen := walk_of_lineStops (e := .idle) (n := n) (k := k) hstop (by decide)
    rw [walk, hnext] at h
    rw [walk, Escape.next?] at hopen
    exact absurd (hopen.symm.trans h) (by simp)
  · rw [walk_of_next?_eq_none hnext hquote hc] at h
    have hmore :
        k + 1 ≤ (walk (if c == '\\' then .backslash else .idle) (n + 1) (k + 1) cs).runes :=
      le_runes
    rw [h] at hmore
    exact absurd hmore (Nat.not_succ_le_self k)

theorem quote_of_walk_idle (h : walk .idle n k cs = ⟨m, k, true⟩) :
    ∃ rest, cs = '\'' :: rest ∧ m = n + 1 := by
  cases cs with
  | nil => simp [walk] at h
  | cons c cs =>
    obtain ⟨rfl, hm⟩ := quote_of_walk rfl h
    exact ⟨cs, rfl, hm⟩

theorem walk_digits (h : ∀ d ∈ u, isHexDigit d = true) :
    walk .digits n k (u ++ cs) = walk .digits (n + u.length) k cs := by
  induction u generalizing n with
  | nil => rfl
  | cons d u ih =>
    obtain ⟨hd, hu⟩ := List.forall_mem_cons.1 h
    rw [List.cons_append, walk_of_next?_eq_some (f := .digits) (by simp [Escape.next?, hd]), ih hu,
      List.length_cons, Nat.add_assoc, Nat.add_comm 1]

/-- Behind the brace of an escape by code stand digits, and then, unless there is another rune, the
closing quote, with the other brace in front of it or without. -/
theorem quote_of_walk_digits (h : walk .digits n k cs = ⟨m, k, true⟩) :
    ∃ digits brace rest, (∀ d ∈ digits, isHexDigit d = true) ∧ (brace = [] ∨ brace = ['}']) ∧
      cs = digits ++ brace ++ '\'' :: rest ∧ m = n + (digits ++ brace).length + 1 := by
  induction cs generalizing n with
  | nil => simp [walk] at h
  | cons c cs ih =>
    by_cases hdigit : isHexDigit c = true
    · rw [walk_of_next?_eq_some (f := .digits) (by simp [Escape.next?, hdigit])] at h
      obtain ⟨digits, brace, rest, hdigits, hbrace, rfl, rfl⟩ := ih h
      refine ⟨c :: digits, brace, rest, List.forall_mem_cons.2 ⟨hdigit, hdigits⟩, hbrace, rfl, ?_⟩
      rw [List.cons_append, List.length_cons]
      omega
    by_cases hbrace : c = '}'
    · subst hbrace
      rw [walk_of_next?_eq_some (f := .idle) rfl] at h
      obtain ⟨rest, rfl, rfl⟩ := quote_of_walk_idle h
      exact ⟨[], ['}'], rest, by simp, .inr rfl, rfl, rfl⟩
    · obtain ⟨rfl, rfl⟩ := quote_of_walk (by simp [Escape.next?, hdigit, hbrace]) h
      exact ⟨[], [], cs, by simp, .inl rfl, rfl, rfl⟩

/-! ## One rune -/

theorem scan_backslash (cs : List Char) : scan ('\\' :: cs) = walk .backslash 1 1 cs :=
  walk_begin_escape (e := .idle) trivial

theorem scan_code (cs : List Char) : scan ('\\' :: 'u' :: '{' :: cs) = walk .digits 3 1 cs := by
  rw [scan_backslash, walk_of_next?_eq_some (f := .beforeBrace) rfl, walk_of_next?_eq_some rfl]

/-- A unit in front of a closing quote is one rune. -/
theorem scan_of_countsOnce (hu : CountsOnce u) (rest : List Char) :
    scan (u ++ '\'' :: rest) = ⟨u.length + 1, 1, true⟩ := by
  rcases hu with hu | hu
  · cases hu with
    | @plain c hquote hbackslash hfeed =>
      have hc : atLineBreak (c :: '\'' :: rest) = false := by
        rw [atLineBreak_cons]
        simpa using hfeed
      rw [List.singleton_append, scan, walk_of_next?_eq_none rfl hquote hc, if_neg (by simpa)]
      rfl
    | escape hreturn hfeed =>
      rw [List.cons_append, List.singleton_append, scan_backslash,
        walk_of_next?_eq_some (f := .idle) (by simp [Escape.next?, hreturn, hfeed])]
      rfl
    | @code digits h =>
      simp only [List.cons_append, List.append_assoc, List.length_cons, List.length_append]
      rw [scan_code, walk_digits h, Nat.add_comm 3]
      rfl
  · cases hu with
    | mk h =>
      simp only [List.cons_append, List.length_cons]
      rw [scan_code, walk_digits h, Nat.add_comm 3]
      rfl

/-- Behind a backslash, what makes one rune of it stands in front of the closing quote. -/
theorem exists_countsOnce_backslash (h : walk .backslash 1 1 cs = ⟨n, 1, true⟩) :
    ∃ u rest, CountsOnce ('\\' :: u) ∧ cs = u ++ '\'' :: rest ∧ n = u.length + 2 := by
  cases cs with
  | nil => simp [walk] at h
  | cons d cs =>
    by_cases hcode : d = 'u' ∧ cs.head? = some '{'
    · obtain ⟨rfl, hopen⟩ := hcode
      obtain ⟨cs, rfl⟩ := List.head?_eq_some_iff.1 hopen
      rw [← scan_backslash, scan_code] at h
      obtain ⟨digits, brace, rest, hdigits, hbrace, rfl, rfl⟩ := quote_of_walk_digits h
      refine ⟨'u' :: '{' :: (digits ++ brace), rest, ?_, rfl, ?_⟩
      · rcases hbrace with rfl | rfl
        · rw [List.append_nil]
          exact .inr (.mk hdigits)
        · exact .inl (.code hdigits)
      · simp only [List.length_cons]
        omega
    by_cases hbreak : d = '\n' ∨ d = '\r'
    · -- Neither is escaped, and neither is the quote that closes the literal.
      have hnext : Escape.next? .backslash d cs = none := by
        rcases hbreak with rfl | rfl <;> rfl
      obtain ⟨rfl, -⟩ := quote_of_walk hnext h
      exact absurd hbreak (by decide)
    · obtain ⟨hfeed, hreturn⟩ := not_or.1 hbreak
      rw [walk_of_next?_eq_some (f := .idle)
        (by simpa [Escape.next?, hfeed, hreturn] using hcode)] at h
      obtain ⟨rest, rfl, rfl⟩ := quote_of_walk_idle h
      exact ⟨[d], rest, .inl (.escape hreturn hfeed), rfl, rfl⟩

/-- A rune that is counted as one has one unit in front of its closing quote. -/
theorem exists_countsOnce (h : scan cs = ⟨n, 1, true⟩) :
    ∃ u rest, CountsOnce u ∧ cs = u ++ '\'' :: rest ∧ n = u.length + 1 := by
  cases cs with
  | nil => simp [scan, walk] at h
  | cons c cs =>
    by_cases hquote : c = '\''
    · subst hquote
      simp [scan, walk, Escape.next?] at h
    rcases lineStops_or c cs with hstop | hc
    · rw [scan, walk_of_lineStops hstop (by decide)] at h
      simp at h
    by_cases hbackslash : c = '\\'
    · subst hbackslash
      rw [scan_backslash] at h
      obtain ⟨u, rest, hu, rfl, rfl⟩ := exists_countsOnce_backslash h
      exact ⟨'\\' :: u, rest, hu, rfl, rfl⟩
    · have hfeed : c ≠ '\n' := by
        rintro rfl
        simp [atLineBreak_cons] at hc
      rw [scan, walk_of_next?_eq_none rfl hquote hc, if_neg (by simpa)] at h
      obtain ⟨rest, rfl, rfl⟩ := quote_of_walk_idle h
      exact ⟨[c], rest, .inl (.plain hquote hbackslash hfeed), rfl, rfl⟩

/-- The runes that are closed and counted as one. -/
theorem closed_and_runes_eq_one_iff {body behind : List Char} {runes : Nat} {closed : Bool}
    (h : scan (body ++ behind) = ⟨body.length, runes, closed⟩) :
    closed = true ∧ runes = 1 ↔ ∃ u, CountsOnce u ∧ body = u ++ ['\''] := by
  constructor
  · rintro ⟨rfl, rfl⟩
    obtain ⟨u, rest, hu, htext, hlength⟩ := exists_countsOnce h
    refine ⟨u, hu, (List.append_inj (htext.trans (List.append_cons u '\'' rest)) ?_).1⟩
    rw [hlength, List.length_append, List.length_singleton]
  · rintro ⟨u, hu, rfl⟩
    rw [List.append_assoc, List.singleton_append, scan_of_countsOnce hu] at h
    obtain ⟨-, hone, hclosed⟩ := Extent.mk.inj h
    exact ⟨hclosed.symm, hone.symm⟩

end RuneLiteral

/-! ## Rune tokens -/

open RuneLiteral

variable {s : Source} {t : Token} {front body behind : List Char} {closed : Bool}

/-- A token that begins with a single quote, by what the grammar finds behind the quote. -/
theorem ReadAt.rune_of_quotedBody (h : ReadAt s t front '\'' (body ++ behind))
    (hbody : QuotedBody '\'' body behind closed) :
    t = ⟨.rune, .recount front, byteLength ('\'' :: body)⟩ ∧
    s.tokenText t = String.ofList ('\'' :: body) ∧
    ∃ runes, scan (body ++ behind) = ⟨body.length, runes, closed⟩ ∧
      (lexRaw s 0).diagnosticsIn t.span =
        if closed = false then [.about .unterminatedRune .lexing t.position t.length]
        else if runes = 1 then []
        else [.about .multipleRunes .lexing t.position t.length] := by
  obtain ⟨-, hkind, hposition, hlength, htext, hdiagnostics⟩ := h
  obtain ⟨runes, hextent⟩ := scan_of_quotedBody hbody
  have hscan : Piece.scan '\'' (body ++ behind) = ⟨some .rune,
      if !closed then some .unterminatedRune else if runes = 1 then none else some .multipleRunes,
      body.length⟩ := by
    rw [Piece.scan_apostrophe, Piece.rune, hextent]
  rw [hscan] at hkind hlength htext hdiagnostics
  rw [List.take_left] at hlength htext
  refine ⟨?_, htext, runes, hextent, ?_⟩
  · rw [← hlength, ← hposition, Option.some.inj hkind]
  · rw [hdiagnostics]
    cases closed with
    | false => rfl
    | true => by_cases hone : runes = 1 <;> simp [hone]

/-- **Which runes are complained about.** Every rune token begins with a single quote and ends where
the grammar of literals says. Nothing is said about it exactly if it is a single quote, what is
counted as one rune, and a single quote; that is a unit, or an escape by code whose brace is not
closed. The rune is complained about as not closed exactly if the grammar finds it so, and all
others for the number of their runes. There is one complaint at most, which is about the whole
token. -/
theorem complains_runes (s : Source) :
    ∀ t ∈ (lexRaw s 0).tokens, t.kind = .rune → ∃ front body behind closed,
      s.chars = front ++ '\'' :: (body ++ behind) ∧ QuotedBody '\'' body behind closed ∧
      (∀ body' behind' closed', body ++ behind = body' ++ behind' →
        QuotedBody '\'' body' behind' closed' → body' = body ∧ closed' = closed) ∧
      t = ⟨.rune, .recount front, byteLength ('\'' :: body)⟩ ∧
      s.tokenText t = String.ofList ('\'' :: body) ∧
      let found := (lexRaw s 0).diagnosticsIn t.span
      let spellsOne := ∃ u, (IsUnit u ∨ IsOpenCode u) ∧
        s.tokenText t = String.ofList ('\'' :: (u ++ ['\'']))
      found.length ≤ 1 ∧ (found = [] ↔ spellsOne) ∧
      (found = [.about .unterminatedRune .lexing t.position t.length] ↔ closed = false) ∧
      (found = [.about .multipleRunes .lexing t.position t.length] ↔
        closed = true ∧ ¬ spellsOne) := by
  intro t ht hkind
  obtain ⟨front, c, cs, h⟩ := exists_readAt ht (by simp [hkind])
  obtain rfl := (Piece.quote_of_scan h.kind_eq).2 hkind
  obtain ⟨body, behind, closed, rfl, hbody⟩ := exists_quotedBody '\'' cs
  obtain ⟨htoken, htext, runes, hextent, hdiagnostics⟩ := h.rune_of_quotedBody hbody
  refine ⟨front, body, behind, closed, h.chars_eq, hbody,
    fun _ _ _ heq h => hbody.unique (.inr rfl) h heq, htoken, htext, ?_⟩
  intro found spellsOne
  have hspells : spellsOne ↔ closed = true ∧ runes = 1 := by
    rw [closed_and_runes_eq_one_iff hextent]
    refine exists_congr fun u => and_congr_right fun _ => ?_
    rw [htext, String.ofList_inj, List.cons_inj_right]
  have hfound : found = _ := hdiagnostics
  have hne : Diagnostic.about .unterminatedRune .lexing t.position t.length ≠
      .about .multipleRunes .lexing t.position t.length :=
    fun h => nomatch congrArg Diagnostic.code h
  rw [hspells, hfound]
  cases closed with
  | false => simpa using hne
  | true => by_cases hone : runes = 1 <;> simp [hone, hne.symm]

/-- A carriage return and an escaped quote, which does not close the rune. -/
theorem complains_runes_escaped_quote :
    let s : Source := ⟨"'\r\\''", none⟩
    let t : Token := ⟨.rune, .origin, 5⟩
    t ∈ (lexRaw s 0).tokens ∧ ∃ front body behind closed,
      s.chars = front ++ '\'' :: (body ++ behind) ∧ QuotedBody '\'' body behind closed ∧
      (∀ body' behind' closed', body ++ behind = body' ++ behind' →
        QuotedBody '\'' body' behind' closed' → body' = body ∧ closed' = closed) ∧
      t = ⟨.rune, .recount front, byteLength ('\'' :: body)⟩ ∧
      s.tokenText t = String.ofList ('\'' :: body) ∧
      let found := (lexRaw s 0).diagnosticsIn t.span
      let spellsOne := ∃ u, (IsUnit u ∨ IsOpenCode u) ∧
        s.tokenText t = String.ofList ('\'' :: (u ++ ['\'']))
      found.length ≤ 1 ∧ (found = [] ↔ spellsOne) ∧
      (found = [.about .unterminatedRune .lexing t.position t.length] ↔ closed = false) ∧
      (found = [.about .multipleRunes .lexing t.position t.length] ↔
        closed = true ∧ ¬ spellsOne) := by
  intro s t
  have ht : t ∈ (lexRaw s 0).tokens := by decide +kernel
  exact ⟨ht, complains_runes s t ht rfl⟩

/-- Nothing is said about an escape by code whose brace is not closed, although it is no unit. -/
theorem not_complains_open_code :
    let s : Source := ⟨"'\\u\x7b41'", none⟩
    let t : Token := ⟨.rune, .origin, 7⟩
    t ∈ (lexRaw s 0).tokens ∧ (lexRaw s 0).diagnosticsIn t.span = [] ∧
      ¬ ∃ u, IsUnit u ∧ s.tokenText t = String.ofList ('\'' :: (u ++ ['\''])) := by
  intro s t
  refine ⟨by decide +kernel, by decide +kernel, ?_⟩
  rintro ⟨u, hu, htext⟩
  have hspelling :
      s.tokenText t = String.ofList ('\'' :: (['\\', 'u', '\x7b', '4', '1'] ++ ['\''])) := by
    decide +kernel
  rw [hspelling, String.ofList_inj, List.cons_inj_right, List.append_left_inj] at htext
  cases hu with
  | plain => simp at htext
  | escape => simp at htext
  | @code digits h =>
    have htail : ['4', '1'] = digits ++ ['\x7d'] := by simpa using htext
    simpa using congrArg List.getLast? htail

end DeclFront
