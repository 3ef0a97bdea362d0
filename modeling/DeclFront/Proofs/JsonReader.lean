import DeclFront.Proofs.JsonGrammar
import Mathlib.Data.List.TakeWhile

/-!
# Reading JSON

A reader for the grammar of JSON. Each part of it takes what it reads from the front of a text and
leaves the rest.

**What a reader has to do** (`Reads`). It reads every text of its rule, whatever stands behind that
may stand there, and what it reads is a text of its rule. Readers call themselves for the values
inside of values, so they are given a number that bounds the length of what they can read.

**Theorem (`read?_eq_some_iff`).** The reader accepts the texts of the grammar and gives what they
stand for. In particular, a text stands for one value at most.
-/

namespace DeclFront.Json

variable {α β : Type} {c : Char} {cs text rest : List Char} {n : Nat}

/-! ## Readers -/

/-- Takes away the blanks in front. -/
def skip (cs : List Char) : List Char := cs.dropWhile isBlank

/-- Takes away the character `c`. -/
def expect (c : Char) : List Char → Option (List Char)
  | [] => none
  | d :: cs => if d = c then some cs else none

/-- A sign and its factor, if there is one. -/
def readSign (signs : List (Char × ℤ)) : List Char → ℤ × List Char
  | [] => (1, [])
  | c :: cs => (signs.lookup c).elim (1, c :: cs) (·, cs)

/-- All digits in front, if there are any. -/
def readDigits (cs : List Char) : Option (List Char × List Char) :=
  if (cs.takeWhile Char.isDigit).isEmpty then none
  else some (cs.takeWhile Char.isDigit, cs.dropWhile Char.isDigit)

/-- Digits without a zero in front of others. -/
def readWhole (cs : List Char) : Option (List Char × List Char) := do
  let (ds, rest) ← readDigits cs
  if ds.head? = some '0' ∧ ds ≠ ['0'] then none else some (ds, rest)

/-- The digits behind a point, if there is one. -/
def readFraction (cs : List Char) : Option (List Char × List Char) :=
  (expect '.' cs).elim (some ([], cs)) readDigits

/-- The power of ten, if there is one. -/
def readExponent (cs : List Char) : Option (ℤ × List Char) :=
  ((expect 'e' cs).or (expect 'E' cs)).elim (some (0, cs)) fun cs => do
    let (ds, rest) ← readDigits (readSign plusMinus cs).2
    some ((readSign plusMinus cs).1 * Nat.ofDigitChars 10 ds 0, rest)

def readNumber (cs : List Char) : Option (ℚ × List Char) := do
  let (whole, cs') ← readWhole (readSign minus cs).2
  let (ds, cs'') ← readFraction cs'
  let (e, rest) ← readExponent cs''
  some (decimal (readSign minus cs).1 whole ds e, rest)

/-- The code of four hexadecimal digits. -/
def readCode (cs : List Char) : Option (Nat × List Char) := (code? (cs.take 4)).map (·, cs.drop 4)

/-- The second half of a pair. -/
def readLow (high : Nat) (cs : List Char) : Option (Char × List Char) := do
  let (low, rest) ← readCode (← expect 'u' (← expect '\\' cs))
  if isLow low then some (paired high low, rest) else none

/-- The character that is spelled behind a backslash. -/
def readEscape : List Char → Option (Char × List Char)
  | [] => none
  | e :: cs =>
    if e = 'u' then do
      let (code, rest) ← readCode cs
      if isHigh code then readLow code rest
      else if isLow code then none
      else some (.ofNat code, rest)
    else (escapes.lookup e).map (·, cs)

/-- One character of a string. -/
def readChar : List Char → Option (Char × List Char)
  | [] => none
  | c :: cs =>
    if c = '\\' then readEscape cs else if isPlain c then some (c, cs) else none

/-- The characters of a string, up to the closing quote. -/
def readSpelling : Nat → List Char → Option (List Char × List Char)
  | 0, _ => none
  | n + 1, cs =>
    (expect '"' cs).elim
      (do
        let (c, cs') ← readChar cs
        let (more, rest) ← readSpelling n cs'
        some (c :: more, rest))
      fun rest => some ([], rest)

def readString (n : Nat) (cs : List Char) : Option (String × List Char) := do
  let (cs, rest) ← readSpelling n (← expect '"' cs)
  some (String.ofList cs, rest)

/-- Items up to the closing character. -/
def readItems (closing : Char) (item : List Char → Option (α × List Char)) :
    Nat → List Char → Option (List α × List Char)
  | 0, _ => none
  | n + 1, cs => do
    let (a, cs') ← item (skip cs)
    (expect ',' (skip cs')).elim
      (do
        let rest ← expect closing (skip cs')
        some ([a], rest))
      fun cs'' => do
        let (as, rest) ← readItems closing item n cs''
        some (a :: as, rest)

/-- No items, or some. -/
def readGroup (opening closing : Char) (item : List Char → Option (α × List Char)) (n : Nat)
    (cs : List Char) : Option (List α × List Char) := do
  let cs ← expect opening cs
  (expect closing (skip cs)).elim (readItems closing item n cs) fun rest => some ([], rest)

def readMember (n : Nat) (value : List Char → Option (Json × List Char)) (cs : List Char) :
    Option ((String × Json) × List Char) := do
  let (k, cs) ← readString n cs
  let cs ← expect ':' (skip cs)
  let (v, rest) ← value (skip cs)
  some ((k, v), rest)

/-- The first of the words that the text begins with. -/
def readWord (cs : List Char) : Option (Json × List Char) :=
  (words.find? (·.1.isPrefixOf cs)).map fun (word, v) => (v, cs.drop word.length)

/-- What a value begins with tells what it is. -/
def readValue : Nat → List Char → Option (Json × List Char)
  | 0, _ => none
  | n + 1, cs =>
    if cs.head? = some '"' then (readString n cs).map fun (s, rest) => (.string s, rest)
    else if cs.head? = some '[' then
      (readGroup '[' ']' (readValue n) n cs).map fun (vs, rest) => (.array vs, rest)
    else if cs.head? = some '\x7b' then
      (readGroup '\x7b' '\x7d' (readMember n (readValue n)) n cs).map fun (ms, rest) =>
        (.object ms, rest)
    else (readWord cs).or ((readNumber cs).map fun (q, rest) => (.number q, rest))

/-- The value that a whole text stands for. -/
def read? (cs : List Char) : Option Json := do
  let (v, rest) ← readValue (cs.length + 1) (skip cs)
  if (skip rest).isEmpty then some v else none

/-! ## What a reader has to do -/

/-- The reader reads the texts of the rule that are shorter than `n`, in front of what may follow
them, and nothing but texts of the rule. -/
structure Reads (n : Nat) (Is : List Char → α → Prop) (Follows : List Char → Prop)
    (read : List Char → Option (α × List Char)) : Prop where
  complete {text : List Char} {a : α} (h : Is text a) (hlength : text.length < n)
    (rest : List Char) (hfollows : Follows rest) : read (text ++ rest) = some (a, rest)
  sound {cs rest : List Char} {a : α} (h : read cs = some (a, rest)) :
    ∃ text, cs = text ++ rest ∧ Is text a

/-- What a reader gives can be wrapped. -/
theorem Reads.exists_map {Is : List Char → α → Prop} {Is' : List Char → β → Prop}
    {Follows : List Char → Prop} {read : List Char → Option (α × List Char)}
    (hread : Reads n Is Follows read) {f : α → β} {b : β}
    (hf : ∀ {text a}, Is text a → Is' text (f a))
    (h : ((read cs).map fun (a, rest) => (f a, rest)) = some (b, rest)) :
    ∃ text, cs = text ++ rest ∧ Is' text b := by
  simp only [Option.map_eq_some_iff, Prod.exists] at h
  obtain ⟨a, rest', hsome, h⟩ := h
  cases h
  obtain ⟨text, hcs, ha⟩ := hread.sound hsome
  exact ⟨text, hcs, hf ha⟩

/-- The text does not begin with such a character. -/
def Avoids (p : Char → Bool) (cs : List Char) : Prop := ∀ c ∈ cs.head?, p c = false

theorem avoids_cons {p : Char → Bool} : Avoids p (c :: cs) ↔ p c = false := by simp [Avoids]

theorem Avoids.mono {p q : Char → Bool} (h : Avoids p cs) (hpq : ∀ c, q c = true → p c = true) :
    Avoids q cs := fun c hc => by
  have hp := h c hc
  cases hq : q c with
  | false => rfl
  | true => rw [hpq c hq] at hp; cases hp

theorem takeWhile_append {p : Char → Bool} (h : ∀ c ∈ cs, p c = true) (hrest : Avoids p rest) :
    (cs ++ rest).takeWhile p = cs := by
  rw [List.takeWhile_append_of_pos h]
  cases rest with
  | nil => simp
  | cons c rest => simp [avoids_cons.1 hrest]

theorem dropWhile_append {p : Char → Bool} (h : ∀ c ∈ cs, p c = true) (hrest : Avoids p rest) :
    (cs ++ rest).dropWhile p = rest := by
  have hsplit := List.takeWhile_append_dropWhile (p := p) (l := cs ++ rest)
  rw [takeWhile_append h hrest] at hsplit
  exact List.append_cancel_left hsplit

theorem exists_blank (cs : List Char) : ∃ blank, cs = blank ++ skip cs ∧ IsBlank blank :=
  ⟨cs.takeWhile isBlank, List.takeWhile_append_dropWhile.symm, fun _ => List.mem_takeWhile_imp⟩

theorem skip_append {blank : List Char} (h : IsBlank blank) (hrest : Avoids isBlank rest) :
    skip (blank ++ rest) = rest := dropWhile_append h hrest

@[simp]
theorem expect_cons_self : expect c (c :: cs) = some cs := if_pos rfl

theorem expect_eq_some_iff : expect c cs = some rest ↔ cs = c :: rest := by
  cases cs with
  | nil => simp [expect]
  | cons d cs => by_cases h : d = c <;> simp [expect, h]

theorem expect_eq_none_iff : expect c cs = none ↔ Avoids (· == c) cs := by
  cases cs with
  | nil => simp [expect, Avoids]
  | cons d cs => by_cases h : d = c <;> simp [expect, avoids_cons, h]

/-- Looking up in a table that has every key once. -/
theorem lookup_eq_some_iff {table : List (Char × β)} {b : β}
    (h : (table.map Prod.fst).Nodup) : table.lookup c = some b ↔ (c, b) ∈ table := by
  induction table with
  | nil => simp
  | cons entry table ih =>
    obtain ⟨d, b'⟩ := entry
    rw [List.map_cons, List.nodup_cons] at h
    by_cases hd : c = d
    · subst hd
      have hc : (c, b) ∉ table := fun hmem => h.1 (List.mem_map.2 ⟨_, hmem, rfl⟩)
      simp [hc, eq_comm]
    · have hbeq : (c == d) = false := by simpa using hd
      simp [List.lookup_cons, hbeq, hd, ih h.2]

/-! ## Numbers are read -/

/-- A sign is read in front of digits. -/
theorem readSign_append {signs : List (Char × ℤ)} {sign ds : List Char} {s : ℤ}
    (hnodup : (signs.map Prod.fst).Nodup) (hsigns : ∀ entry ∈ signs, entry.1.isDigit = false)
    (h : IsSign signs sign s) (hdigits : IsDigits ds) (rest : List Char) :
    readSign signs (sign ++ (ds ++ rest)) = (s, ds ++ rest) := by
  cases h with
  | present h => simp [readSign, (lookup_eq_some_iff hnodup).2 h]
  | absent =>
    obtain ⟨hne, hdigit⟩ := hdigits
    cases ds with
    | nil => exact absurd rfl hne
    | cons d ds =>
      have hnone : signs.lookup d = none := by
        refine List.lookup_eq_none_iff.2 fun entry hentry => ?_
        have hd : d ≠ entry.1 := by
          rintro rfl
          exact absurd (hdigit _ List.mem_cons_self) (by rw [hsigns entry hentry]; decide)
        simpa using hd
      simp [readSign, hnone]

theorem exists_sign (signs : List (Char × ℤ)) (hnodup : (signs.map Prod.fst).Nodup)
    (cs : List Char) :
    ∃ sign, cs = sign ++ (readSign signs cs).2 ∧ IsSign signs sign (readSign signs cs).1 := by
  cases cs with
  | nil => exact ⟨[], rfl, .absent⟩
  | cons c cs =>
    cases h : signs.lookup c with
    | none => exact ⟨[], by simp [readSign, h], by simpa [readSign, h] using .absent⟩
    | some s =>
      refine ⟨[c], by simp [readSign, h], ?_⟩
      simpa [readSign, h] using IsSign.present ((lookup_eq_some_iff hnodup).1 h)

theorem reads_digits : Reads n (fun text ds => IsDigits text ∧ ds = text) (Avoids Char.isDigit)
    readDigits where
  complete := by
    rintro text _ ⟨h, rfl⟩ - rest hrest
    rw [readDigits, takeWhile_append h.2 hrest, dropWhile_append h.2 hrest,
      if_neg (by simpa using h.1)]
  sound := by
    intro cs rest ds h
    rw [readDigits] at h
    split at h
    · cases h
    · next hne =>
      cases h
      exact ⟨_, List.takeWhile_append_dropWhile.symm,
        ⟨by simpa using hne, fun _ => List.mem_takeWhile_imp⟩, rfl⟩

theorem reads_whole : Reads n (fun text ds => IsWhole text ∧ ds = text) (Avoids Char.isDigit)
    readWhole where
  complete := by
    rintro text _ ⟨⟨hdigits, hzero⟩, rfl⟩ hlength rest hrest
    rw [readWhole, reads_digits.complete ⟨hdigits, rfl⟩ hlength rest hrest]
    exact if_neg fun h => h.2 (hzero h.1)
  sound := by
    intro cs rest ds h
    simp only [readWhole, Option.bind_eq_bind, Option.bind_eq_some_iff, Prod.exists] at h
    obtain ⟨ds', rest', hread, h⟩ := h
    obtain ⟨text, rfl, hdigits, rfl⟩ := reads_digits (n := 0).sound hread
    split at h
    · cases h
    · next hzero =>
      cases h
      exact ⟨_, rfl, ⟨hdigits, fun hhead => by_contra fun hne => hzero ⟨hhead, hne⟩⟩, rfl⟩

/-- What can stand behind the digits of a whole number and belong to it. -/
def isFractional (c : Char) : Bool := c.isDigit || c == '.'

/-- What numbers are made of. -/
def isNumeral (c : Char) : Bool :=
  isFractional c || c == 'e' || c == 'E' || c == '+' || c == '-'

theorem reads_fraction : Reads n IsFraction (Avoids isFractional) readFraction where
  complete := by
    intro text ds h hlength rest hrest
    have hdigit : Avoids Char.isDigit rest := hrest.mono fun c hc => by simp [isFractional, hc]
    cases h with
    | absent =>
      have hpoint : Avoids (· == '.') rest := hrest.mono fun c hc => by simp_all [isFractional]
      rw [readFraction, List.nil_append, expect_eq_none_iff.2 hpoint]
      rfl
    | present h =>
      rw [readFraction, List.cons_append, expect_cons_self]
      exact reads_digits.complete ⟨h, rfl⟩ (Nat.lt_of_succ_lt hlength) rest hdigit
  sound := by
    intro cs rest ds h
    rw [readFraction] at h
    cases hpoint : expect '.' cs with
    | none =>
      rw [hpoint] at h
      cases h
      exact ⟨[], rfl, .absent⟩
    | some cs' =>
      rw [hpoint] at h
      obtain ⟨text, rfl, hdigits, rfl⟩ := reads_digits (n := 0).sound h
      exact ⟨'.' :: ds, expect_eq_some_iff.1 hpoint, .present hdigits⟩

theorem IsFraction.avoids {ds : List Char} (h : IsFraction text ds)
    (hrest : Avoids isFractional rest) : Avoids Char.isDigit (text ++ rest) := by
  cases h with
  | absent => exact hrest.mono fun c hc => by simp [isFractional, hc]
  | present h => exact avoids_cons.2 rfl

theorem reads_exponent : Reads n IsExponent (Avoids isNumeral) readExponent where
  complete := by
    intro text e h hlength rest hrest
    have hdigit : Avoids Char.isDigit rest :=
      hrest.mono fun c hc => by simp [isNumeral, isFractional, hc]
    cases h with
    | absent =>
      have hsmall : Avoids (· == 'e') rest := hrest.mono fun c hc => by simp_all [isNumeral]
      have hcapital : Avoids (· == 'E') rest := hrest.mono fun c hc => by simp_all [isNumeral]
      rw [readExponent, List.nil_append, expect_eq_none_iff.2 hsmall, expect_eq_none_iff.2 hcapital]
      rfl
    | @present e sign ds s he hsign h =>
      have hsign' : readSign plusMinus (sign ++ (ds ++ rest)) = (s, ds ++ rest) :=
        readSign_append (by decide) (by decide) hsign h rest
      have hdigits : readDigits (ds ++ rest) = some (ds, rest) :=
        reads_digits.complete ⟨h, rfl⟩ (Nat.lt_succ_self _) rest hdigit
      have hmark : (expect 'e' (e :: (sign ++ (ds ++ rest)))).or
          (expect 'E' (e :: (sign ++ (ds ++ rest)))) = some (sign ++ (ds ++ rest)) := by
        obtain rfl | rfl := he <;> rfl
      rw [readExponent, List.cons_append, List.append_assoc, hmark]
      simp [hsign', hdigits]
  sound := by
    intro cs rest e h
    rw [readExponent] at h
    cases hmark : (expect 'e' cs).or (expect 'E' cs) with
    | none =>
      rw [hmark] at h
      cases h
      exact ⟨[], rfl, .absent⟩
    | some cs' =>
      rw [hmark] at h
      simp only [Option.elim_some, Option.bind_eq_bind, Option.bind_eq_some_iff, Prod.exists] at h
      obtain ⟨ds, rest', hread, h⟩ := h
      cases h
      obtain ⟨sign, hcs', hsign⟩ := exists_sign plusMinus (by decide) cs'
      obtain ⟨_, htext, hdigits, rfl⟩ := reads_digits (n := 0).sound hread
      obtain ⟨c, hcs, hc⟩ : ∃ c, cs = c :: cs' ∧ (c = 'e' ∨ c = 'E') := by
        obtain hsmall | ⟨-, hcapital⟩ := Option.or_eq_some_iff.1 hmark
        · exact ⟨'e', expect_eq_some_iff.1 hsmall, .inl rfl⟩
        · exact ⟨'E', expect_eq_some_iff.1 hcapital, .inr rfl⟩
      exact ⟨_, by rw [hcs, hcs', htext]; simp, .present hc hsign hdigits⟩

theorem IsExponent.avoids {e : ℤ} (h : IsExponent text e) (hrest : Avoids isNumeral rest) :
    Avoids isFractional (text ++ rest) := by
  cases h with
  | absent => exact hrest.mono fun c hc => by simp [isNumeral, hc]
  | present he => exact avoids_cons.2 (by obtain rfl | rfl := he <;> rfl)

theorem reads_number : Reads n IsNumber (Avoids isNumeral) readNumber where
  complete := by
    rintro _ _ ⟨hsign, hwhole, hfraction, hexponent⟩ - rest hrest
    have hbehind := hexponent.avoids hrest
    have hsign' := readSign_append (by decide) (by decide) hsign hwhole.1
    have hwhole' :=
      reads_whole.complete ⟨hwhole, rfl⟩ (Nat.lt_succ_self _) _ (hfraction.avoids hbehind)
    have hfraction' := reads_fraction.complete hfraction (Nat.lt_succ_self _) _ hbehind
    have hexponent' := reads_exponent.complete hexponent (Nat.lt_succ_self _) rest hrest
    simp only [readNumber, List.append_assoc, hsign', hwhole', hfraction', hexponent',
      Option.bind_eq_bind, Option.bind_some]
  sound := by
    intro cs rest q h
    simp only [readNumber, Option.bind_eq_bind, Option.bind_eq_some_iff, Prod.exists] at h
    obtain ⟨whole, cs', hwhole, ds, cs'', hfraction, e, rest', hexponent, h⟩ := h
    cases h
    obtain ⟨sign, hcs, hsign⟩ := exists_sign minus (by decide) cs
    obtain ⟨_, htext, hwhole', rfl⟩ := reads_whole (n := 0).sound hwhole
    obtain ⟨fraction, rfl, hfraction'⟩ := reads_fraction (n := 0).sound hfraction
    obtain ⟨exponent, rfl, hexponent'⟩ := reads_exponent (n := 0).sound hexponent
    refine ⟨sign ++ (whole ++ (fraction ++ exponent)), ?_, hsign, hwhole', hfraction', hexponent'⟩
    rw [hcs, htext]
    simp

/-! ## Strings are read -/

theorem length_of_code? {ds : List Char} (h : code? ds = some n) : ds.length = 4 := by
  unfold code? at h
  split at h
  · rfl
  · cases h

theorem readCode_append {ds : List Char} (h : code? ds = some n) :
    readCode (ds ++ rest) = some (n, rest) := by
  have hlength := length_of_code? h
  rw [readCode, List.take_left' hlength, List.drop_left' hlength, h]
  rfl

theorem readCode_eq_some (h : readCode cs = some (n, rest)) :
    ∃ ds, cs = ds ++ rest ∧ code? ds = some n := by
  simp only [readCode, Option.map_eq_some_iff] at h
  obtain ⟨m, hcode, h⟩ := h
  cases h
  exact ⟨_, (List.take_append_drop 4 cs).symm, hcode⟩

theorem readLow_eq_some {high : Nat} (h : readLow high cs = some (c, rest)) :
    ∃ ds low, cs = '\\' :: 'u' :: (ds ++ rest) ∧ code? ds = some low ∧ isLow low = true ∧
      paired high low = c := by
  simp only [readLow, Option.bind_eq_bind, Option.bind_eq_some_iff, expect_eq_some_iff,
    Prod.exists] at h
  obtain ⟨_, rfl, _, rfl, low, rest', hcode, h⟩ := h
  obtain ⟨ds, rfl, hlow⟩ := readCode_eq_some hcode
  split at h
  · next hsecond =>
    simp only [Option.some.injEq, Prod.mk.injEq] at h
    obtain ⟨hc, rfl⟩ := h
    exact ⟨ds, low, rfl, hlow, hsecond, hc⟩
  · cases h

theorem readEscape_eq_some (h : readEscape cs = some (c, rest)) :
    ∃ text, cs = text ++ rest ∧ IsChar ('\\' :: text) c := by
  cases cs with
  | nil => cases h
  | cons e cs =>
    rw [readEscape] at h
    split at h
    · next he =>
      subst he
      simp only [Option.bind_eq_bind, Option.bind_eq_some_iff, Prod.exists] at h
      obtain ⟨code, rest', hread, h⟩ := h
      obtain ⟨ds, rfl, hcode⟩ := readCode_eq_some hread
      split at h
      · next hhigh =>
        obtain ⟨ds', low, rfl, hcode', hlow, rfl⟩ := readLow_eq_some h
        exact ⟨'u' :: (ds ++ '\\' :: 'u' :: ds'), by simp, .pair hcode hhigh hcode' hlow⟩
      · next hhigh =>
        split at h
        · cases h
        · next hlow =>
          cases h
          exact ⟨'u' :: ds, rfl, .code hcode (by simpa using hhigh) (by simpa using hlow)⟩
    · simp only [Option.map_eq_some_iff] at h
      obtain ⟨c', hlookup, h⟩ := h
      cases h
      exact ⟨[e], rfl, .escape ((lookup_eq_some_iff (by decide)).1 hlookup)⟩

theorem reads_char : Reads n IsChar (fun _ => True) readChar where
  complete := by
    intro text c h _ rest _
    cases h with
    | plain h =>
      have hne : c ≠ '\\' := by
        rintro rfl
        exact absurd h (by decide)
      simp [readChar, hne, h]
    | @escape e _ h =>
      have hne : e ≠ 'u' := by
        rintro rfl
        have hnone : escapes.lookup 'u' = none := by decide
        rw [(lookup_eq_some_iff (by decide)).2 h] at hnone
        cases hnone
      simp [readChar, readEscape, hne, (lookup_eq_some_iff (by decide)).2 h]
    | code h hhigh hlow => simp [readChar, readEscape, readCode_append h, hhigh, hlow]
    | pair h hhigh h' hlow =>
      simp [readChar, readEscape, readCode_append h, hhigh, readLow, readCode_append h', hlow]
  sound := by
    intro cs rest c h
    cases cs with
    | nil => cases h
    | cons d cs =>
      rw [readChar] at h
      split at h
      · next hd =>
        subst hd
        obtain ⟨text, rfl, htext⟩ := readEscape_eq_some h
        exact ⟨'\\' :: text, rfl, htext⟩
      · split at h
        · next hplain =>
          cases h
          exact ⟨[c], rfl, .plain hplain⟩
        · cases h

theorem IsChar.avoids (h : IsChar text c) : Avoids (· == '"') (text ++ rest) := by
  cases h with
  | plain h =>
    refine avoids_cons.2 ?_
    simp only [isPlain, Bool.and_eq_true, bne_iff_ne, ne_eq] at h
    simpa using h.1.2
  | escape => exact avoids_cons.2 rfl
  | code => exact avoids_cons.2 rfl
  | pair => exact avoids_cons.2 rfl

theorem IsChar.ne_nil (h : IsChar text c) : text ≠ [] := by cases h <;> simp

theorem readSpelling_append {as : List Char} (h : IsSpelling text as) (hlength : text.length < n) :
    readSpelling n (text ++ '"' :: rest) = some (as, rest) := by
  induction h generalizing n with
  | nil =>
    cases n with
    | zero => exact absurd hlength (Nat.not_lt_zero _)
    | succ n => rfl
  | @cons text texts c as h _ ih =>
    cases n with
    | zero => exact absurd hlength (Nat.not_lt_zero _)
    | succ n =>
      have hlong : text.length + texts.length ≤ n := by simpa using Nat.le_of_lt_succ hlength
      have hpos : 0 < text.length := List.length_pos_iff.2 h.ne_nil
      have hchar := reads_char.complete h (Nat.lt_succ_self _) (texts ++ '"' :: rest) trivial
      have hmore := ih (n := n) (by omega)
      rw [readSpelling, List.append_assoc, expect_eq_none_iff.2 h.avoids]
      simp [hchar, hmore]

theorem readSpelling_eq_some {as : List Char} (h : readSpelling n cs = some (as, rest)) :
    ∃ text, cs = text ++ '"' :: rest ∧ IsSpelling text as := by
  induction n generalizing cs as with
  | zero => cases h
  | succ n ih =>
    rw [readSpelling] at h
    cases hquote : expect '"' cs with
    | some cs' =>
      rw [hquote] at h
      cases h
      exact ⟨[], expect_eq_some_iff.1 hquote, .nil⟩
    | none =>
      rw [hquote] at h
      simp only [Option.elim_none, Option.bind_eq_bind, Option.bind_eq_some_iff, Prod.exists] at h
      obtain ⟨c, cs', hchar, more, rest', hmore, h⟩ := h
      cases h
      obtain ⟨text, rfl, htext⟩ := reads_char (n := 0).sound hchar
      obtain ⟨texts, rfl, htexts⟩ := ih hmore
      exact ⟨text ++ texts, by simp, .cons htext htexts⟩

theorem reads_string : Reads (n + 1) IsString (fun _ => True) (readString n) where
  complete := by
    rintro _ _ ⟨h⟩ hlength rest -
    simp only [List.length_cons, List.length_append] at hlength
    simp [readString, readSpelling_append h (n := n) (by omega)]
  sound := by
    intro cs rest s h
    simp only [readString, Option.bind_eq_bind, Option.bind_eq_some_iff, expect_eq_some_iff,
      Prod.exists] at h
    obtain ⟨cs', rfl, as, rest', h, h'⟩ := h
    cases h'
    obtain ⟨text, rfl, htext⟩ := readSpelling_eq_some h
    exact ⟨'"' :: (text ++ ['"']), by simp, .mk htext⟩

/-! ## Groups are read -/

/-- What can stand behind a value and does not belong to it. -/
def isEnd (c : Char) : Bool := isBlank c || c == ',' || c == ']' || c == '\x7d'

/-- Nothing stands behind a value, or what does not belong to it. -/
def Ends (rest : List Char) : Prop := ∀ c ∈ rest.head?, isEnd c = true

/-- The text begins with what cannot stand behind a value. -/
def Begins (text : List Char) : Prop := ∃ c cs, text = c :: cs ∧ isEnd c = false

theorem isNumeral_of_isEnd (h : isEnd c = true) : isNumeral c = false := by
  simp only [isEnd, isBlank, Bool.or_eq_true, beq_iff_eq] at h
  obtain (((((rfl | rfl) | rfl) | rfl) | rfl) | rfl) | rfl := h <;> rfl

theorem Begins.avoids (h : Begins text) : Avoids isEnd (text ++ rest) := by
  obtain ⟨c, cs, rfl, hc⟩ := h
  exact avoids_cons.2 hc

theorem Begins.skip_append {before : List Char} (h : Begins text) (hbefore : IsBlank before) :
    skip (before ++ (text ++ rest)) = text ++ rest :=
  Json.skip_append hbefore (h.avoids.mono fun c hc => by simp [isEnd, hc])

theorem ends_append {blank : List Char} (h : IsBlank blank) (hrest : Ends rest) :
    Ends (blank ++ rest) := by
  cases blank with
  | nil => exact hrest
  | cons c blank =>
    have hc : isBlank c = true := h c List.mem_cons_self
    simp [Ends, isEnd, hc]

section Groups

variable {Is : List Char → α → Prop} {item : List Char → Option (α × List Char)}
  {opening closing : Char}

theorem Items.avoids (hbegins : ∀ {text a}, Is text a → Begins text) {as : List α}
    (h : Items Is text as) : Avoids isEnd (skip (text ++ rest)) := by
  have hskip {before text rest : List Char} {a : α} (hbefore : IsBlank before) (h : Is text a) :
      Avoids isEnd (skip (before ++ (text ++ rest))) := by
    rw [(hbegins h).skip_append hbefore]
    exact (hbegins h).avoids
  cases h with
  | last hbefore h => simpa using hskip hbefore h
  | cons hbefore h => simpa using hskip hbefore h

variable (hitem : Reads n Is Ends item)

include hitem

theorem readItems_eq_some {as : List α} {m : Nat}
    (h : readItems closing item m cs = some (as, rest)) :
    ∃ text, cs = text ++ closing :: rest ∧ Items Is text as := by
  induction m generalizing cs as with
  | zero => cases h
  | succ m ih =>
    simp only [readItems, Option.bind_eq_bind, Option.bind_eq_some_iff, Prod.exists] at h
    obtain ⟨a, cs', hread, h⟩ := h
    obtain ⟨text, htext, ha⟩ := hitem.sound hread
    obtain ⟨before, hcs, hbefore⟩ := exists_blank cs
    obtain ⟨behind, hcs', hbehind⟩ := exists_blank cs'
    cases hcomma : expect ',' (skip cs') with
    | none =>
      rw [hcomma] at h
      simp only [Option.elim_none, Option.bind_eq_some_iff, expect_eq_some_iff] at h
      obtain ⟨rest', hclosing, h⟩ := h
      cases h
      refine ⟨before ++ (text ++ behind), ?_, .last hbefore ha hbehind⟩
      rw [hcs, htext, hcs', hclosing]
      simp
    | some cs'' =>
      rw [hcomma] at h
      simp only [Option.elim_some, Option.bind_eq_some_iff, Prod.exists] at h
      obtain ⟨more, rest', hmore, h⟩ := h
      cases h
      obtain ⟨texts, htexts, hitems⟩ := ih hmore
      refine ⟨before ++ (text ++ (behind ++ ',' :: texts)), ?_, .cons hbefore ha hbehind hitems⟩
      rw [hcs, htext, hcs', expect_eq_some_iff.1 hcomma, htexts]
      simp

variable (hbegins : ∀ {text a}, Is text a → Begins text)

include hbegins

/-- An item between blanks is read with the blanks. -/
theorem readItem_append {before behind : List Char} {a : α} (hbefore : IsBlank before)
    (h : Is text a) (hlength : text.length < n) (hbehind : IsBlank behind) (hc : isEnd c = true)
    (hblank : isBlank c = false) (rest : List Char) :
    item (skip (before ++ (text ++ (behind ++ c :: rest)))) = some (a, behind ++ c :: rest) ∧
      skip (behind ++ c :: rest) = c :: rest := by
  have hends : Ends (c :: rest) := by simp [Ends, hc]
  rw [(hbegins h).skip_append hbefore]
  exact ⟨hitem.complete h hlength _ (ends_append hbehind hends),
    skip_append hbehind (avoids_cons.2 hblank)⟩

variable (hclosing : closing = ']' ∨ closing = '\x7d')

include hclosing

/-- Items are read with what closes the group. The number `m` is used up by the items, and `n` is
what every one of them may use. -/
theorem readItems_append {as : List α} (h : Items Is text as)
    (hlength : text.length < n) {m : Nat} (hm : text.length < m) :
    readItems closing item m (text ++ closing :: rest) = some (as, rest) := by
  induction h generalizing m with
  | @last before text behind a hbefore h hbehind =>
    cases m with
    | zero => exact absurd hm (Nat.not_lt_zero _)
    | succ m =>
      simp only [List.length_append] at hlength
      have hend : isEnd closing = true := by obtain rfl | rfl := hclosing <;> rfl
      have hblank : isBlank closing = false := by obtain rfl | rfl := hclosing <;> rfl
      have hcomma : Avoids (· == ',') (closing :: rest) := by
        obtain rfl | rfl := hclosing <;> exact avoids_cons.2 rfl
      obtain ⟨hread, hskip⟩ :=
        readItem_append hitem hbegins hbefore h (by omega) hbehind hend hblank rest
      rw [readItems, List.append_assoc, List.append_assoc, hread]
      simp [hskip, expect_eq_none_iff.2 hcomma]
  | @cons before text behind rest' a as hbefore h hbehind _ ih =>
    cases m with
    | zero => exact absurd hm (Nat.not_lt_zero _)
    | succ m =>
      simp only [List.length_append, List.length_cons] at hlength hm
      obtain ⟨hread, hskip⟩ := readItem_append hitem hbegins hbefore h (by omega) hbehind
        (c := ',') rfl rfl (rest' ++ closing :: rest)
      have hmore := ih (by omega) (m := m) (by omega)
      rw [readItems]
      simp [hread, hskip, hmore]

theorem reads_group : Reads (n + 1) (IsGroup opening closing Is) (fun _ => True)
    (readGroup opening closing item n) where
  complete := by
    intro text as h hlength rest _
    cases h with
    | empty hblank =>
      have hclosing' : Avoids isBlank (closing :: rest) := by
        obtain rfl | rfl := hclosing <;> exact avoids_cons.2 rfl
      have hskip := skip_append hblank hclosing'
      simp [readGroup, hskip]
    | @items text _ h =>
      simp only [List.length_cons, List.length_append] at hlength
      have havoids : Avoids (· == closing) (skip (text ++ closing :: rest)) :=
        (h.avoids hbegins).mono fun c hc => by
          obtain rfl := beq_iff_eq.1 hc
          obtain rfl | rfl := hclosing <;> rfl
      have hitems : readItems closing item n (text ++ closing :: rest) = some (as, rest) :=
        readItems_append hitem hbegins hclosing h (by omega) (by omega)
      simp [readGroup, expect_eq_none_iff.2 havoids, hitems]
  sound := by
    intro cs rest as h
    simp only [readGroup, Option.bind_eq_bind, Option.bind_eq_some_iff, expect_eq_some_iff] at h
    obtain ⟨cs', rfl, h⟩ := h
    obtain ⟨blank, hcs', hblank⟩ := exists_blank cs'
    cases hempty : expect closing (skip cs') with
    | some cs'' =>
      rw [hempty] at h
      cases h
      refine ⟨opening :: (blank ++ [closing]), ?_, .empty hblank⟩
      rw [hcs', expect_eq_some_iff.1 hempty]
      simp
    | none =>
      rw [hempty] at h
      obtain ⟨text, rfl, hitems⟩ := readItems_eq_some hitem h
      exact ⟨opening :: (text ++ [closing]), by simp, .items hitems⟩

end Groups

theorem reads_member {IsValue : List Char → Json → Prop}
    {value : List Char → Option (Json × List Char)}
    (hvalue : Reads n IsValue Ends value) (hbegins : ∀ {text v}, IsValue text v → Begins text) :
    Reads n (IsMember IsValue) Ends (readMember n value) where
  complete := by
    rintro _ _ @⟨key, before, behind, text, k, v, hkey, hbefore, hbehind, h⟩ hlength rest hrest
    simp only [List.length_append, List.length_cons] at hlength
    have hkey' (rest : List Char) : readString n (key ++ rest) = some (k, rest) :=
      reads_string.complete hkey (by omega) rest trivial
    have hcolon (rest : List Char) : skip (before ++ ':' :: rest) = ':' :: rest :=
      skip_append hbefore (avoids_cons.2 rfl)
    have hskip : skip (behind ++ (text ++ rest)) = text ++ rest := (hbegins h).skip_append hbehind
    have hvalue' := hvalue.complete h (by omega) rest hrest
    simp [readMember, hkey', hcolon, hskip, hvalue']
  sound := by
    intro cs rest m h
    simp only [readMember, Option.bind_eq_bind, Option.bind_eq_some_iff, expect_eq_some_iff,
      Prod.exists] at h
    obtain ⟨k, cs', hread, cs'', hcolon, v, rest', hvalue', h⟩ := h
    cases h
    obtain ⟨key, rfl, hkey⟩ := reads_string.sound hread
    obtain ⟨before, hcs', hbefore⟩ := exists_blank cs'
    obtain ⟨behind, hcs'', hbehind⟩ := exists_blank cs''
    obtain ⟨text, htext, h⟩ := hvalue.sound hvalue'
    refine ⟨key ++ (before ++ ':' :: (behind ++ text)), ?_, .mk hkey hbefore hbehind h⟩
    rw [hcs', hcolon, hcs'', htext]
    simp

/-! ## Values are read -/

theorem mem_words {v : Json} : (text, v) ∈ words ↔ text = ['n', 'u', 'l', 'l'] ∧ v = .null ∨
    text = ['t', 'r', 'u', 'e'] ∧ v = .bool true ∨
    text = ['f', 'a', 'l', 's', 'e'] ∧ v = .bool false := by
  simp [words]

theorem readWord_eq_some {v : Json} (h : readWord cs = some (v, rest)) :
    ∃ text, cs = text ++ rest ∧ (text, v) ∈ words := by
  simp only [readWord, Option.map_eq_some_iff, Prod.exists] at h
  obtain ⟨text, v', hfind, h⟩ := h
  have hprefix : (text, v').1 <+: cs :=
    List.isPrefixOf_iff_prefix.1
      (List.find?_some (p := fun word : List Char × Json => word.1.isPrefixOf cs) hfind)
  obtain ⟨rest', rfl⟩ := hprefix
  rw [List.drop_left] at h
  cases h
  exact ⟨text, rfl, List.mem_of_find?_eq_some hfind⟩

/-- The first character of a number. -/
def isLeading (c : Char) : Bool := c == '-' || c.isDigit

theorem IsNumber.begins {q : ℚ} (h : IsNumber text q) :
    ∃ c cs, text = c :: cs ∧ isLeading c = true := by
  obtain @⟨sign, whole, fraction, exponent, ds, s, e, hsign, ⟨⟨hne, hdigits⟩, -⟩, -, -⟩ := h
  cases hsign with
  | present h =>
    obtain ⟨rfl, -⟩ := Prod.mk.inj (List.mem_singleton.1 h)
    exact ⟨'-', _, rfl, rfl⟩
  | absent =>
    cases whole with
    | nil => exact absurd rfl hne
    | cons d ds => exact ⟨d, _, rfl, by simp [isLeading, hdigits d List.mem_cons_self]⟩

theorem readWord_eq_none (h : isLeading c = true) : readWord (c :: cs) = none := by
  have hne : c ≠ 'n' ∧ c ≠ 't' ∧ c ≠ 'f' := by
    refine ⟨?_, ?_, ?_⟩ <;> rintro rfl <;> cases h
  simp [readWord, words, List.isPrefixOf, hne.1.symm, hne.2.1.symm, hne.2.2.symm]

theorem IsValue.begins {v : Json} (h : IsValue text v) : Begins text := by
  cases h with
  | word h => obtain ⟨rfl, -⟩ | ⟨rfl, -⟩ | ⟨rfl, -⟩ := mem_words.1 h <;> exact ⟨_, _, rfl, rfl⟩
  | number h =>
    obtain ⟨c, cs, rfl, hc⟩ := h.begins
    refine ⟨c, cs, rfl, Bool.eq_false_iff.2 fun hend => ?_⟩
    have hnumeral := isNumeral_of_isEnd hend
    simp_all [isLeading, isNumeral, isFractional]
  | string h =>
    obtain ⟨h⟩ := h
    exact ⟨_, _, rfl, rfl⟩
  | array h => cases h <;> exact ⟨_, _, rfl, rfl⟩
  | object h => cases h <;> exact ⟨_, _, rfl, rfl⟩

theorem IsMember.begins {IsValue : List Char → Json → Prop} {m : String × Json}
    (h : IsMember IsValue text m) : Begins text := by
  obtain ⟨⟨h⟩, -, -, -⟩ := h
  exact ⟨_, _, rfl, rfl⟩

section

variable (ih : Reads n IsValue Ends (readValue n))

include ih

theorem reads_array : Reads (n + 1) (IsGroup '[' ']' IsValue) (fun _ => True)
    (readGroup '[' ']' (readValue n) n) :=
  reads_group ih IsValue.begins (.inl rfl)

theorem reads_object : Reads (n + 1) (IsGroup '\x7b' '\x7d' (IsMember IsValue)) (fun _ => True)
    (readGroup '\x7b' '\x7d' (readMember n (readValue n)) n) :=
  reads_group (reads_member ih IsValue.begins) IsMember.begins (.inr rfl)

/-- The first character tells the forms apart, and only a number depends on what stands behind. -/
theorem readValue_append {v : Json} (h : IsValue text v) (hlength : text.length < n + 1)
    (hrest : Ends rest) : readValue (n + 1) (text ++ rest) = some (v, rest) := by
  cases h with
  | word h => obtain ⟨rfl, rfl⟩ | ⟨rfl, rfl⟩ | ⟨rfl, rfl⟩ := mem_words.1 h <;> rfl
  | number h =>
    have hnumeral : Avoids isNumeral rest := fun c hc => isNumeral_of_isEnd (hrest c hc)
    have hread := reads_number.complete h hlength rest hnumeral
    obtain ⟨c, cs, rfl, hc⟩ := h.begins
    have hne : c ≠ '"' ∧ c ≠ '[' ∧ c ≠ '\x7b' := by
      refine ⟨?_, ?_, ?_⟩ <;> rintro rfl <;> cases hc
    rw [List.cons_append] at hread ⊢
    simp [readValue, hne, readWord_eq_none hc, hread]
  | string h =>
    have hread := reads_string.complete h hlength rest trivial
    have hhead : (text ++ rest).head? = some '"' := by cases h; rfl
    rw [readValue, if_pos hhead, hread]
    rfl
  | array h =>
    have hread := (reads_array ih).complete h hlength rest trivial
    have hhead : (text ++ rest).head? = some '[' := by cases h <;> rfl
    rw [readValue, if_neg (by rw [hhead]; decide), if_pos hhead, hread]
    rfl
  | object h =>
    have hread := (reads_object ih).complete h hlength rest trivial
    have hhead : (text ++ rest).head? = some '\x7b' := by cases h <;> rfl
    rw [readValue, if_neg (by rw [hhead]; decide), if_neg (by rw [hhead]; decide),
      if_pos hhead, hread]
    rfl

theorem exists_isValue_of_readValue {v : Json} (h : readValue (n + 1) cs = some (v, rest)) :
    ∃ text, cs = text ++ rest ∧ IsValue text v := by
  rw [readValue] at h
  split at h
  · exact reads_string.exists_map .string h
  split at h
  · exact (reads_array ih).exists_map .array h
  split at h
  · exact (reads_object ih).exists_map .object h
  obtain hword | ⟨-, hnumber⟩ := Option.or_eq_some_iff.1 h
  · obtain ⟨text, hcs, hword⟩ := readWord_eq_some hword
    exact ⟨text, hcs, .word hword⟩
  · exact (reads_number (n := 0)).exists_map .number hnumber

end

theorem reads_value (n : Nat) : Reads n IsValue Ends (readValue n) := by
  induction n with
  | zero => exact ⟨fun _ h => absurd h (Nat.not_lt_zero _), fun h => nomatch h⟩
  | succ n ih =>
    exact ⟨fun h hlength _ hrest => readValue_append ih h hlength hrest,
      exists_isValue_of_readValue ih⟩

/-- **The reader reads JSON.** It accepts a text if and only if the grammar does, and gives what it
stands for. -/
theorem read?_eq_some_iff {v : Json} : read? cs = some v ↔ IsText cs v := by
  constructor
  · intro h
    simp only [read?, Option.bind_eq_bind, Option.bind_eq_some_iff, Prod.exists] at h
    obtain ⟨v', rest, hread, h⟩ := h
    split at h
    · next hend =>
      cases h
      obtain ⟨before, hcs, hbefore⟩ := exists_blank cs
      obtain ⟨behind, hrest, hbehind⟩ := exists_blank rest
      obtain ⟨text, htext, hvalue⟩ := (reads_value _).sound hread
      rw [List.isEmpty_iff.1 hend, List.append_nil] at hrest
      rw [hcs, htext, hrest]
      exact .mk hbefore hvalue hbehind
    · cases h
  · rintro @⟨before, text, behind, v, hbefore, hvalue, hbehind⟩
    have hskip : skip (before ++ (text ++ behind)) = text ++ behind :=
      hvalue.begins.skip_append hbefore
    have hnone : Ends [] := nofun
    have hends : Ends behind := by simpa using ends_append hbehind hnone
    have hread := (reads_value ((before ++ (text ++ behind)).length + 1)).complete hvalue
      (by simp only [List.length_append]; omega) behind hends
    have hend : skip behind = [] := List.dropWhile_eq_nil_iff.2 hbehind
    simp only [read?, hskip, hread, hend, Option.bind_eq_bind, Option.bind_some]
    rfl

/-- Both halves of a pair make one character. -/
example : read? " [\"\\ud83d\\ude00\", true]".toList = some (.array [.string "😀", .bool true]) := by
  rfl

end DeclFront.Json
