import DeclFront.Proofs.Lexemes
import Mathlib.Data.List.TakeWhile

/-!
# How far a number is read

A number is read by looking for a radix mark, a fraction and a suffix, one behind the other. Each is
passed over where a digit is missing behind its first character. What is read in this way is a
number (`Number.isNumber_scan`), and no number that the text begins with is longer
(`Number.covers_scan`).

The forms overlap: a `0` in front of `b1` is a number as well, and the letter of a suffix may be a
hexadecimal digit. The digits of such a suffix are hexadecimal digits too, so taking the letter
among the places loses nothing (`Number.length_le_withSuffix`).
-/

namespace DeclFront

open Character Lexeme

variable {p : Char → Bool} {c : Char} {cs ds rest suffix u : List Char} {k : TokenKind}

theorem toNat_toLower (c : Char) : c.toLower.toNat =
    if 65 ≤ c.toNat ∧ c.toNat ≤ 90 then c.toNat + 32 else c.toNat := by
  have hbounds : (c.val ≥ 'A'.val ∧ c.val ≤ 'Z'.val) ↔ 65 ≤ c.toNat ∧ c.toNat ≤ 90 := Iff.rfl
  unfold Char.toLower
  split
  · next h =>
    rw [if_pos (hbounds.1 h)]
    have hle : c.val.toNat ≤ 90 := (hbounds.1 h).2
    have hlt : c.val.toNat + 32 < 2 ^ 32 := by omega
    exact (UInt32.toNat_add c.val 32).trans (Nat.mod_eq_of_lt hlt)
  · next h => rw [if_neg (mt hbounds.2 h)]

/-- The mark of a radix stands for itself and for its capital. -/
theorem toLower_eq_iff {m capital : Char} (hm : 97 ≤ m.toNat) (hcapital : capital.toNat ≤ 90)
    (h : m.toNat = capital.toNat + 32) : c.toLower = m ↔ c = m ∨ c = capital := by
  rw [← Char.toNat_inj, ← Char.toNat_inj, ← Char.toNat_inj, toNat_toLower]
  split <;> omega

namespace Number

theorem isDigit_of_isNumber (h : IsNumber k (c :: u)) : c.isDigit = true := by
  generalize htext : c :: u = text at h
  cases h with
  | hexadecimal | binary =>
    obtain ⟨rfl, -⟩ := List.cons.inj htext
    rfl
  | whole hdigit | fraction hdigit =>
    obtain ⟨rfl, -⟩ := List.cons.inj htext
    exact hdigit

/-! ## Runs and suffixes -/

theorem run_append (h : ∀ d ∈ ds, p d = true) : run p (ds ++ rest) = ds.length + run p rest := by
  rw [run, List.takeWhile_append_of_pos h, List.length_append, run]

theorem run_of_head (h : p c = false) : run p (c :: cs) = 0 := by
  simp [run, h]

theorem take_run (p : Char → Bool) (cs : List Char) : cs.take (run p cs) = cs.takeWhile p :=
  (List.prefix_iff_eq_take.1 (List.takeWhile_prefix p)).symm

theorem withSuffix_append (n : Nat) :
    withSuffix (ds.length + n) (ds ++ rest) = ds.length + withSuffix n rest := by
  simp [withSuffix, Nat.add_assoc]

theorem isSuffix_take (cs : List Char) : IsSuffix (cs.take (suffixLength cs)) := by
  match cs with
  | [] | [_] => exact .absent
  | letter :: d :: ds =>
    simp only [suffixLength]
    split
    · next h =>
      simp only [Bool.and_eq_true, Bool.or_eq_true, beq_iff_eq] at h
      rw [Nat.add_comm, List.take_succ_cons, take_run]
      refine .present (by simpa [or_assoc] using h.1) ?_ fun e he => ?_
      · simp [h.2]
      · exact (List.mem_takeWhile_imp he)
    · exact .absent

theorem length_le_suffixLength (rest : List Char) (h : IsSuffix suffix) :
    suffix.length ≤ suffixLength (suffix ++ rest) := by
  cases h with
  | absent => exact Nat.zero_le _
  | @present letter digits hletter hne hdigits =>
    obtain ⟨d, ds, rfl⟩ := List.exists_cons_of_ne_nil hne
    have hrun : run Char.isDigit (d :: ds ++ rest) = (d :: ds).length + run Char.isDigit rest :=
      run_append hdigits
    have hd : d.isDigit = true := hdigits d List.mem_cons_self
    have hletter : (letter == 'u' || letter == 'i' || letter == 'f') = true := by
      simpa [or_assoc] using hletter
    simp only [List.cons_append] at hrun ⊢
    simp only [suffixLength, hletter, hd, hrun, Bool.and_self, if_true, List.length_cons]
    omega

/-- A suffix whose letter is a digit of the number is no longer than the digits that follow. -/
theorem length_le_withSuffix (rest : List Char)
    (hp : ∀ letter ∈ ['u', 'i', 'f'], p letter = true → ∀ d : Char, d.isDigit = true → p d = true)
    (h : IsSuffix suffix) :
    suffix.length ≤ withSuffix (run p (suffix ++ rest)) (suffix ++ rest) := by
  have hsuffix := length_le_suffixLength rest h
  cases h with
  | absent => exact Nat.zero_le _
  | @present letter digits hletter hne hdigits =>
    cases hl : p letter with
    | false => simpa [withSuffix, run_of_head hl] using hsuffix
    | true =>
      have hall : ∀ d ∈ letter :: digits, p d = true := by
        intro d hd
        rcases List.mem_cons.1 hd with rfl | hd
        · exact hl
        · exact hp letter hletter hl d (hdigits d hd)
      rw [run_append hall]
      simp only [withSuffix]
      omega

/-! ## Places -/

theorem isHexPlace_iff : IsHexPlace c ↔ orSeparator isHexDigit c = true := by
  simp [IsHexPlace, orSeparator, isHexDigit, or_assoc]

theorem isPlace_iff : IsPlace c ↔ orSeparator Char.isDigit c = true := by
  simp [IsPlace, orSeparator]

theorem isBinaryPlace_iff : IsBinaryPlace c ↔ orSeparator isBinaryDigit c = true := by
  simp [IsBinaryPlace, orSeparator, isBinaryDigit, or_assoc]

/-- The letters of suffixes are not among the places of a number, but for the hexadecimal `f`. -/
theorem hexadecimal_letters : ∀ letter ∈ ['u', 'i', 'f'], orSeparator isHexDigit letter = true →
    ∀ d : Char, d.isDigit = true → orSeparator isHexDigit d = true :=
  fun _ _ _ d hd => by simp [orSeparator, isHexDigit, hd]

theorem binary_letters : ∀ letter ∈ ['u', 'i', 'f'], orSeparator isBinaryDigit letter = false := by
  simp [orSeparator, isBinaryDigit]

theorem decimal_letters : ∀ letter ∈ ['u', 'i', 'f'], orSeparator Char.isDigit letter = false := by
  simp [orSeparator, Char.isDigit]

/-! ## Numbers in a radix -/

/-- A number in a radix is read to its end. -/
theorem length_le_radix {mark : Char} {places : List Char} (hplaces : ∀ d ∈ places, p d = true)
    (hp : ∀ letter ∈ ['u', 'i', 'f'], p letter = true → ∀ d : Char, d.isDigit = true → p d = true)
    (hsuffix : IsSuffix suffix) :
    (mark :: places ++ suffix).length ≤
      withSuffix (1 + run p ((mark :: places ++ suffix ++ rest).drop 1))
        (mark :: places ++ suffix ++ rest) := by
  have hle := length_le_withSuffix rest hp hsuffix
  have hrun : run p ((mark :: places ++ suffix ++ rest).drop 1) =
      places.length + run p (suffix ++ rest) := by
    rw [← run_append hplaces]
    simp
  have hlength : 1 + (places.length + run p (suffix ++ rest)) =
      (mark :: places).length + run p (suffix ++ rest) := by
    simp only [List.length_cons]
    omega
  rw [hrun, hlength, List.append_assoc, withSuffix_append, List.length_append]
  omega

theorem opensRadix_cons {m mark d : Char} {q : Char → Bool} :
    opensRadix m q (mark :: d :: ds) = (mark.toLower == m && orSeparator q d) := rfl

theorem opensRadix_of_ne {m mark : Char} {q : Char → Bool} (h : mark.toLower ≠ m) :
    opensRadix m q (mark :: ds) = false := by
  cases ds with
  | nil => rfl
  | cons d ds => simp [opensRadix_cons, h]

/-- A mark and the places behind it open the radix. -/
theorem opensRadix_append {m mark : Char} {q : Char → Bool} {places : List Char}
    (hmark : mark.toLower = m) (hne : places ≠ [])
    (hplaces : ∀ d ∈ places, orSeparator q d = true) :
    opensRadix m q (mark :: places ++ suffix ++ rest) = true := by
  obtain ⟨d, ds, rfl⟩ := List.exists_cons_of_ne_nil hne
  simp [opensRadix_cons, hmark, hplaces d List.mem_cons_self]

theorem scan_hexadecimal (h : opensRadix 'x' isHexDigit cs = true) : scan '0' cs =
    (withSuffix (1 + run (orSeparator isHexDigit) (cs.drop 1)) cs, .integer) := by
  simp [scan, h]

theorem scan_binary (hx : opensRadix 'x' isHexDigit cs = false)
    (h : opensRadix 'b' isBinaryDigit cs = true) : scan '0' cs =
    (withSuffix (1 + run (orSeparator isBinaryDigit) (cs.drop 1)) cs, .integer) := by
  simp [scan, hx, h]

theorem covers_hexadecimal {mark : Char} {places : List Char} (rest : List Char)
    (hmark : mark = 'x' ∨ mark = 'X') (hne : places ≠ [])
    (hplaces : ∀ d ∈ places, IsHexPlace d) (hsuffix : IsSuffix suffix) :
    (mark :: places ++ suffix).length ≤ (scan '0' (mark :: places ++ suffix ++ rest)).1 ∧
      (scan '0' (mark :: places ++ suffix ++ rest)).2 = .integer := by
  have hplaces : ∀ d ∈ places, orSeparator isHexDigit d = true :=
    fun d hd => isHexPlace_iff.1 (hplaces d hd)
  have hmark : mark.toLower = 'x' := (toLower_eq_iff (by decide) (by decide) (by decide)).2 hmark
  rw [scan_hexadecimal (opensRadix_append hmark hne hplaces)]
  exact ⟨length_le_radix hplaces hexadecimal_letters hsuffix, rfl⟩

theorem covers_binary {mark : Char} {places : List Char} (rest : List Char)
    (hmark : mark = 'b' ∨ mark = 'B') (hne : places ≠ [])
    (hplaces : ∀ d ∈ places, IsBinaryPlace d) (hsuffix : IsSuffix suffix) :
    (mark :: places ++ suffix).length ≤ (scan '0' (mark :: places ++ suffix ++ rest)).1 ∧
      (scan '0' (mark :: places ++ suffix ++ rest)).2 = .integer := by
  have hplaces : ∀ d ∈ places, orSeparator isBinaryDigit d = true :=
    fun d hd => isBinaryPlace_iff.1 (hplaces d hd)
  have hmark : mark.toLower = 'b' := (toLower_eq_iff (by decide) (by decide) (by decide)).2 hmark
  have hx : opensRadix 'x' isHexDigit (mark :: places ++ suffix ++ rest) = false :=
    opensRadix_of_ne (by rw [hmark]; decide)
  rw [scan_binary hx (opensRadix_append hmark hne hplaces)]
  refine ⟨length_le_radix hplaces (fun letter hletter h => ?_) hsuffix, rfl⟩
  simp [binary_letters letter hletter] at h

/-! ## Decimal numbers -/

/-- What may stand in a decimal number is no mark of a radix. -/
theorem toLower_ne_mark (h : IsPlace c ∨ c ∈ ['u', 'i', 'f'] ∨ c = '.') :
    c.toLower ≠ 'x' ∧ c.toLower ≠ 'b' := by
  have hx := @toLower_eq_iff c 'x' 'X' (by decide) (by decide) (by decide)
  have hb := @toLower_eq_iff c 'b' 'B' (by decide) (by decide) (by decide)
  constructor
  · rw [Ne, hx]
    rintro (rfl | rfl) <;> revert h <;> simp [IsPlace]
  · rw [Ne, hb]
    rintro (rfl | rfl) <;> revert h <;> simp [IsPlace]

/-- How many places a number has in front of its fraction. -/
def wholeLength (cs : List Char) : Nat := run (orSeparator Char.isDigit) cs

theorem scan_decimal (hx : (c == '0' && opensRadix 'x' isHexDigit cs) = false)
    (hb : (c == '0' && opensRadix 'b' isBinaryDigit cs) = false) : scan c cs =
    (withSuffix (wholeLength cs + fractionLength (cs.drop (wholeLength cs))) cs,
      if fractionLength (cs.drop (wholeLength cs)) = 0 then .integer else .decimal) := by
  simp only [scan, hx, hb, Bool.false_eq_true, if_false]
  rfl

theorem fractionLength_of_ne (h : c ≠ '.') : fractionLength (c :: cs) = 0 := by
  unfold fractionLength
  split
  · simp_all
  · rfl

theorem le_withSuffix (n : Nat) (cs : List Char) : n ≤ withSuffix n cs := Nat.le_add_right _ _

/-- What begins as a decimal number opens no radix. -/
theorem opensRadix_of_place {e : Char} (c : Char) (ds : List Char)
    (h : IsPlace e ∨ e ∈ ['u', 'i', 'f'] ∨ e = '.') :
    (c == '0' && opensRadix 'x' isHexDigit (e :: ds)) = false ∧
      (c == '0' && opensRadix 'b' isBinaryDigit (e :: ds)) = false := by
  rw [opensRadix_of_ne (toLower_ne_mark h).1, opensRadix_of_ne (toLower_ne_mark h).2]
  simp

theorem wholeLength_append {places : List Char} (hplaces : ∀ d ∈ places, IsPlace d) :
    wholeLength (places ++ rest) = places.length + wholeLength rest :=
  run_append fun d hd => isPlace_iff.1 (hplaces d hd)

theorem scan_of_length_eq_zero (h : (scan c cs).1 = 0) : (scan c cs).2 = .integer := by
  unfold scan at h ⊢
  split
  · rfl
  · split
    · rfl
    · rw [if_neg ‹_›, if_neg ‹_›] at h
      have := le_withSuffix (run (orSeparator Char.isDigit) cs +
        fractionLength (cs.drop (run (orSeparator Char.isDigit) cs))) cs
      dsimp only at h ⊢
      rw [if_pos (by omega)]

/-- What stands in a number behind its first digit. -/
theorem place_of_mem_append {places : List Char} (hplaces : ∀ d ∈ places, IsPlace d)
    (hsuffix : IsSuffix suffix) {e : Char} (he : e ∈ places ++ suffix) :
    IsPlace e ∨ e ∈ ['u', 'i', 'f'] ∨ e = '.' := by
  rcases List.mem_append.1 he with he | he
  · exact .inl (hplaces e he)
  · cases hsuffix with
    | absent => simp at he
    | present hletter _ hdigits =>
      rcases List.mem_cons.1 he with rfl | he
      · exact .inr (.inl hletter)
      · exact .inl (.inl (hdigits e he))

theorem covers_whole {places : List Char} (hplaces : ∀ d ∈ places, IsPlace d)
    (hsuffix : IsSuffix suffix) :
    (places ++ suffix).length ≤ (scan c (places ++ suffix ++ rest)).1 ∧
      ((scan c (places ++ suffix ++ rest)).1 = (places ++ suffix).length →
        (scan c (places ++ suffix ++ rest)).2 = .integer) := by
  by_cases hu : places ++ suffix = []
  · rw [hu]
    exact ⟨Nat.zero_le _, scan_of_length_eq_zero⟩
  obtain ⟨e, es, hes⟩ := List.exists_cons_of_ne_nil hu
  have hplace : IsPlace e ∨ e ∈ ['u', 'i', 'f'] ∨ e = '.' :=
    place_of_mem_append hplaces hsuffix (hes ▸ List.mem_cons_self)
  obtain ⟨hx, hb⟩ := opensRadix_of_place c (es ++ rest) hplace
  rw [← List.cons_append, ← hes] at hx hb
  rw [scan_decimal hx hb]
  have hle := le_withSuffix (wholeLength (places ++ suffix ++ rest) + fractionLength
    ((places ++ suffix ++ rest).drop (wholeLength (places ++ suffix ++ rest))))
    (places ++ suffix ++ rest)
  cases hsuffix with
  | absent =>
    have hwhole : wholeLength (places ++ rest) = places.length + wholeLength rest :=
      wholeLength_append hplaces
    rw [List.append_nil] at hle ⊢
    refine ⟨by omega, fun heq => ?_⟩
    dsimp only at heq ⊢
    rw [if_pos (by omega)]
  | @present letter digits hletter hne hdigits =>
    have hl : orSeparator Char.isDigit letter = false := decimal_letters letter hletter
    have hwhole : wholeLength (places ++ letter :: digits ++ rest) = places.length := by
      rw [List.append_assoc, wholeLength_append hplaces, List.cons_append, wholeLength,
        run_of_head hl]
      rfl
    have hfraction :
        fractionLength ((places ++ letter :: digits ++ rest).drop places.length) = 0 := by
      rw [List.append_assoc, List.drop_left, List.cons_append]
      exact fractionLength_of_ne (by rintro rfl; simp at hletter)
    have hlength := length_le_suffixLength rest (.present hletter hne hdigits)
    rw [hwhole, hfraction]
    refine ⟨?_, fun _ => rfl⟩
    rw [List.append_assoc, Nat.add_zero, ← Nat.add_zero places.length, withSuffix_append,
      List.length_append]
    simpa [withSuffix] using hlength

theorem covers_fraction {digit : Char} {places places' : List Char} (c : Char) (rest : List Char)
    (hplaces : ∀ d ∈ places, IsPlace d) (hdigit : digit.isDigit = true)
    (hplaces' : ∀ d ∈ places', IsPlace d) (hsuffix : IsSuffix suffix) :
    (places ++ '.' :: digit :: places' ++ suffix).length ≤
        (scan c (places ++ '.' :: digit :: places' ++ suffix ++ rest)).1 ∧
      (scan c (places ++ '.' :: digit :: places' ++ suffix ++ rest)).2 = .decimal := by
  obtain ⟨ds, hds⟩ : ∃ ds, ds = places ++ '.' :: digit :: places' := ⟨_, rfl⟩
  rw [← hds]
  have hopens : (c == '0' && opensRadix 'x' isHexDigit (ds ++ suffix ++ rest)) = false ∧
      (c == '0' && opensRadix 'b' isBinaryDigit (ds ++ suffix ++ rest)) = false := by
    rw [hds]
    cases places with
    | nil => exact opensRadix_of_place c _ (.inr (.inr rfl))
    | cons e es => exact opensRadix_of_place c _ (.inl (hplaces e List.mem_cons_self))
  have hdecimal : ∀ e ∈ digit :: places', orSeparator Char.isDigit e = true := by
    intro e he
    rcases List.mem_cons.1 he with rfl | he
    · simp [orSeparator, hdigit]
    · exact isPlace_iff.1 (hplaces' e he)
  have hwhole : wholeLength (ds ++ suffix ++ rest) = places.length := by
    rw [hds, List.append_assoc, List.append_assoc, wholeLength_append hplaces]
    exact Nat.add_eq_left.2 (run_of_head rfl)
  have hfraction : fractionLength ((ds ++ suffix ++ rest).drop places.length) =
      1 + ((digit :: places').length + run (orSeparator Char.isDigit) (suffix ++ rest)) := by
    rw [hds, List.append_assoc, List.append_assoc, List.drop_left, ← run_append hdecimal]
    simp [fractionLength, hdigit]
  have hlength : places.length +
      (1 + ((digit :: places').length + run (orSeparator Char.isDigit) (suffix ++ rest))) =
        ds.length + run (orSeparator Char.isDigit) (suffix ++ rest) := by
    simp only [hds, List.length_append, List.length_cons]
    omega
  have hsuffix := length_le_withSuffix (p := orSeparator Char.isDigit) rest
    (fun letter hletter h => absurd h (by simp [decimal_letters letter hletter])) hsuffix
  rw [scan_decimal hopens.1 hopens.2, hwhole, hfraction, hlength, List.append_assoc ds,
    withSuffix_append, List.length_append]
  exact ⟨Nat.add_le_add_left hsuffix _, if_neg (by omega)⟩

/-- A number is read to its end, and as one of its kind if it is read no further. -/
theorem covers_scan (rest : List Char) (h : IsNumber k (c :: u)) :
    u.length ≤ (scan c (u ++ rest)).1 ∧
      ((scan c (u ++ rest)).1 = u.length → (scan c (u ++ rest)).2 = k) := by
  generalize htext : c :: u = text at h
  cases h with
  | hexadecimal hmark hne hplaces hsuffix =>
    obtain ⟨rfl, rfl⟩ := List.cons.inj htext
    obtain ⟨hle, hkind⟩ := covers_hexadecimal rest hmark hne hplaces hsuffix
    exact ⟨hle, fun _ => hkind⟩
  | binary hmark hne hplaces hsuffix =>
    obtain ⟨rfl, rfl⟩ := List.cons.inj htext
    obtain ⟨hle, hkind⟩ := covers_binary rest hmark hne hplaces hsuffix
    exact ⟨hle, fun _ => hkind⟩
  | whole hdigit hplaces hsuffix =>
    obtain ⟨rfl, rfl⟩ := List.cons.inj htext
    exact covers_whole hplaces hsuffix
  | fraction hdigit hplaces hdigit' hplaces' hsuffix =>
    obtain ⟨rfl, rfl⟩ := List.cons.inj htext
    obtain ⟨hle, hkind⟩ := covers_fraction c rest hplaces hdigit' hplaces' hsuffix
    exact ⟨hle, fun _ => hkind⟩

/-! ## What is read is a number -/

theorem take_withSuffix (n : Nat) (cs : List Char) :
    ∃ suffix, IsSuffix suffix ∧ cs.take (withSuffix n cs) = cs.take n ++ suffix :=
  ⟨_, isSuffix_take _, List.take_add⟩

/-- What opens a radix is the mark and a place, and the places go on from there. -/
theorem take_of_opensRadix {m : Char} {q : Char → Bool} (h : opensRadix m q cs = true) :
    ∃ mark places, mark.toLower = m ∧ places ≠ [] ∧ (∀ d ∈ places, orSeparator q d = true) ∧
      cs.take (1 + run (orSeparator q) (cs.drop 1)) = mark :: places := by
  match cs with
  | [] | [_] => simp [opensRadix] at h
  | mark :: d :: ds =>
    rw [opensRadix_cons, Bool.and_eq_true, beq_iff_eq] at h
    refine ⟨mark, (d :: ds).takeWhile (orSeparator q), h.1, by simp [h.2],
      fun e he => List.mem_takeWhile_imp he, ?_⟩
    rw [Nat.add_comm, List.drop_succ_cons, List.drop_zero, List.take_succ_cons, take_run]

theorem take_fractionLength (cs : List Char) :
    fractionLength cs = 0 ∨ ∃ digit places, digit.isDigit = true ∧ (∀ d ∈ places, IsPlace d) ∧
      fractionLength cs ≠ 0 ∧ cs.take (fractionLength cs) = '.' :: digit :: places := by
  unfold fractionLength
  split
  · next d ds =>
    split
    · next hd =>
      refine .inr ⟨d, ds.takeWhile (orSeparator Char.isDigit), hd,
        fun e he => isPlace_iff.2 (List.mem_takeWhile_imp he), by omega, ?_⟩
      rw [Nat.add_comm, List.take_succ_cons, take_run, List.takeWhile_cons_of_pos]
      simp [orSeparator, hd]
    · exact .inl rfl
  · exact .inl rfl

/-- What is read from a digit is a number. -/
theorem isNumber_scan (hc : c.isDigit = true) (cs : List Char) :
    IsNumber (scan c cs).2 (c :: cs.take (scan c cs).1) := by
  cases hx : c == '0' && opensRadix 'x' isHexDigit cs with
  | true =>
    obtain ⟨rfl, hx⟩ : c = '0' ∧ opensRadix 'x' isHexDigit cs = true := by simpa using hx
    obtain ⟨mark, places, hmark, hne, hplaces, htake⟩ := take_of_opensRadix hx
    obtain ⟨suffix, hsuffix, htext⟩ :=
      take_withSuffix (1 + run (orSeparator isHexDigit) (cs.drop 1)) cs
    rw [scan_hexadecimal hx, htext, htake]
    exact .hexadecimal ((toLower_eq_iff (by decide) (by decide) (by decide)).1 hmark) hne
      (fun d hd => isHexPlace_iff.2 (hplaces d hd)) hsuffix
  | false =>
    cases hb : c == '0' && opensRadix 'b' isBinaryDigit cs with
    | true =>
      obtain ⟨rfl, hb⟩ : c = '0' ∧ opensRadix 'b' isBinaryDigit cs = true := by simpa using hb
      obtain ⟨mark, places, hmark, hne, hplaces, htake⟩ := take_of_opensRadix hb
      obtain ⟨suffix, hsuffix, htext⟩ :=
        take_withSuffix (1 + run (orSeparator isBinaryDigit) (cs.drop 1)) cs
      rw [scan_binary (by simpa using hx) hb, htext, htake]
      exact .binary ((toLower_eq_iff (by decide) (by decide) (by decide)).1 hmark) hne
        (fun d hd => isBinaryPlace_iff.2 (hplaces d hd)) hsuffix
    | false =>
      obtain ⟨suffix, hsuffix, htext⟩ :=
        take_withSuffix (wholeLength cs + fractionLength (cs.drop (wholeLength cs))) cs
      have hplaces : ∀ d ∈ cs.takeWhile (orSeparator Char.isDigit), IsPlace d :=
        fun d hd => isPlace_iff.2 (List.mem_takeWhile_imp hd)
      rw [scan_decimal hx hb, htext, List.take_add, wholeLength, take_run]
      rcases take_fractionLength (cs.drop (run (orSeparator Char.isDigit) cs)) with
        hzero | ⟨digit, places, hdigit, hplaces', hpos, htake⟩
      · rw [if_pos hzero, hzero, List.take_zero, List.append_nil]
        exact .whole hc hplaces hsuffix
      · rw [if_neg hpos, htake]
        exact .fraction hc hplaces hdigit hplaces' hsuffix

end Number

end DeclFront
