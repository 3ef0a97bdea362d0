import DeclFront.CommandLine.Options
import Mathlib.Algebra.Group.Nat.Defs
import Mathlib.Data.List.Forall2

/-!
# What an argument asks for

A reader of arguments tries one form after the other. Here each form is described on its own, with
what it asks for (`Argument.Spells`), and so is each way in which an argument misses all forms
(`Argument.Refused`). The reader agrees with both (`Argument.parse_eq_ok_iff`,
`Argument.parse_eq_error_iff`), so no argument has two meanings, and every argument has one or is
refused.
-/

namespace DeclFront

/-! ## Names -/

/-- The words that name a command. -/
def Command.words : Command → List String
  | .lex => ["lex"]
  | .parse => ["parse"]
  | .check => ["check"]
  | .help => ["help", "--help", "-h"]
  | .version => ["version", "--version", "-V"]

def ColorMode.name : ColorMode → String
  | .auto => "auto"
  | .always => "always"
  | .never => "never"

def Format.name : Format → String
  | .human => "human"
  | .json => "json"

theorem Command.parse?_eq_some_iff {word : String} {c : Command} :
    parse? word = some c ↔ word ∈ c.words := by
  constructor
  · intro h
    unfold parse? at h
    split at h <;> cases h <;> decide
  · intro h
    have hall : ∀ w ∈ c.words, parse? w = some c := by cases c <;> decide
    exact hall word h

theorem ColorMode.parse?_eq_some_iff {value : String} {m : ColorMode} :
    parse? value = some m ↔ value = m.name := by
  constructor
  · intro h
    unfold parse? at h
    split at h <;> cases h <;> rfl
  · rintro rfl
    cases m <;> rfl

theorem Format.parse?_eq_some_iff {value : String} {f : Format} :
    parse? value = some f ↔ value = f.name := by
  constructor
  · intro h
    unfold parse? at h
    split at h <;> cases h <;> rfl
  · rintro rfl
    cases f <;> rfl

/-! ## Counts -/

/-- `"+"? digit+`, and the number below 2⁶⁴ that the digits spell. -/
inductive IsCount : List Char → Nat → Prop
  | mk {sign ds : List Char} (hsign : sign = [] ∨ sign = ['+']) (hne : ds ≠ [])
    (hdigit : ∀ d ∈ ds, d.isDigit = true) (hlt : Nat.ofDigitChars 10 ds 0 < 2 ^ 64) :
    IsCount (sign ++ ds) (Nat.ofDigitChars 10 ds 0)

theorem readDigits_eq_ofDigitChars (n : Nat) (ds : List Char) :
    readDigits n ds = Nat.ofDigitChars 10 ds n := by
  induction ds generalizing n with
  | nil =>
    show n = _
    rw [Nat.ofDigitChars_nil]
  | cons d ds ih =>
    show readDigits (n * 10 + (d.toNat - '0'.toNat)) ds = _
    rw [ih, Nat.ofDigitChars_cons, Nat.mul_comm 10 n]

/-- What stands behind a plus sign, or all if there is none. -/
def behindSign (text : List Char) : List Char :=
  if text.head? == some '+' then text.drop 1 else text

theorem exists_sign (text : List Char) :
    ∃ sign, (sign = [] ∨ sign = ['+']) ∧ text = sign ++ behindSign text := by
  unfold behindSign
  split
  · next h =>
    obtain ⟨ds, rfl⟩ := List.head?_eq_some_iff.1 (beq_iff_eq.1 h)
    exact ⟨['+'], .inr rfl, rfl⟩
  · exact ⟨[], .inl rfl, rfl⟩

theorem behindSign_append {sign ds : List Char} (hsign : sign = [] ∨ sign = ['+']) (hne : ds ≠ [])
    (hdigit : ∀ d ∈ ds, d.isDigit = true) : behindSign (sign ++ ds) = ds := by
  rcases hsign with rfl | rfl
  · obtain ⟨d, ds, rfl⟩ := List.exists_cons_of_ne_nil hne
    have hplus : d ≠ '+' := by
      rintro rfl
      exact absurd (hdigit '+' List.mem_cons_self) (by decide)
    simp [behindSign, hplus]
  · rfl

theorem parseCount?_eq_some_iff {text : List Char} {n : Nat} :
    parseCount? text = some n ↔ IsCount text n := by
  have hparse : parseCount? text = some n ↔ behindSign text ≠ [] ∧
      (∀ d ∈ behindSign text, d.isDigit = true) ∧
      Nat.ofDigitChars 10 (behindSign text) 0 < 2 ^ 64 ∧
      Nat.ofDigitChars 10 (behindSign text) 0 = n := by
    show (if _ then _ else _) = some n ↔ _
    rw [Option.ite_none_right_eq_some, readDigits_eq_ofDigitChars]
    simp [behindSign, countBound, and_assoc]
  rw [hparse]
  constructor
  · rintro ⟨hne, hdigit, hlt, rfl⟩
    obtain ⟨sign, hsign, htext⟩ := exists_sign text
    have hcount := IsCount.mk hsign hne hdigit hlt
    rwa [← htext] at hcount
  · rintro ⟨hsign, hne, hdigit, hlt⟩
    rw [behindSign_append hsign hne hdigit]
    exact ⟨hne, hdigit, hlt, rfl⟩

/-! ## One argument -/

namespace Argument

/-- The options that have a value, as far as the value. -/
def optionNames : List String := ["--color=", "--format=", "--error-limit="]

/-- The arguments that mean something as they are. -/
def fixedForms : List String := ["--keep-trivia", "--significant", "-"]

/-- No option with a value is set. -/
def IsPlain (arg : String) : Prop := ∀ name ∈ optionNames, ¬ name.toList <+: arg.toList

/-- The forms of an argument, and what each asks for. An input begins with no dash, or is the dash
alone. -/
inductive Spells : String → Argument → Prop
  | color (m : ColorMode) : Spells ("--color=" ++ m.name) (.color m)
  | format (f : Format) : Spells ("--format=" ++ f.name) (.format f)
  | errorLimit {value : String} {n : Nat} (h : IsCount value.toList n) :
    Spells ("--error-limit=" ++ value) (.errorLimit n)
  | keepTrivia : Spells "--keep-trivia" .keepTrivia
  | significant : Spells "--significant" .significant
  | stdin : Spells "-" (.input .stdin)
  | path {arg : String} (h : arg.toList.head? ≠ some '-') : Spells arg (.input (.path arg))

/-- What is said against an argument that has none of the forms. -/
inductive Refused : String → UsageError → Prop
  | color {value : String} (h : ∀ m : ColorMode, value ≠ m.name) :
    Refused ("--color=" ++ value) (.invalidColor value)
  | format {value : String} (h : ∀ f : Format, value ≠ f.name) :
    Refused ("--format=" ++ value) (.invalidFormat value)
  | errorLimit {value : String} (h : ∀ n, ¬ IsCount value.toList n) :
    Refused ("--error-limit=" ++ value) (.invalidErrorLimit value)
  | unknown {arg : String} (hdash : arg.toList.head? = some '-') (hplain : IsPlain arg)
    (hfixed : arg ∉ fixedForms) : Refused arg (.unknownOption arg)

variable {name arg value : String} {a : Argument} {e : UsageError}

theorem valueOf?_eq_none_iff : valueOf? name arg = none ↔ ¬ name.toList <+: arg.toList := by
  simp [valueOf?]

theorem valueOf?_append (name value : String) : valueOf? name (name ++ value) = some value := by
  have hdrop : (name ++ value).toList.drop name.length = value.toList := by
    rw [String.toList_append, ← String.length_toList, List.drop_left]
  rw [valueOf?, hdrop, String.ofList_toList, if_pos]
  simp

theorem parse_color (value : String) : parse ("--color=" ++ value) =
    (ColorMode.parse? value).elim (.error (.invalidColor value)) fun m => .ok (.color m) := by
  simp only [parse, valueOf?_append]
  cases ColorMode.parse? value <;> rfl

theorem parse_format (value : String) : parse ("--format=" ++ value) =
    (Format.parse? value).elim (.error (.invalidFormat value)) fun f => .ok (.format f) := by
  have hcolor : valueOf? "--color=" ("--format=" ++ value) = none := by simp [valueOf?]
  simp only [parse, hcolor, valueOf?_append]
  cases Format.parse? value <;> rfl

theorem parse_errorLimit (value : String) : parse ("--error-limit=" ++ value) =
    (parseCount? value.toList).elim (.error (.invalidErrorLimit value)) fun n =>
      .ok (.errorLimit n) := by
  have hcolor : valueOf? "--color=" ("--error-limit=" ++ value) = none := by simp [valueOf?]
  have hformat : valueOf? "--format=" ("--error-limit=" ++ value) = none := by simp [valueOf?]
  simp only [parse, hcolor, hformat, valueOf?_append]
  cases parseCount? value.toList <;> rfl

theorem parse_plain (h : IsPlain arg) (hfixed : arg ∉ fixedForms) : parse arg =
    if arg.toList.head? == some '-' then .error (.unknownOption arg)
    else .ok (.input (.path arg)) := by
  have hnone : ∀ name ∈ optionNames, valueOf? name arg = none := fun name hname =>
    valueOf?_eq_none_iff.2 (h name hname)
  have hne : ∀ form ∈ fixedForms, (arg == form) = false := fun form hform =>
    beq_eq_false_iff_ne.2 (ne_of_mem_of_not_mem hform hfixed).symm
  rw [parse, hnone "--color=" (by decide), hnone "--format=" (by decide),
    hnone "--error-limit=" (by decide), hne "--keep-trivia" (by decide),
    hne "--significant" (by decide), hne "-" (by decide)]
  rfl

/-- An argument sets an option with a value, or it is plain. -/
theorem exists_value_or_isPlain (arg : String) :
    (∃ name ∈ optionNames, ∃ value, arg = name ++ value) ∨ IsPlain arg := by
  by_cases h : ∃ name ∈ optionNames, name.toList <+: arg.toList
  · obtain ⟨name, hname, rest, hrest⟩ := h
    refine .inl ⟨name, hname, String.ofList rest, ?_⟩
    rw [← String.toList_inj, String.toList_append, String.toList_ofList, hrest]
  · exact .inr fun name hname hprefix => h ⟨name, hname, hprefix⟩

theorem isPlain_of_head? (h : arg.toList.head? ≠ some '-') : IsPlain arg := by
  intro name hname hprefix
  have hdash : name.toList.head? = some '-' := by
    have hall : ∀ name ∈ optionNames, name.toList.head? = some '-' := by decide
    exact hall name hname
  obtain ⟨rest, hrest⟩ := hprefix
  apply h
  rw [← hrest, List.head?_append, hdash]
  rfl

theorem not_mem_fixedForms_of_head? (h : arg.toList.head? ≠ some '-') : arg ∉ fixedForms := by
  intro hmem
  have hdash : ∀ form ∈ fixedForms, form.toList.head? = some '-' := by decide
  exact h (hdash arg hmem)

/-! ## The reader

No argument has a form and is refused as well, since the reader gives one answer. -/

theorem parse_of_spells (h : Spells arg a) : parse arg = .ok a := by
  cases h with
  | color m => rw [parse_color, ColorMode.parse?_eq_some_iff.2 rfl, Option.elim_some]
  | format f => rw [parse_format, Format.parse?_eq_some_iff.2 rfl, Option.elim_some]
  | errorLimit h => rw [parse_errorLimit, parseCount?_eq_some_iff.2 h, Option.elim_some]
  | keepTrivia | significant | stdin => rfl
  | path h =>
    rw [parse_plain (isPlain_of_head? h) (not_mem_fixedForms_of_head? h), if_neg]
    simpa using h

theorem parse_of_refused (h : Refused arg e) : parse arg = .error e := by
  cases h with
  | @color value h =>
    have hnone : ColorMode.parse? value = none :=
      Option.eq_none_iff_forall_ne_some.2 fun m hm => h m (ColorMode.parse?_eq_some_iff.1 hm)
    rw [parse_color, hnone, Option.elim_none]
  | @format value h =>
    have hnone : Format.parse? value = none :=
      Option.eq_none_iff_forall_ne_some.2 fun f hf => h f (Format.parse?_eq_some_iff.1 hf)
    rw [parse_format, hnone, Option.elim_none]
  | @errorLimit value h =>
    have hnone : parseCount? value.toList = none :=
      Option.eq_none_iff_forall_ne_some.2 fun n hn => h n (parseCount?_eq_some_iff.1 hn)
    rw [parse_errorLimit, hnone, Option.elim_none]
  | unknown hdash hplain hfixed => rw [parse_plain hplain hfixed, if_pos (beq_iff_eq.2 hdash)]

theorem spells_or_refused (arg : String) : (∃ a, Spells arg a) ∨ ∃ e, Refused arg e := by
  rcases exists_value_or_isPlain arg with ⟨name, hname, value, rfl⟩ | hplain
  · simp only [optionNames, List.mem_cons, List.not_mem_nil, or_false] at hname
    rcases hname with rfl | rfl | rfl
    · by_cases h : ∃ m : ColorMode, value = m.name
      · obtain ⟨m, rfl⟩ := h
        exact .inl ⟨_, .color m⟩
      · exact .inr ⟨_, .color (not_exists.1 h)⟩
    · by_cases h : ∃ f : Format, value = f.name
      · obtain ⟨f, rfl⟩ := h
        exact .inl ⟨_, .format f⟩
      · exact .inr ⟨_, .format (not_exists.1 h)⟩
    · by_cases h : ∃ n, IsCount value.toList n
      · obtain ⟨n, hn⟩ := h
        exact .inl ⟨_, .errorLimit hn⟩
      · exact .inr ⟨_, .errorLimit (not_exists.1 h)⟩
  · by_cases hfixed : arg ∈ fixedForms
    · simp only [fixedForms, List.mem_cons, List.not_mem_nil, or_false] at hfixed
      rcases hfixed with rfl | rfl | rfl
      · exact .inl ⟨_, .keepTrivia⟩
      · exact .inl ⟨_, .significant⟩
      · exact .inl ⟨_, .stdin⟩
    · by_cases hdash : arg.toList.head? = some '-'
      · exact .inr ⟨_, .unknown hdash hplain hfixed⟩
      · exact .inl ⟨_, .path hdash⟩

theorem parse_eq_ok_iff : parse arg = .ok a ↔ Spells arg a := by
  constructor
  · intro h
    rcases spells_or_refused arg with ⟨b, hb⟩ | ⟨e, he⟩
    · rw [parse_of_spells hb] at h
      cases h
      exact hb
    · rw [parse_of_refused he] at h
      cases h
  · exact parse_of_spells

theorem parse_eq_error_iff : parse arg = .error e ↔ Refused arg e := by
  constructor
  · intro h
    rcases spells_or_refused arg with ⟨a, ha⟩ | ⟨e', he⟩
    · rw [parse_of_spells ha] at h
      cases h
    · rw [parse_of_refused he] at h
      cases h
      exact he
  · exact parse_of_refused

end Argument

end DeclFront
