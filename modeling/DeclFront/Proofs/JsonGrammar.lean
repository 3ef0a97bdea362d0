import Mathlib.Algebra.Field.Rat

/-!
# JSON

Which texts are JSON, and what they stand for, said without reading them from the front. Every rule
of the grammar is a relation between texts and values. A number stands for the rational number that
it spells, and a string for the characters that it spells.

A code of four hexadecimal digits is one half of a pair if it is a surrogate. Half a pair without
the other stands for no character, so a text with one stands for no value.
-/

namespace DeclFront

/-- A JSON value. The members of an object stand in the order of the text. -/
inductive Json where
  | null
  | bool (b : Bool)
  | number (q : ℚ)
  | string (s : String)
  | array (items : List Json)
  | object (members : List (String × Json))

namespace Json

/-! ## Blanks -/

def isBlank (c : Char) : Bool := c == ' ' || c == '\t' || c == '\n' || c == '\r'

/-- `blank*` -/
def IsBlank (cs : List Char) : Prop := ∀ c ∈ cs, isBlank c = true

/-! ## Strings -/

/-- Whether a character stands for itself in a string. -/
def isPlain (c : Char) : Bool := 0x20 ≤ c.toNat && c != '"' && c != '\\'

/-- What stands behind a backslash, and what it stands for there. -/
def escapes : List (Char × Char) :=
  [('"', '"'), ('\\', '\\'), ('/', '/'), ('b', '\x08'), ('f', '\x0c'), ('n', '\n'), ('r', '\r'),
    ('t', '\t')]

/-- The value of a hexadecimal digit. -/
def hexDigit? (c : Char) : Option Nat :=
  if c.isDigit then some (c.toNat - '0'.toNat)
  else if 'a' ≤ c ∧ c ≤ 'f' then some (c.toNat - 'a'.toNat + 10)
  else if 'A' ≤ c ∧ c ≤ 'F' then some (c.toNat - 'A'.toNat + 10)
  else none

/-- The number that four hexadecimal digits spell. -/
def code? : List Char → Option Nat
  | [a, b, c, d] => do
    some (16 * (16 * (16 * (← hexDigit? a) + (← hexDigit? b)) + (← hexDigit? c)) + (← hexDigit? d))
  | _ => none

/-- The code of the first half of a pair. -/
def isHigh (n : Nat) : Bool := 0xd800 ≤ n && n < 0xdc00

/-- The code of the second half of a pair. -/
def isLow (n : Nat) : Bool := 0xdc00 ≤ n && n < 0xe000

/-- The character that a pair of codes stands for. -/
def paired (high low : Nat) : Char := .ofNat (0x10000 + 0x400 * (high - 0xd800) + (low - 0xdc00))

/-- The text stands for the character, in a string. -/
inductive IsChar : List Char → Char → Prop
  | plain {c : Char} (h : isPlain c = true) : IsChar [c] c
  | escape {e c : Char} (h : (e, c) ∈ escapes) : IsChar ['\\', e] c
  | code {ds : List Char} {n : Nat} (h : code? ds = some n) (hhigh : isHigh n = false)
    (hlow : isLow n = false) : IsChar ('\\' :: 'u' :: ds) (.ofNat n)
  | pair {ds ds' : List Char} {high low : Nat} (h : code? ds = some high)
    (hhigh : isHigh high = true) (h' : code? ds' = some low) (hlow : isLow low = true) :
    IsChar ('\\' :: 'u' :: ds ++ '\\' :: 'u' :: ds') (paired high low)

/-- The text between the quotes stands for the characters. -/
inductive IsSpelling : List Char → List Char → Prop
  | nil : IsSpelling [] []
  | cons {text texts : List Char} {c : Char} {cs : List Char} (h : IsChar text c)
    (hrest : IsSpelling texts cs) : IsSpelling (text ++ texts) (c :: cs)

inductive IsString : List Char → String → Prop
  | mk {text cs : List Char} (h : IsSpelling text cs) :
    IsString ('"' :: (text ++ ['"'])) (String.ofList cs)

/-! ## Numbers -/

/-- `digit+` -/
def IsDigits (ds : List Char) : Prop := ds ≠ [] ∧ ∀ d ∈ ds, d.isDigit = true

/-- `"0" | [1-9] digit*` -/
def IsWhole (ds : List Char) : Prop := IsDigits ds ∧ (ds.head? = some '0' → ds = ['0'])

/-- One of the signs or nothing, and the factor that it stands for. -/
inductive IsSign (signs : List (Char × ℤ)) : List Char → ℤ → Prop
  | absent : IsSign signs [] 1
  | present {c : Char} {s : ℤ} (h : (c, s) ∈ signs) : IsSign signs [c] s

/-- The sign of a number. -/
def minus : List (Char × ℤ) := [('-', -1)]

/-- The signs of an exponent. -/
def plusMinus : List (Char × ℤ) := [('+', 1), ('-', -1)]

/-- `("." digit+)?`, and the digits. -/
inductive IsFraction : List Char → List Char → Prop
  | absent : IsFraction [] []
  | present {ds : List Char} (h : IsDigits ds) : IsFraction ('.' :: ds) ds

/-- `(("e" | "E") ("+" | "-")? digit+)?`, and the power of ten. -/
inductive IsExponent : List Char → ℤ → Prop
  | absent : IsExponent [] 0
  | present {e : Char} {sign ds : List Char} {s : ℤ} (he : e = 'e' ∨ e = 'E')
    (hsign : IsSign plusMinus sign s) (h : IsDigits ds) :
    IsExponent (e :: (sign ++ ds)) (s * Nat.ofDigitChars 10 ds 0)

/-- The number with a sign, the digits in front of the point and behind it, and an exponent. -/
def decimal (s : ℤ) (whole fraction : List Char) (e : ℤ) : ℚ :=
  s * Nat.ofDigitChars 10 (whole ++ fraction) 0 * 10 ^ (e - fraction.length)

/-- `"-"? whole fraction exponent` -/
inductive IsNumber : List Char → ℚ → Prop
  | mk {sign whole fraction exponent ds : List Char} {s e : ℤ} (hsign : IsSign minus sign s)
    (hwhole : IsWhole whole) (hfraction : IsFraction fraction ds)
    (hexponent : IsExponent exponent e) :
    IsNumber (sign ++ (whole ++ (fraction ++ exponent))) (decimal s whole ds e)

/-! ## Values -/

/-- `blank* item blank* ("," blank* item blank*)*` -/
inductive Items {α : Type} (IsItem : List Char → α → Prop) : List Char → List α → Prop
  | last {before text behind : List Char} {a : α} (hbefore : IsBlank before) (h : IsItem text a)
    (hbehind : IsBlank behind) : Items IsItem (before ++ (text ++ behind)) [a]
  | cons {before text behind rest : List Char} {a : α} {as : List α} (hbefore : IsBlank before)
    (h : IsItem text a) (hbehind : IsBlank behind) (hrest : Items IsItem rest as) :
    Items IsItem (before ++ (text ++ (behind ++ ',' :: rest))) (a :: as)

/-- Blanks or items between brackets or braces. -/
inductive IsGroup {α : Type} (opening closing : Char) (IsItem : List Char → α → Prop) :
    List Char → List α → Prop
  | empty {blank : List Char} (h : IsBlank blank) :
    IsGroup opening closing IsItem (opening :: (blank ++ [closing])) []
  | items {text : List Char} {as : List α} (h : Items IsItem text as) :
    IsGroup opening closing IsItem (opening :: (text ++ [closing])) as

/-- `string blank* ":" blank* value` -/
inductive IsMember (IsValue : List Char → Json → Prop) : List Char → String × Json → Prop
  | mk {key before behind text : List Char} {k : String} {v : Json} (hkey : IsString key k)
    (hbefore : IsBlank before) (hbehind : IsBlank behind) (h : IsValue text v) :
    IsMember IsValue (key ++ (before ++ ':' :: (behind ++ text))) (k, v)

/-- The values that are written as words. -/
def words : List (List Char × Json) :=
  [(['n', 'u', 'l', 'l'], .null), (['t', 'r', 'u', 'e'], .bool true),
    (['f', 'a', 'l', 's', 'e'], .bool false)]

/-- `word | number | string | array | object` -/
inductive IsValue : List Char → Json → Prop
  | word {text : List Char} {v : Json} (h : (text, v) ∈ words) : IsValue text v
  | number {text : List Char} {q : ℚ} (h : IsNumber text q) : IsValue text (.number q)
  | string {text : List Char} {s : String} (h : IsString text s) : IsValue text (.string s)
  | array {text : List Char} {vs : List Json} (h : IsGroup '[' ']' IsValue text vs) :
    IsValue text (.array vs)
  | object {text : List Char} {ms : List (String × Json)}
    (h : IsGroup '\x7b' '\x7d' (IsMember IsValue) text ms) : IsValue text (.object ms)

/-- `blank* value blank*` -/
inductive IsText : List Char → Json → Prop
  | mk {before text behind : List Char} {v : Json} (hbefore : IsBlank before) (h : IsValue text v)
    (hbehind : IsBlank behind) : IsText (before ++ (text ++ behind)) v

end Json

end DeclFront
