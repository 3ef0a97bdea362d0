import DeclFront.Lexical.Character
import DeclFront.Token.Kind

/-!
# Literals

How far a number, a string or a rune literal reaches. Each function is given the text behind the
character that opens the literal and says how many characters of it belong to the literal.

**Numbers.** A hexadecimal or binary number needs a digit or an underscore behind its radix mark,
a fraction needs a digit behind its point, and a width suffix needs a digit behind its letter; where
that is missing, the number ends before the mark, the point or the letter.

**Strings and runes.** Both end at their closing quote. A line break or the end of the text ends
them too, without belonging to them; they are then unterminated.
-/

namespace DeclFront

open Character

/-! ## Numbers -/

namespace Number

/-- The length of the longest beginning in the class `p`. -/
def run (p : Char → Bool) (cs : List Char) : Nat := (cs.takeWhile p).length

/-- A digit of the class `p`, or a separator. -/
def orSeparator (p : Char → Bool) (c : Char) : Bool := p c || c == '_'

/-- The length of the width suffix that a text begins with: one of the letters `u`, `i` and `f`
with digits behind it, or nothing. -/
def suffixLength : List Char → Nat
  | s :: d :: ds =>
    if (s == 'u' || s == 'i' || s == 'f') && d.isDigit then 1 + run Char.isDigit (d :: ds) else 0
  | _ => 0

/-- The length `n` with that of the suffix that follows the first `n` characters. -/
def withSuffix (n : Nat) (cs : List Char) : Nat := n + suffixLength (cs.drop n)

/-- Whether a text begins with the radix mark `m`, in either case, and then a digit of `p` or a
separator. -/
def opensRadix (m : Char) (p : Char → Bool) : List Char → Bool
  | x :: d :: _ => x.toLower == m && orSeparator p d
  | _ => false

/-- The length of the fraction that a text begins with: a point with a digit behind it and further
digits and separators, or nothing. -/
def fractionLength : List Char → Nat
  | '.' :: d :: ds => if d.isDigit then 1 + run (orSeparator Char.isDigit) (d :: ds) else 0
  | _ => 0

/-- How far the number reaches that begins with the digit `c`, and of which kind it is. -/
def scan (c : Char) (cs : List Char) : Nat × TokenKind :=
  if c == '0' && opensRadix 'x' isHexDigit cs then
    (withSuffix (1 + run (orSeparator isHexDigit) (cs.drop 1)) cs, .integer)
  else if c == '0' && opensRadix 'b' isBinaryDigit cs then
    (withSuffix (1 + run (orSeparator isBinaryDigit) (cs.drop 1)) cs, .integer)
  else
    let whole := run (orSeparator Char.isDigit) cs
    let fraction := fractionLength (cs.drop whole)
    (withSuffix (whole + fraction) cs, if fraction = 0 then .integer else .decimal)

end Number

/-! ## Strings -/

namespace StringLiteral

/-- Walks the text behind the opening quote, of which `n` characters are passed. The character
behind a backslash is taken whatever it is, unless it begins a line break. Gives the number of
characters that belong to the literal, and whether it was closed. -/
def walk (escaped : Bool) (n : Nat) : List Char → Nat × Bool
  | [] => (n, false)
  | c :: cs =>
    if atLineBreak (c :: cs) then (n, false)
    else if escaped then walk false (n + 1) cs
    else if c == '"' then (n + 1, true)
    else walk (c == '\\') (n + 1) cs

/-- How far the string reaches behind its opening quote, and whether it is closed. -/
def scan (cs : List Char) : Nat × Bool := walk false 0 cs

end StringLiteral

/-! ## Runes -/

namespace RuneLiteral

/-- How much of an escape has been passed. -/
inductive Escape where
  /-- There is no open escape. -/
  | idle
  /-- The backslash. -/
  | backslash
  /-- The backslash and a `u`, with a brace to come. -/
  | beforeBrace
  /-- The brace and some digits. -/
  | digits
deriving DecidableEq

/-- How an escape goes on when it takes the character `c` with `cs` behind it; `none` when it does
not take it. An escape by code is open until its brace is closed or a character comes that is no
hexadecimal digit; every other escape is one character, and no line break character is one. -/
def Escape.next? (e : Escape) (c : Char) (cs : List Char) : Option Escape :=
  match e with
  | .idle => none
  | .backslash =>
    if c == 'u' && cs.head? == some '{' then some .beforeBrace
    else if c == '\n' || c == '\r' then none
    else some .idle
  | .beforeBrace => some .digits
  | .digits => if isHexDigit c then some .digits else if c == '}' then some .idle else none

/-- What was found behind the opening quote of a rune. -/
structure Extent where
  /-- How many characters belong to the literal. -/
  length : Nat
  /-- How many runes it spells; an escape spells one. -/
  runes : Nat
  closed : Bool
deriving DecidableEq

/-- Walks the text behind the opening quote, of which `n` characters with `k` runes are passed. -/
def walk (e : Escape) (n k : Nat) : List Char → Extent
  | [] => ⟨n, k, false⟩
  | c :: cs =>
    match e.next? c cs with
    | some e => walk e (n + 1) k cs
    | none =>
      if c == '\'' then ⟨n + 1, k, true⟩
      else if atLineBreak (c :: cs) then ⟨n, k, false⟩
      else walk (if c == '\\' then .backslash else .idle) (n + 1) (k + 1) cs

/-- What stands behind the opening quote of a rune. -/
def scan (cs : List Char) : Extent := walk .idle 0 0 cs

end RuneLiteral

end DeclFront
