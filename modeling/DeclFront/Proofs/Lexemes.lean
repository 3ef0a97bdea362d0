import DeclFront.Proofs.Reach

/-!
# The lexemes of a text

Which texts are tokens, apart from strings and runes, said without reading them from the front. A
lexeme is told by its characters alone, but for a comment, which also depends on what stands behind
it: the carriage return in front of a line feed is not part of it.

A text may begin with several lexemes, `/` and `//` and `//!` among them. Reading takes the longest
one (`IsLongest`), and there is at most one longest.
-/

namespace DeclFront

open Character

namespace Lexeme

/-! ## Numbers -/

/-- `([uif][0-9]+)?` -/
inductive IsSuffix : List Char → Prop
  | absent : IsSuffix []
  | present {letter : Char} {digits : List Char} (hletter : letter ∈ ['u', 'i', 'f'])
    (hne : digits ≠ []) (hdigits : ∀ d ∈ digits, d.isDigit = true) : IsSuffix (letter :: digits)

/-- A hexadecimal digit or a separator. -/
def IsHexPlace (c : Char) : Prop :=
  c.isDigit = true ∨ 'a' ≤ c ∧ c ≤ 'f' ∨ 'A' ≤ c ∧ c ≤ 'F' ∨ c = '_'

/-- A binary digit or a separator. -/
def IsBinaryPlace (c : Char) : Prop := c = '0' ∨ c = '1' ∨ c = '_'

/-- A decimal digit or a separator. -/
def IsPlace (c : Char) : Prop := c.isDigit = true ∨ c = '_'

/-- `0[xX][0-9A-Fa-f_]+S | 0[bB][01_]+S | [0-9][0-9_]*([.][0-9][0-9_]*)?S`, where `S` is a suffix or
nothing. A number with a fraction is a decimal one. -/
inductive IsNumber : TokenKind → List Char → Prop
  | hexadecimal {mark : Char} {places suffix : List Char} (hmark : mark = 'x' ∨ mark = 'X')
    (hne : places ≠ []) (hplaces : ∀ d ∈ places, IsHexPlace d) (hsuffix : IsSuffix suffix) :
    IsNumber .integer ('0' :: mark :: places ++ suffix)
  | binary {mark : Char} {places suffix : List Char} (hmark : mark = 'b' ∨ mark = 'B')
    (hne : places ≠ []) (hplaces : ∀ d ∈ places, IsBinaryPlace d) (hsuffix : IsSuffix suffix) :
    IsNumber .integer ('0' :: mark :: places ++ suffix)
  | whole {digit : Char} {places suffix : List Char} (hdigit : digit.isDigit = true)
    (hplaces : ∀ d ∈ places, IsPlace d) (hsuffix : IsSuffix suffix) :
    IsNumber .integer (digit :: places ++ suffix)
  | fraction {digit digit' : Char} {places places' suffix : List Char}
    (hdigit : digit.isDigit = true) (hplaces : ∀ d ∈ places, IsPlace d)
    (hdigit' : digit'.isDigit = true) (hplaces' : ∀ d ∈ places', IsPlace d)
    (hsuffix : IsSuffix suffix) :
    IsNumber .decimal (digit :: places ++ '.' :: digit' :: places' ++ suffix)

/-! ## Lexemes -/

/-- What a word begins with: a letter of ASCII, an underscore, or an alphabetic character beyond
ASCII. -/
def IsWordStart (c : Char) : Prop :=
  c.isAlpha = true ∨ c = '_' ∨ isAscii c = false ∧ Unicode.alphabetic.contains c = true

/-- What a word goes on with: as at its beginning, or a digit of ASCII, or a numeric character
beyond ASCII. -/
def IsWordRest (c : Char) : Prop :=
  IsWordStart c ∨ c.isDigit = true ∨ isAscii c = false ∧ Unicode.numeric.contains c = true

/-- The texts of identifiers and keywords. -/
inductive IsWord : List Char → Prop
  | mk {c : Char} {cs : List Char} (hc : IsWordStart c) (hcs : ∀ d ∈ cs, IsWordRest d) :
    IsWord (c :: cs)

/-- The text, followed by `rest`, is a token of the kind. -/
inductive IsLexeme : TokenKind → List Char → List Char → Prop
  | whitespace {text rest : List Char} (hne : text ≠ []) (h : ∀ c ∈ text, c = ' ' ∨ c = '\t') :
    IsLexeme .whitespace text rest
  | lineFeed {rest : List Char} : IsLexeme .terminator ['\n'] rest
  | lineBreak {rest : List Char} : IsLexeme .terminator ['\r', '\n'] rest
  /-- No line break begins inside a comment. -/
  | comment {body rest : List Char}
    (h : ∀ cs, cs <:+ body → cs ≠ [] → atLineBreak (cs ++ rest) = false) :
    IsLexeme .comment ('/' :: '/' :: body) rest
  | keyword {k : TokenKind} {text rest : List Char} (h : IsWord text) (hk : k.isKeyword = true)
    (hspelling : k.spelling? = some text) : IsLexeme k text rest
  | identifier {text rest : List Char} (h : IsWord text)
    (hk : ∀ k : TokenKind, k.isKeyword = true → k.spelling? ≠ some text) :
    IsLexeme .identifier text rest
  | number {k : TokenKind} {text rest : List Char} (h : IsNumber k text) : IsLexeme k text rest
  /-- The semicolon among the glyphs is a terminator. -/
  | glyph {k : TokenKind} {text rest : List Char} (hk : k.isGlyph = true)
    (hspelling : k.spelling? = some text) : IsLexeme k text rest

/-- No text that `text` and `rest` begin with and that is longer than `text` is a lexeme. -/
structure IsLongest (k : TokenKind) (text rest : List Char) : Prop where
  isLexeme : IsLexeme k text rest
  length_le : ∀ k' text' rest', text' ++ rest' = text ++ rest → IsLexeme k' text' rest' →
    text'.length ≤ text.length

/-- The text begins with no lexeme. -/
def BeginsNone (cs : List Char) : Prop :=
  ∀ k text rest, text ++ rest = cs → ¬ IsLexeme k text rest

/-- A blank that is not allowed: a vertical tab, a form feed, a carriage return, a byte-order mark,
or a blank beyond ASCII. -/
def IsForbiddenBlank (c : Char) : Prop :=
  c = '\x0b' ∨ c = '\x0c' ∨ c = '\r' ∨ c = '\ufeff' ∨
    isAscii c = false ∧ Unicode.blank.contains c = true

/-- What strings and runes begin with. -/
def IsQuote (c : Char) : Prop := c = '"' ∨ c = '\''

/-- The tokens of a text that begins at a place, with the end of input behind them, and the
diagnostics about it. Where a quote stands, some string or rune is read; what it reaches over, and
whether it is complained about, is left open. -/
inductive Scans : Position → List Char → List Token → List Diagnostic → Prop
  | done {p : Position} : Scans p [] [⟨.endOfInput, p, 0⟩] []
  | lexeme {p : Position} {k : TokenKind} {text rest : List Char} {ts : List Token}
    {xs : List Diagnostic} (h : IsLongest k text rest) (hrest : Scans (p.after text) rest ts xs) :
    Scans p (text ++ rest) (⟨k, p, byteLength text⟩ :: ts) xs
  | blank {p : Position} {c : Char} {rest : List Char} {ts : List Token} {xs : List Diagnostic}
    (hc : ¬ IsQuote c) (hnone : BeginsNone (c :: rest)) (h : IsForbiddenBlank c)
    (hrest : Scans (p.after [c]) rest ts xs) :
    Scans p (c :: rest) ts (.about .unsupportedWhitespace .lexing p (byteLength [c]) :: xs)
  | invalid {p : Position} {c : Char} {rest : List Char} {ts : List Token} {xs : List Diagnostic}
    (hc : ¬ IsQuote c) (hnone : BeginsNone (c :: rest)) (h : ¬ IsForbiddenBlank c)
    (hrest : Scans (p.after [c]) rest ts xs) :
    Scans p (c :: rest) (⟨.invalid, p, byteLength [c]⟩ :: ts)
      (.about .invalidCharacter .lexing p (byteLength [c]) :: xs)
  | quoted {p : Position} {c : Char} {text rest : List Char} {ts : List Token}
    {xs : List Diagnostic} {complaint : Option Diagnostic} (hc : IsQuote c)
    (hrest : Scans (p.after (c :: text)) rest ts xs) :
    Scans p (c :: text ++ rest)
      (⟨if c = '"' then .string else .rune, p, byteLength (c :: text)⟩ :: ts)
      (complaint.toList ++ xs)

end Lexeme

end DeclFront
