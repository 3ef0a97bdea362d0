import DeclFront.Diagnostic
import DeclFront.Lexical.Glyph
import DeclFront.Lexical.Literal

/-!
# Cutting a text into segments

Every character of a text belongs to exactly one **segment**. A segment is a token, or it is one
blank character that is not allowed and yields no token. Either may carry a complaint.

**The rule for one segment** (`Piece.scan`) looks at the character at hand and the text behind it
and says how many further characters belong to the segment. It knows no positions.

**The whole text** (`Segment.ofText`) repeats the rule and places each segment behind the one
before, so that the segments put together give back the text.
-/

namespace DeclFront

open Character

/-! ## The rule for one segment -/

/-- What one segment is, apart from its text. -/
structure Piece where
  /-- The kind of the token; `none` for a blank that is not allowed. -/
  kind : Option TokenKind
  complaint : Option DiagnosticCode
  /-- How many characters belong to the segment besides the first. -/
  more : Nat
deriving DecidableEq

namespace Piece

/-- A token without a complaint. -/
def sound (kind : TokenKind) (more : Nat) : Piece := ⟨some kind, none, more⟩

/-- A single character that starts no token. -/
def invalid : Piece := ⟨some .invalid, some .invalidCharacter, 0⟩

/-- A single blank that is not allowed. -/
def unsupported : Piece := ⟨none, some .unsupportedWhitespace, 0⟩

/-- The number of characters before the next line break or the end, of which `n` are passed. -/
def untilLineBreak (n : Nat) : List Char → Nat
  | [] => n
  | c :: cs => if atLineBreak (c :: cs) then n else untilLineBreak (n + 1) cs

/-- The string that begins with the quote in front of `cs`. -/
def string (cs : List Char) : Piece :=
  let (length, closed) := StringLiteral.scan cs
  ⟨some .string, if closed then none else some .unterminatedString, length⟩

/-- The rune that begins with the quote in front of `cs`. -/
def rune (cs : List Char) : Piece :=
  let extent := RuneLiteral.scan cs
  ⟨some .rune,
    if !extent.closed then some .unterminatedRune
    else if extent.runes = 1 then none
    else some .multipleRunes,
    extent.length⟩

/-- The identifier or keyword that begins with `c`. -/
def word (c : Char) (cs : List Char) : Piece :=
  let rest := cs.takeWhile isIdentifierRest
  sound ((TokenKind.keyword? (c :: rest)).getD .identifier) rest.length

/-- The segment that begins with `c` and goes on in `cs`. -/
def scan (c : Char) (cs : List Char) : Piece :=
  if isSpace c then sound .whitespace (cs.takeWhile isSpace).length
  else if c == '\n' then sound .terminator 0
  else if c == '\r' && cs.head? == some '\n' then sound .terminator 1
  else if isUnsupportedBlank c then unsupported
  else if c == '/' && cs.head? == some '/' then sound .comment (untilLineBreak 0 cs)
  else if c == '"' then string cs
  else if c == '\'' then rune cs
  else if c.isDigit then
    let (more, kind) := Number.scan c cs
    sound kind more
  else if isIdentifierStart c then word c cs
  else match Glyph.match? (c :: cs) with
    | some g => sound g.kind (g.length - 1)
    | none => invalid

end Piece

/-! ## The whole text -/

/-- A piece of text in its place. -/
structure Segment where
  position : Position
  text : List Char
  kind : Option TokenKind
  complaint : Option DiagnosticCode
deriving DecidableEq

namespace Segment

/-- The number of bytes. -/
def length (s : Segment) : Nat := byteLength s.text

/-- The place just behind the segment. -/
def stop (s : Segment) : Position := s.position.after s.text

/-- The token that the segment is. -/
def token? (s : Segment) : Option Token := s.kind.map (⟨·, s.position, s.length⟩)

/-- The complaint about the segment. -/
def diagnostic? (s : Segment) : Option Diagnostic :=
  s.complaint.map (Diagnostic.about · .lexing s.position s.length)

/-- The first segment of a text that begins at `p`. -/
def first (p : Position) (c : Char) (cs : List Char) : Segment :=
  let piece := Piece.scan c cs
  ⟨p, c :: cs.take piece.more, piece.kind, piece.complaint⟩

/-- The segments of a text that begins at `p`, behind those that were found before, which stand in
reverse order. -/
def collect (found : List Segment) (p : Position) : List Char → List Segment
  | [] => found.reverse
  | c :: cs =>
    let s := first p c cs
    collect (s :: found) s.stop (cs.drop (s.text.length - 1))
termination_by cs => cs.length
decreasing_by simp only [List.length_drop, List.length_cons]; omega

/-- The segments of a text that begins at `p`. -/
def ofText (p : Position) (cs : List Char) : List Segment := collect [] p cs

end Segment

end DeclFront
