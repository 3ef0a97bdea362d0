import DeclFront.Token.Kind

/-!
# Glyphs

A glyph is a token of one to three punctuation characters. At any place the longest glyph is
taken, so `:=` is never a colon and an equals sign. The kinds are listed with longer spellings
before their beginnings, which makes the first kind that fits the longest.
-/

namespace DeclFront

/-- A glyph found at the front of a text, and the number of its characters. -/
structure GlyphMatch where
  kind : TokenKind
  length : Nat
deriving DecidableEq

namespace Glyph

/-- The glyphs with their spellings, in the order of the kinds. -/
def table : List (TokenKind × List Char) :=
  TokenKind.all.filterMap fun k => if k.isGlyph then k.spelling?.map (k, ·) else none

/-- The longest glyph that a text begins with. -/
def match? (cs : List Char) : Option GlyphMatch :=
  (table.find? fun (_, spelling) => spelling.isPrefixOf cs).map fun (k, spelling) =>
    ⟨k, spelling.length⟩

/-- The glyph that is the character `c` alone. -/
def single? (c : Char) : Option TokenKind :=
  (table.find? fun (_, spelling) => spelling == [c]).map Prod.fst

/-- The longer glyphs that begin with `c`, the longest first. -/
def sequences (c : Char) : List (TokenKind × List Char) :=
  table.filter fun (_, spelling) => spelling.head? == some c && 1 < spelling.length

end Glyph

end DeclFront
