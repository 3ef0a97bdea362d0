import DeclFront.Unicode.DefaultIgnorable
import DeclFront.Unicode.GraphemeExtend
import DeclFront.Unicode.Unprintable

/-!
# Quoted text

The form in which listings show a piece of text: between double quotes, with double quotes and
backslashes escaped by a backslash, four control characters by a short name, and every character
that would not show by its code in braces, so that the whole stays on one line and no two texts
look alike.
-/

namespace DeclFront.Quoted

/-- Whether `c` prints as a part of the character before it. -/
def merges (c : Char) : Bool :=
  Unicode.graphemeExtend.contains c && !Unicode.soundMark.contains c

/-- Whether `c` prints as nothing. -/
def showsNothing (c : Char) : Bool :=
  Unicode.unprintable.contains c || Unicode.defaultIgnorable.contains c

/-- Whether `c` shows as itself: it has a glyph and does not merge with the character before. -/
def isVisible (c : Char) : Bool :=
  if c.toNat < 0x80 then 0x20 ≤ c.toNat && c.toNat < 0x7f else !merges c && !showsNothing c

/-- How one character is written. -/
def escape (c : Char) : List Char :=
  match c with
  | '"' => ['\\', '"']
  | '\\' => ['\\', '\\']
  | '\n' => ['\\', 'n']
  | '\r' => ['\\', 'r']
  | '\t' => ['\\', 't']
  | '\x00' => ['\\', '0']
  | c => if isVisible c then [c] else ['\\', 'u', '{'] ++ Nat.toDigits 16 c.toNat ++ ['}']

/-- The quoted form of a list of characters. -/
def encode (cs : List Char) : List Char := '"' :: (cs.flatMap escape ++ ['"'])

/-- The quoted form of a string. -/
def ofString (s : String) : String := String.ofList (encode s.toList)

end DeclFront.Quoted
