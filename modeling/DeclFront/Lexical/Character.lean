import DeclFront.Unicode.Alphabetic
import DeclFront.Unicode.Blank
import DeclFront.Unicode.Numeric

/-!
# Classes of characters

The classes by which a text is cut into tokens. ASCII characters are classified by themselves, and
all others by their Unicode properties.
-/

namespace DeclFront

namespace Character

def isAscii (c : Char) : Bool := c.toNat < 0x80

/-- The blanks that separate tokens: space and tab. -/
def isSpace (c : Char) : Bool := c == ' ' || c == '\t'

/-- The blanks that are not allowed: vertical tab, form feed, carriage return, every blank beyond
ASCII, and the byte-order mark. A carriage return in front of a line feed is a line break and is
told apart before this question comes up. -/
def isUnsupportedBlank (c : Char) : Bool :=
  if isAscii c then c == '\x0b' || c == '\x0c' || c == '\r'
  else Unicode.blank.contains c || c == '\ufeff'

def isHexDigit (c : Char) : Bool :=
  c.isDigit || ('a' ≤ c && c ≤ 'f') || ('A' ≤ c && c ≤ 'F')

def isBinaryDigit (c : Char) : Bool := c == '0' || c == '1'

/-- What an identifier may begin with: a letter of ASCII, an underscore, or an alphabetic
character beyond ASCII. -/
def isIdentifierStart (c : Char) : Bool :=
  if isAscii c then c.isAlpha || c == '_' else Unicode.alphabetic.contains c

/-- What an identifier may go on with: as at its beginning, or a digit or other number. -/
def isIdentifierRest (c : Char) : Bool :=
  if isAscii c then c.isAlphanum || c == '_'
  else Unicode.alphabetic.contains c || Unicode.numeric.contains c

/-- Whether a text begins with a line break: a line feed, alone or behind a carriage return. -/
def atLineBreak : List Char → Bool
  | '\n' :: _ => true
  | '\r' :: '\n' :: _ => true
  | _ => false

end Character

end DeclFront
