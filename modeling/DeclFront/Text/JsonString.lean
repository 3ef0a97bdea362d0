/-!
# JSON strings

The text of a JSON string literal: quotes and backslashes are escaped by a backslash, a line feed,
a carriage return and a tab by their letters, every other control character by its four-digit code,
and all else stands for itself.
-/

namespace DeclFront.JsonString

/-- The control characters: U+0000 to U+001F and U+007F to U+009F. -/
def isControl (c : Char) : Bool := c.toNat < 0x20 || (0x7f ≤ c.toNat && c.toNat ≤ 0x9f)

/-- The code of `c` in hexadecimal, of at least four digits. -/
def codeDigits (c : Char) : List Char := (Nat.toDigits 16 c.toNat).leftpad 4 '0'

/-- How one character is written. -/
def escape (c : Char) : List Char :=
  match c with
  | '"' => ['\\', '"']
  | '\\' => ['\\', '\\']
  | '\n' => ['\\', 'n']
  | '\r' => ['\\', 'r']
  | '\t' => ['\\', 't']
  | c => if isControl c then '\\' :: 'u' :: codeDigits c else [c]

/-- The literal for a list of characters. -/
def encode (cs : List Char) : List Char := '"' :: (cs.flatMap escape ++ ['"'])

/-- The literal for a string. -/
def ofString (s : String) : String := String.ofList (encode s.toList)

end DeclFront.JsonString
