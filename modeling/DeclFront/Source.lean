import DeclFront.Token

/-!
# Source texts

A source is a text with, perhaps, a name to show it under. Parts of it are addressed by byte
offsets. A request that leaves the text, or that would cut a character, is answered by nothing.
-/

namespace DeclFront

/-- A text to be read. -/
structure Source where
  text : String
  name : Option String := none
deriving DecidableEq

namespace Source

/-- The length in bytes. -/
def length (s : Source) : Nat := s.text.utf8ByteSize

def isEmpty (s : Source) : Bool := s.length == 0

/-- The characters of the text. -/
def chars (s : Source) : List Char := s.text.toList

/-- The bytes of the text. -/
def bytes (s : Source) : List UInt8 := s.chars.flatMap String.utf8EncodeChar

/-- The character that starts at a byte offset. -/
def charAt? (s : Source) (offset : Nat) : Option Char :=
  (s.text.pos? ⟨offset⟩).bind (·.get?)

/-- The text from one byte offset to another, when both are character boundaries in that order. -/
def between? (s : Source) (start stop : Nat) : Option String := do
  let p ← s.text.pos? ⟨start⟩
  let q ← s.text.pos? ⟨stop⟩
  if start ≤ stop then some (String.extract p q) else none

/-- The `length` bytes of text at an offset, or the empty text. -/
def slice (s : Source) (offset length : Nat) : String :=
  (s.between? offset (offset + length)).getD ""

/-- The text of a token. -/
def tokenText (s : Source) (t : Token) : String := s.slice t.start t.length

/-- The text that a span covers. -/
def spanText (s : Source) (r : Span) : String := s.slice r.start r.length

/-- The length of the text followed by at least four zero bytes, up to a multiple of 64 bytes. -/
def paddedLength (s : Source) : Nat := (s.length + 4 + 63) / 64 * 64

end Source

end DeclFront
