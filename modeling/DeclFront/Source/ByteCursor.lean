import DeclFront.Source

/-!
# Walking a text byte by byte

A cursor stands before some byte of a text, possibly inside a character, and knows its position.
The byte that begins a character moves the column; the **continuation bytes** of the character do
not. Behind the text the cursor sees zero bytes, and it never moves there.

Some moves skip many bytes at once. They never pass a line feed.
-/

namespace DeclFront

/-- Whether a byte continues a character begun before it. -/
def isContinuation (b : UInt8) : Bool := b &&& 0xc0 == 0x80

/-- The place just behind the byte `b` that stands at `p`. -/
def Position.advanceByte (p : Position) (b : UInt8) : Position :=
  if b = 10 then ⟨p.offset + 1, p.line + 1, 1⟩
  else if isContinuation b then { p with offset := p.offset + 1 }
  else ⟨p.offset + 1, p.line, p.column + 1⟩

/-- A place between the bytes of a text. -/
structure ByteCursor where
  source : Source
  /-- The bytes from the cursor to the end of the text. -/
  rest : List UInt8
  position : Position
deriving DecidableEq

namespace ByteCursor

/-- Before the first byte. -/
def ofSource (s : Source) : ByteCursor := ⟨s, s.bytes, .origin⟩

def offset (c : ByteCursor) : Nat := c.position.offset

/-! ## Looking -/

def isAtEnd (c : ByteCursor) : Bool := c.rest.isEmpty

/-- The next byte. -/
def current (c : ByteCursor) : UInt8 := c.rest.headD 0

/-- The byte after the next one. -/
def peek (c : ByteCursor) : UInt8 := c.rest[1]?.getD 0

/-- The character that starts here. -/
def currentChar? (c : ByteCursor) : Option Char :=
  if c.isAtEnd then none else c.source.charAt? c.offset

/-- The number of bytes ahead, the padding included. -/
def aheadLength (c : ByteCursor) : Nat := c.source.paddedLength - c.offset

/-- The next four bytes. -/
def window (c : ByteCursor) : List UInt8 := (c.rest ++ List.replicate 4 0).take 4

/-- The text from an earlier byte offset up to the cursor. -/
def sliceFrom (c : ByteCursor) (start : Nat) : String :=
  (c.source.between? start c.offset).getD ""

/-! ## Moving -/

/-- Passes one byte; at the end, stays. -/
def advance (c : ByteCursor) : ByteCursor :=
  match c.rest with
  | [] => c
  | b :: bs => { c with rest := bs, position := c.position.advanceByte b }

/-- Passes `n` bytes, or all there are. -/
def advanceN (c : ByteCursor) : Nat → ByteCursor
  | 0 => c
  | n + 1 => if c.isAtEnd then c else c.advance.advanceN n

/-- The length of the character that a first byte announces; one for any other byte. -/
def charWidth (b : UInt8) : Nat :=
  if 0xc0 ≤ b && b ≤ 0xdf then 2
  else if 0xe0 ≤ b && b ≤ 0xef then 3
  else if 0xf0 ≤ b && b ≤ 0xf7 then 4
  else 1

/-- Passes as many bytes as the next byte announces. -/
def advanceChar (c : ByteCursor) : ByteCursor := c.advanceN (charWidth c.current)

/-- Passes the bytes that satisfy `p`, up to the first that does not. -/
def eatWhile (c : ByteCursor) (p : UInt8 → Bool) : ByteCursor :=
  c.advanceN (c.rest.takeWhile p).length

/-- Passes `n` bytes among which there is no line feed. -/
def skip (c : ByteCursor) (n : Nat) : ByteCursor :=
  let passed := (c.rest.take n).countP (!isContinuation ·)
  { c with
    rest := c.rest.drop n
    position := ⟨c.offset + n, c.position.line, c.position.column + passed⟩ }

/-- The number of bytes before the next line break, which is a line feed together with a carriage
return in front of it, or before the end of the text. -/
def lineLength (bytes : List UInt8) : Nat :=
  let line := bytes.takeWhile (· != 10)
  if line.length < bytes.length && line.getLast? == some 13 then line.length - 1 else line.length

/-- Moves to the next line break or to the end. -/
def skipLine (c : ByteCursor) : ByteCursor := c.skip (lineLength c.rest)

/-- The bytes at which plain string content ends: a double quote, a backslash, a line feed and a
carriage return. -/
def isStringDelimiter (b : UInt8) : Bool := b == 34 || b == 92 || b == 10 || b == 13

/-- Moves to the next string delimiter or to the end. -/
def skipPlain (c : ByteCursor) : ByteCursor :=
  c.skip (c.rest.takeWhile (!isStringDelimiter ·)).length

end ByteCursor

end DeclFront
