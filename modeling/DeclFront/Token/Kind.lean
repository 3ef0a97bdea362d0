/-!
# Token kinds

Every token has a **kind**. Kinds fall into six **bands**, and each kind has an **index** below
128 that lies in the range of its band; the gaps are room for kinds to come.

**Spelling.** Keywords and glyphs are spelled in one way only. Glyphs that begin with the same
character stand in the list of all kinds with the longer spelling first, so the first kind whose
spelling begins a text is the one with the longest spelling.

**Two names.** A kind has a `name`, which messages use, and a `label`, which listings use.
-/

namespace DeclFront

/-- The kind of a token. -/
inductive TokenKind where
  /-- The end of the text. -/
  | endOfInput
  /-- A character that starts no token. -/
  | invalid
  | own | borrow | async
  /-- A semicolon or a line break. -/
  | terminator
  | colonEqual | colonColon | colon | fatArrow | equal | arrow | minus | pipeBrace | pipe
  | percentBrace | percent | hashBrace | hash | caretBrace | caret | ellipsis | dotDot
  | dot | comma | leftParen | rightParen | leftBrace | rightBrace | leftBracket
  | rightBracket | less | greater | question | bang | ampersand | star | plus | slash
  | atSign
  | identifier | integer | decimal | string | rune
  | whitespace | comment
  /-- Stands in a syntax tree for a token that the text lacks. -/
  | missing
deriving DecidableEq

namespace TokenKind

/-- Every kind, in the order of the indices. -/
def all : List TokenKind :=
  [.endOfInput, .invalid, .own, .borrow, .async, .terminator, .colonEqual, .colonColon, .colon,
   .fatArrow, .equal, .arrow, .minus, .pipeBrace, .pipe, .percentBrace, .percent, .hashBrace,
   .hash, .caretBrace, .caret, .ellipsis, .dotDot, .dot, .comma, .leftParen, .rightParen,
   .leftBrace, .rightBrace, .leftBracket, .rightBracket, .less, .greater, .question, .bang,
   .ampersand, .star, .plus, .slash, .atSign, .identifier, .integer, .decimal, .string, .rune,
   .whitespace, .comment, .missing]

/-- Every kind is listed. -/
theorem mem_all (k : TokenKind) : k ∈ all := by cases k <;> decide

/-! ## Bands -/

/-- The number of a kind. Indices grow in the order of `all`. -/
def index : TokenKind → Nat
  | .endOfInput => 0 | .invalid => 1 | .own => 16 | .borrow => 17 | .async => 18
  | .terminator => 32 | .colonEqual => 33 | .colonColon => 34 | .colon => 35
  | .fatArrow => 36 | .equal => 37 | .arrow => 38 | .minus => 39 | .pipeBrace => 40
  | .pipe => 41 | .percentBrace => 42 | .percent => 43 | .hashBrace => 44 | .hash => 45
  | .caretBrace => 46 | .caret => 47 | .ellipsis => 48 | .dotDot => 49 | .dot => 50
  | .comma => 51 | .leftParen => 52 | .rightParen => 53 | .leftBrace => 54
  | .rightBrace => 55 | .leftBracket => 56 | .rightBracket => 57 | .less => 58
  | .greater => 59 | .question => 60 | .bang => 61 | .ampersand => 62 | .star => 63
  | .plus => 64 | .slash => 65 | .atSign => 66 | .identifier => 96 | .integer => 97
  | .decimal => 98 | .string => 99 | .rune => 100 | .whitespace => 112 | .comment => 113
  | .missing => 120

/-- One more than the greatest index a kind may have. -/
def indexBound : Nat := 128

end TokenKind

/-- A class of kinds with neighbouring indices. -/
inductive Band where
  | fixed | keyword | glyph | literal | trivia | synthetic
deriving DecidableEq

/-- The least index of a band. -/
def Band.start : Band → Nat
  | .fixed => 0
  | .keyword => 16
  | .glyph => 32
  | .literal => 96
  | .trivia => 112
  | .synthetic => 120

namespace TokenKind

/-- The band whose range the index lies in. -/
def band (k : TokenKind) : Band :=
  if k.index < Band.keyword.start then .fixed
  else if k.index < Band.glyph.start then .keyword
  else if k.index < Band.literal.start then .glyph
  else if k.index < Band.trivia.start then .literal
  else if k.index < Band.synthetic.start then .trivia
  else .synthetic

def isKeyword (k : TokenKind) : Bool := k.band == .keyword

def isGlyph (k : TokenKind) : Bool := k.band == .glyph

def isLiteral (k : TokenKind) : Bool := k.band == .literal

/-- Trivia separates tokens and means nothing else. -/
def isTrivia (k : TokenKind) : Bool := k.band == .trivia

def isSynthetic (k : TokenKind) : Bool := k.band == .synthetic

/-! ## Spellings and names -/

/-- The characters of a keyword or glyph. A terminator that is no line break is a semicolon. -/
def spelling? : TokenKind → Option (List Char)
  | .own => some ['o', 'w', 'n'] | .borrow => some ['b', 'o', 'r', 'r', 'o', 'w']
  | .async => some ['a', 's', 'y', 'n', 'c'] | .terminator => some [';']
  | .colonEqual => some [':', '='] | .colonColon => some [':', ':'] | .colon => some [':']
  | .fatArrow => some ['=', '>'] | .equal => some ['='] | .arrow => some ['-', '>']
  | .minus => some ['-'] | .pipeBrace => some ['|', '{'] | .pipe => some ['|']
  | .percentBrace => some ['%', '{'] | .percent => some ['%'] | .hashBrace => some ['#', '{']
  | .hash => some ['#'] | .caretBrace => some ['^', '{'] | .caret => some ['^']
  | .ellipsis => some ['.', '.', '.'] | .dotDot => some ['.', '.'] | .dot => some ['.']
  | .comma => some [','] | .leftParen => some ['('] | .rightParen => some [')']
  | .leftBrace => some ['{'] | .rightBrace => some ['}'] | .leftBracket => some ['[']
  | .rightBracket => some [']'] | .less => some ['<'] | .greater => some ['>']
  | .question => some ['?'] | .bang => some ['!'] | .ampersand => some ['&']
  | .star => some ['*'] | .plus => some ['+'] | .slash => some ['/'] | .atSign => some ['@']
  | _ => none

/-- The keyword spelled `text`, if there is one. -/
def keyword? (text : List Char) : Option TokenKind :=
  all.find? fun k => k.isKeyword && k.spelling? == some text

/-- How messages call a kind: its spelling between backquotes, or what it is. -/
def name (k : TokenKind) : String :=
  match k with
  | .endOfInput => "end of input" | .invalid => "invalid token"
  | .terminator => "terminator" | .identifier => "identifier" | .integer => "integer"
  | .decimal => "decimal" | .string => "string" | .rune => "rune"
  | .whitespace => "whitespace" | .comment => "comment" | .missing => "missing token"
  | _ => "`" ++ String.ofList (k.spelling?.getD []) ++ "`"

/-- How listings call a kind. -/
def label : TokenKind → String
  | .endOfInput => "Eob" | .invalid => "Error" | .own => "KwOwn" | .borrow => "KwBorrow"
  | .async => "KwAsync" | .terminator => "Terminator" | .colonEqual => "ColonEqual"
  | .colonColon => "ColonColon" | .colon => "Colon" | .fatArrow => "FatArrow"
  | .equal => "Equal" | .arrow => "Arrow" | .minus => "Minus" | .pipeBrace => "PipeBrace"
  | .pipe => "Pipe" | .percentBrace => "PercentBrace" | .percent => "Percent"
  | .hashBrace => "HashBrace" | .hash => "Hash" | .caretBrace => "CaretBrace"
  | .caret => "Caret" | .ellipsis => "Ellipsis" | .dotDot => "DotDot" | .dot => "Dot"
  | .comma => "Comma" | .leftParen => "LeftParen" | .rightParen => "RightParen"
  | .leftBrace => "LeftBrace" | .rightBrace => "RightBrace" | .leftBracket => "LeftBracket"
  | .rightBracket => "RightBracket" | .less => "Less" | .greater => "Greater"
  | .question => "Question" | .bang => "Bang" | .ampersand => "Ampersand" | .star => "Star"
  | .plus => "Plus" | .slash => "Slash" | .atSign => "At" | .identifier => "Identifier"
  | .integer => "IntegerLiteral" | .decimal => "DecimalLiteral"
  | .string => "StringLiteral" | .rune => "RuneLiteral" | .whitespace => "WhitespaceTrivia"
  | .comment => "CommentTrivia" | .missing => "Missing"

instance : ToString TokenKind := ⟨name⟩

end TokenKind

end DeclFront
