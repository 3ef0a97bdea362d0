import DeclFront.Token.Kind

/-!
# Sets of token kinds

The sets by which the parser decides: what may begin a construct, and where skipping stops. A set is
its membership test; since there are finitely many kinds, sets can be counted and compared.
-/

namespace DeclFront

/-- A set of token kinds. -/
@[ext] structure KindSet where
  contains : TokenKind → Bool

namespace KindSet

def empty : KindSet := ⟨fun _ => false⟩

def insert (s : KindSet) (k : TokenKind) : KindSet := ⟨fun j => s.contains j || j == k⟩

def union (s t : KindSet) : KindSet := ⟨fun k => s.contains k || t.contains k⟩

def ofList (ks : List TokenKind) : KindSet := ⟨ks.contains⟩

/-- The members, in the order of the indices. -/
def toList (s : KindSet) : List TokenKind := TokenKind.all.filter s.contains

def size (s : KindSet) : Nat := s.toList.length

def isEmpty (s : KindSet) : Bool := s.toList.isEmpty

instance : DecidableEq KindSet := fun s t =>
  decidable_of_iff (∀ k ∈ TokenKind.all, s.contains k = t.contains k)
    ⟨fun h => KindSet.ext (funext fun k => h k (TokenKind.mem_all k)), fun h => by simp [h]⟩

/-! ## The sets of the grammar -/

/-- The kinds that open a body in braces. -/
def bodyStart : KindSet := ofList [.caretBrace, .pipeBrace, .percentBrace, .hashBrace]

/-- The kinds that begin a type. -/
def typeStart : KindSet :=
  bodyStart.union (ofList [.identifier, .own, .borrow, .async, .leftParen])

/-- The kinds that begin a function type. -/
def functionStart : KindSet := ofList [.leftParen, .async]

/-- The kinds that separate the members of a body. -/
def separator : KindSet := ofList [.comma, .terminator]

/-- The kinds that open a group. -/
def opener : KindSet := bodyStart.union (ofList [.leftParen, .leftBracket, .leftBrace])

/-- The kinds that close a group. -/
def closer : KindSet := ofList [.rightParen, .rightBracket, .rightBrace]

/-! ## Where skipping stops -/

/-- Behind a malformed member of a body. -/
def memberStop : KindSet := separator.insert .rightBrace

/-- Behind a malformed list in brackets. -/
def bracketStop : KindSet := ofList [.rightBracket, .terminator, .colonEqual]

/-- Behind a malformed list of parameters. -/
def parenStop : KindSet := ofList [.rightParen, .terminator, .arrow]

/-- Behind a malformed payload. -/
def payloadStop : KindSet := ofList [.rightParen, .rightBrace, .terminator]

end KindSet

end DeclFront
