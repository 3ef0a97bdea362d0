import DeclFront.Position
import DeclFront.Token.Kind

/-!
# Tokens

A token is a kind together with the stretch of text it covers. It holds no text of its own: the
text is a slice of the source. A `missing` token is empty and stands in a syntax tree, at the
place where the text lacks a token.
-/

namespace DeclFront

/-- A stretch of text of one kind. The length counts bytes. -/
structure Token where
  kind : TokenKind
  position : Position
  length : Nat
deriving DecidableEq

namespace Token

/-- The byte offset of the first byte. -/
def start (t : Token) : Nat := t.position.offset

/-- The byte offset just behind the last byte. -/
def stop (t : Token) : Nat := t.start + t.length

def span (t : Token) : Span := ⟨t.start, t.stop⟩

/-- The empty token that stands, before `t`, for one that the text lacks. -/
def missing (t : Token) : Token := ⟨.missing, t.position, 0⟩

/-- Whether `t` stands for a token that the text lacks. -/
def isMissing (t : Token) : Bool := t.kind == .missing

@[simp] theorem isMissing_missing (t : Token) : t.missing.isMissing = true := rfl

@[simp] theorem span_missing (t : Token) : t.missing.span = .point t.start := rfl

end Token

end DeclFront
