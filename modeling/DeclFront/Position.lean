/-!
# Positions and spans

**Positions.** A place in a text is its byte offset together with the line and the column that
a reader sees there. Lines and columns start at one, and a column counts characters, so a tab
or an accented letter is one column whatever its encoded length.

**Spans.** A half-open range of byte offsets. Merging two spans gives the least span that
covers both.
-/

namespace DeclFront

/-! ## Positions -/

/-- The number of bytes that characters take in a text. -/
def byteLength (cs : List Char) : Nat := cs.foldr (fun c n => c.utf8Size + n) 0

@[simp] theorem byteLength_nil : byteLength [] = 0 := rfl

@[simp] theorem byteLength_cons (c : Char) (cs : List Char) :
    byteLength (c :: cs) = c.utf8Size + byteLength cs := rfl

theorem byteLength_append (cs ds : List Char) :
    byteLength (cs ++ ds) = byteLength cs + byteLength ds := by
  induction cs with
  | nil => simp
  | cons c cs ih => simp [ih, Nat.add_assoc]

/-- A place in a text. -/
structure Position where
  offset : Nat
  line : Nat
  column : Nat
deriving DecidableEq

namespace Position

/-- The place before the first character. -/
def origin : Position := ⟨0, 1, 1⟩

/-- The place just behind the character `c` that stands at `p`. -/
def advance (p : Position) (c : Char) : Position :=
  if c = '\n' then ⟨p.offset + c.utf8Size, p.line + 1, 1⟩
  else ⟨p.offset + c.utf8Size, p.line, p.column + 1⟩

/-- The place just behind the characters `cs` that start at `p`. -/
def after (p : Position) (cs : List Char) : Position := cs.foldl advance p

@[simp] theorem after_nil (p : Position) : p.after [] = p := rfl

@[simp] theorem after_cons (p : Position) (c : Char) (cs : List Char) :
    p.after (c :: cs) = (p.advance c).after cs := rfl

theorem after_append (p : Position) (cs ds : List Char) :
    p.after (cs ++ ds) = (p.after cs).after ds := List.foldl_append

@[simp] theorem offset_advance (p : Position) (c : Char) :
    (p.advance c).offset = p.offset + c.utf8Size := by
  unfold advance; split <;> rfl

/-- The offset moves by the bytes of what was passed. -/
theorem offset_after (p : Position) (cs : List Char) :
    (p.after cs).offset = p.offset + byteLength cs := by
  induction cs generalizing p with
  | nil => rfl
  | cons c cs ih => rw [after_cons, ih, offset_advance, byteLength_cons, Nat.add_assoc]

end Position

/-! ## Spans -/

/-- The bytes from `start` up to, and without, `stop`. -/
structure Span where
  start : Nat
  stop : Nat
deriving DecidableEq

namespace Span

/-- The empty span at the beginning, for things that stand nowhere. -/
def nowhere : Span := ⟨0, 0⟩

/-- The empty span at `offset`. -/
def point (offset : Nat) : Span := ⟨offset, offset⟩

/-- The number of bytes covered. -/
def length (s : Span) : Nat := s.stop - s.start

def isEmpty (s : Span) : Bool := s.start == s.stop

/-- The least span that covers both. -/
def merge (s t : Span) : Span := ⟨min s.start t.start, max s.stop t.stop⟩

/-- `s.Covers t`: no byte of `t` lies outside `s`. -/
def Covers (s t : Span) : Prop := s.start ≤ t.start ∧ t.stop ≤ s.stop

instance (s t : Span) : Decidable (s.Covers t) := inferInstanceAs (Decidable (_ ∧ _))

/-- Written `start..stop`. -/
instance : ToString Span := ⟨fun s => toString s.start ++ ".." ++ toString s.stop⟩

end Span

end DeclFront
