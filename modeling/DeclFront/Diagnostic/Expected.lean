import DeclFront.Token.Kind

/-!
# The kinds that would have been accepted

A finding about a token may say which kinds would have been accepted in its place. It names at
most four, in the order in which they were put forward, and none twice.
-/

namespace DeclFront

/-- At most four distinct kinds, in the order of insertion. -/
structure ExpectedKinds where
  kinds : List TokenKind
  nodup : kinds.Nodup
  length_le : kinds.length ≤ 4
deriving DecidableEq

namespace ExpectedKinds

/-- The greatest number of kinds. -/
def capacity : Nat := 4

def empty : ExpectedKinds := ⟨[], List.nodup_nil, by decide⟩

def singleton (k : TokenKind) : ExpectedKinds := ⟨[k], by simp, by simp⟩

def size (s : ExpectedKinds) : Nat := s.kinds.length

def contains (s : ExpectedKinds) (k : TokenKind) : Bool := s.kinds.contains k

def isEmpty (s : ExpectedKinds) : Bool := s.kinds.isEmpty

def isFull (s : ExpectedKinds) : Bool := s.size == capacity

def first? (s : ExpectedKinds) : Option TokenKind := s.kinds.head?

/-- Whether inserting `k` would add it: it is new and there is room. -/
def admits (s : ExpectedKinds) (k : TokenKind) : Bool := !s.contains k && !s.isFull

/-- Adds `k` behind the others, or nothing when it is not admitted. -/
def insert (s : ExpectedKinds) (k : TokenKind) : ExpectedKinds :=
  if h : s.admits k then
    { kinds := s.kinds ++ [k]
      nodup := by
        have hk : k ∉ s.kinds := by simp_all [admits, contains]
        exact List.nodup_append.2 ⟨s.nodup, by simp, by
          intro a ha b hb
          rcases List.mem_singleton.1 hb with rfl
          exact fun hab => hk (hab ▸ ha)⟩
      length_le := by
        have h4 : s.kinds.length ≠ 4 := by simp_all [admits, isFull, size, capacity]
        have := s.length_le
        simp only [List.length_append, List.length_singleton]
        omega }
  else s

/-- Inserts the kinds of a list in turn, and stops once there is no more room. -/
def insertAll (s : ExpectedKinds) : List TokenKind → ExpectedKinds
  | [] => s
  | k :: ks => if s.isFull then s else insertAll (s.insert k) ks

/-- The first four distinct kinds of a list. -/
def ofList (ks : List TokenKind) : ExpectedKinds := insertAll empty ks

theorem kinds_insert (s : ExpectedKinds) (k : TokenKind) :
    (s.insert k).kinds = if s.admits k then s.kinds ++ [k] else s.kinds := by
  unfold insert; split <;> rfl

end ExpectedKinds

end DeclFront
