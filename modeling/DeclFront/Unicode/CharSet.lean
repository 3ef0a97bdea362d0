/-!
# Sets of characters by their boundaries

A large set of characters is written as the increasing list of the code points at which
membership changes: the first number is the first member, the second the first non-member
after it, and so on. Looking a character up walks the list and flips at every boundary that is
not behind it.
-/

namespace DeclFront

/-- A set of characters, given by the code points where membership changes. -/
structure CharSet where
  bounds : List Nat

namespace CharSet

/-- Membership of the code point `n` when `inside` holds before the first boundary. -/
def switch (n : Nat) (inside : Bool) : List Nat → Bool
  | [] => inside
  | b :: bs => if n < b then inside else switch n (!inside) bs

/-- Whether `c` is a member. -/
def contains (s : CharSet) (c : Char) : Bool := switch c.toNat false s.bounds

end CharSet

end DeclFront
