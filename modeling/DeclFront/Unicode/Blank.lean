import DeclFront.Unicode.CharSet

/-!
# Blank characters

The Unicode property `White_Space`: everything that a text is blank at, from the tab to the
ideographic space. Zero-width characters are not among them.
-/

namespace DeclFront.Unicode

/-- The characters with the property `White_Space`. -/
def blank : CharSet := ⟨[
    0x9, 0xe, 0x20, 0x21, 0x85, 0x86, 0xa0, 0xa1, 0x1680, 0x1681, 0x2000, 0x200b, 0x2028, 0x202a,
    0x202f, 0x2030, 0x205f, 0x2060, 0x3000, 0x3001]⟩

end DeclFront.Unicode
