/-
# Metta.Text.Blank -- blank characters

The blank characters are the space separators, the line and paragraph
separators, and the control characters that act as separators: tab to carriage
return, the four information separators and next line.  Blanks separate the
tokens of source text and are trimmed from the lines typed into a session.

Main statement: every character that the core library calls white space is
blank (`isBlank_of_isWhitespace`); the table adds to core and takes nothing
away.
-/
namespace Metta.Text

set_option autoImplicit false

/-- Membership of a code point in a list of closed ranges. -/
def inRanges (ranges : List (Nat × Nat)) (n : Nat) : Bool :=
  ranges.any fun r => r.1 ≤ n && n ≤ r.2

/-- The blank code points as closed ranges, ascending and apart. -/
def blankRanges : List (Nat × Nat) :=
  [(0x20, 0x20), (0x09, 0x0D), (0x1C, 0x1F), (0x85, 0x85), (0xA0, 0xA0), (0x1680, 0x1680),
   (0x2000, 0x200A), (0x2028, 0x2029), (0x202F, 0x202F), (0x205F, 0x205F), (0x3000, 0x3000)]

def isBlank (c : Char) : Bool := inRanges blankRanges c.toNat

theorem isBlank_of_isWhitespace (c : Char) (h : c.isWhitespace = true) : isBlank c = true := by
  simp [Char.isWhitespace] at h
  rcases h with ((h | h) | h) | h <;> subst h <;> decide

/-- Drops the characters of a class at both ends. -/
def trimOf (p : Char → Bool) (cs : List Char) : List Char :=
  ((cs.dropWhile p).reverse.dropWhile p).reverse

/-- Drops the blanks at both ends. -/
def trim (cs : List Char) : List Char := trimOf isBlank cs

end Metta.Text
