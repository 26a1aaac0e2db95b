/-
# Metta.Match -- one-sided matching

`Atom.matchPattern a p b` extends the bindings `b` so that the pattern `p` becomes an
atom equal to `a`.  Only variables of the pattern are bound; those of the data are
data.  Errors in a pattern match by message, and `empty` matches only itself, not the
expression without children.
-/
import Metta.Bindings

namespace Metta

set_option autoImplicit false

namespace Atom

mutual

/-- Extends bindings by those that make the pattern, given second, equal to the data. -/
def matchInto (b : Bindings) : (data pattern : Atom) → Option Bindings
  | data, .var name _ => b.bind name data
  | .expr cs, .expr ps => matchAllInto b cs ps
  | .empty, .empty => some b
  | data, .symbol name => if data.same (.symbol name) then some b else none
  | data, .literal l => if data.same (.literal l) then some b else none
  | data, .error message source => if data.same (.error message source) then some b else none
  | _, .expr _ => none
  | _, .empty => none

/-- Matches child by child, from left to right. -/
def matchAllInto (b : Bindings) : (data patterns : List Atom) → Option Bindings
  | [], [] => some b
  | c :: cs, p :: ps => (matchInto b c p).bind fun b' => matchAllInto b' cs ps
  | _, _ => none

end

/-- The bindings that make a pattern equal to this atom. -/
def matchPattern (data pattern : Atom) : Option Bindings := matchInto .empty data pattern

/-- The successful matches of a pattern among atoms, in their order. -/
def matchEach (atoms : List Atom) (pattern : Atom) : List Bindings :=
  atoms.filterMap (·.matchPattern pattern)

end Atom

end Metta
