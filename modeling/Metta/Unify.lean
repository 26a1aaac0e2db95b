/-
# Metta.Unify -- two-sided unification

`Atom.unifyInto` makes two atoms equal by binding variables of either.  Both sides
are instantiated with the bindings found so far, one level deep, before they are
compared; of two different variables the left one is bound to the right one.  There
is no occurs check, so a variable may come to stand for an atom that contains it.

Because of that the recursion need not end.  `unifyInto` counts the levels it may
still descend and tells three outcomes apart: unified, a clash, and out of levels.
`Atom.unify` allows a number of levels that depends on the size of what it is given.
-/
import Metta.Bindings

namespace Metta

set_option autoImplicit false

/-- How a unification ends. -/
inductive Unification where
  | unified (bindings : Bindings)
  | clash
  | exhausted

namespace Unification

def ofOption : Option Bindings → Unification
  | some b => .unified b
  | none => .clash

/-- Goes on with the bindings found, if any were. -/
def andThen (u : Unification) (next : Bindings → Unification) : Unification :=
  match u with
  | .unified b => next b
  | .clash => .clash
  | .exhausted => .exhausted

def bindings? : Unification → Option Bindings
  | .unified b => some b
  | .clash | .exhausted => none

end Unification

namespace Atom

/-- Unifies pairs of children from left to right, each with the bindings of those before it. -/
def unifyEach (unifyChild : Bindings → Atom → Atom → Unification) (b : Bindings) :
    List Atom → List Atom → Unification
  | [], [] => .unified b
  | c :: cs, d :: ds => (unifyChild b c d).andThen fun b' => unifyEach unifyChild b' cs ds
  | _, _ => .clash

/-- Compares two atoms that have been instantiated. -/
def unifyHeads (unifyChild : Bindings → Atom → Atom → Unification) (b : Bindings) :
    Atom → Atom → Unification
  | .var x _, .var y t =>
    if x = y then .unified b else .ofOption (b.bind x (.var y t))
  | .var x _, d => .ofOption (b.bind x d)
  | c, .var y _ => .ofOption (b.bind y c)
  | .expr cs, .expr ds =>
    if cs.length = ds.length then unifyEach unifyChild b cs ds else .clash
  | .symbol x, .symbol y => if x = y then .unified b else .clash
  | .literal k, .literal l => if k.same l then .unified b else .clash
  | _, _ => .clash

/-- Extends bindings so as to make two atoms equal, descending at most `levels` levels. -/
def unifyInto : (levels : Nat) → Bindings → Atom → Atom → Unification
  | 0, _, _, _ => .exhausted
  | levels + 1, b, x, y => unifyHeads (unifyInto levels) b (b.apply x) (b.apply y)

/-- The levels that are allowed: one for each pair of subterms, and that again for each variable
that may be bound on the way. -/
def unifyLevels (b : Bindings) (x y : Atom) : Nat :=
  let nodes := x.walk.length + y.walk.length + b.entries.foldr (fun e n => e.2.walk.length + n) 0
  Nat.pow (nodes + 2) 3

/-- The bindings, beyond those of `b`, that make two atoms equal. -/
def unify (b : Bindings) (x y : Atom) : Option Bindings :=
  (unifyInto (unifyLevels b x y) b x y).bindings?

end Atom

end Metta
