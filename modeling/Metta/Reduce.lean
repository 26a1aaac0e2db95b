/-
# Metta.Reduce -- reducing an atom to normal form

Reduction contracts an atom at the top as long as it can.  Where it cannot, it reduces
the children of an expression from left to right, and starts over at the top if that
made one of them unequal to what it was.  Every contraction, at any depth, is paid out
of one budget, and sub-expressions below a given depth are left alone.  When the budget
is used up the atom stays as it is at that moment.

The schedule is stated over any function `contract` that contracts atoms at the top and
may fail (`Reduce.within`), and returns the budget left over beside the atom.
`Atom.reduce` runs it with the rules of a list.

A reduction that never ends, which takes a NaN, has an answer here all the same.  Whether
there is a result at all is told by `Atom.ReducesTo`.
-/
import Metta.Rule

namespace Metta

set_option autoImplicit false

namespace Reduce

variable {ε : Type}

/-- Reduces children from left to right out of one budget. -/
def children (child : Nat → Atom → Except ε (Atom × Nat)) :
    (budget : Nat) → List Atom → Except ε (List Atom × Nat)
  | budget, [] => return ([], budget)
  | budget, c :: cs => do
    let (c', rest) ← child budget c
    let (cs', rest) ← children child rest cs
    return (c' :: cs', rest)

/-- Reduces one atom whose children are reduced by `child`.  A round that starts over has paid for a
contraction if every atom equals itself, and then as many rounds as the budget has steps are enough.
A NaN among the children does not equal itself.  The loop at such an atom may have no end
(`checked_nan`); the count cuts it off, and what it leaves then is the outcome of no reduction
(`Atom.ReducesTo`). -/
def rounds (contract : Atom → Except ε (Option Atom))
    (child : Nat → Atom → Except ε (Atom × Nat)) :
    (rounds budget : Nat) → Atom → Except ε (Atom × Nat)
  | 0, budget, a => return (a, budget)
  | _ + 1, 0, a => return (a, 0)
  | n + 1, budget + 1, a => do
    match ← contract a with
    | some a' => rounds contract child n budget a'
    | none =>
      match a with
      | .expr cs =>
        let (cs', rest) ← children child (budget + 1) cs
        if Atom.sameAll cs' cs then return (a, rest)
        else rounds contract child n rest (.expr cs')
      | _ => return (a, budget + 1)

/-- Reduces an atom and what is nested in it, `levels` levels in all. -/
def within (contract : Atom → Except ε (Option Atom)) :
    (levels budget : Nat) → Atom → Except ε (Atom × Nat)
  | 0, budget, a => return (a, budget)
  | levels + 1, budget, a => rounds contract (within contract levels) budget budget a

/-- Limits of a reduction.  Negative ones allow nothing. -/
structure Limits where
  maxSteps : Int := 100
  maxDepth : Int := 64

/-- The levels that a greatest nesting depth allows, counting the top as depth zero. -/
def Limits.levels (l : Limits) : Nat := (l.maxDepth + 1).toNat

def Limits.budget (l : Limits) : Nat := l.maxSteps.toNat

end Reduce

/-- The atom reduced with the first applicable rule of a list at each step, and the number of
contractions that took. -/
def Atom.reduceCounting (rules : List Rule) (limits : Reduce.Limits) (a : Atom) :
    Except GuardFault (Atom × Nat) := do
  let (a', rest) ← Reduce.within (Rule.contract rules) limits.levels limits.budget a
  return (a', limits.budget - rest)

/-- The atom reduced with the first applicable rule of a list at each step. -/
def Atom.reduce (rules : List Rule) (limits : Reduce.Limits) (a : Atom) : Except GuardFault Atom :=
  return (← a.reduceCounting rules limits).1

end Metta
