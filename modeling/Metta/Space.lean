/-
# Metta.Space -- a knowledge base

A space holds atoms, each at most once up to atom equality and in the order in which
they came, and rules in descending order of priority, those of equal priority in the
order in which they came.
-/
import Metta.Reduce
import Metta.Log

namespace Metta

set_option autoImplicit false

structure Space where
  name : String
  atoms : List Atom
  rules : List Rule

namespace Space

def named (name : String) : Space := ⟨name, [], []⟩

def size (s : Space) : Nat := s.atoms.length

/-! ## Atoms -/

def contains (s : Space) (a : Atom) : Bool := s.atoms.any a.same

/-- Puts an atom at the end unless an equal one is there, and says whether it did. -/
def add (s : Space) (a : Atom) : Bool × Space :=
  if s.contains a then (false, s) else (true, { s with atoms := s.atoms ++ [a] })

/-- Takes away the atom equal to `a`, and says whether there was one. -/
def remove (s : Space) (a : Atom) : Bool × Space :=
  if s.contains a then (true, { s with atoms := s.atoms.eraseP a.same }) else (false, s)

/-- Takes away all atoms; the rules stay. -/
def clear (s : Space) : Space := { s with atoms := [] }

/-! ## Rules -/

/-- Puts a rule behind those whose priority is at least its own. -/
def insertRule (r : Rule) : List Rule → List Rule
  | [] => [r]
  | q :: qs => if r.priority ≤ q.priority then q :: insertRule r qs else r :: q :: qs

/-- Nothing is lost or doubled. -/
theorem insertRule_perm (r : Rule) (rs : List Rule) : (insertRule r rs).Perm (r :: rs) := by
  induction rs with
  | nil => exact .refl _
  | cons q qs ih =>
    unfold insertRule
    split
    · exact (ih.cons q).trans (.swap r q qs)
    · exact .refl _

def addRule (s : Space) (r : Rule) : Space := { s with rules := insertRule r s.rules }

/-- What is reported when a rule is added, which needs its written form. -/
def ruleAdded (s : Space) (r : Rule) : Except Unwritable LogRecord := do
  return ⟨.debug, "Space '" ++ s.name ++ "': added rule " ++ r.name ++ " " ++ (← r.written)⟩

/-! ## Questions -/

/-- The bindings of every stored atom that matches the pattern, in the order of the atoms. -/
def query (s : Space) (pattern : Atom) : List Bindings := Atom.matchEach s.atoms pattern

/-- The stored atoms that match the pattern. -/
def queryAtoms (s : Space) (pattern : Atom) : List Atom :=
  s.atoms.filter fun a => (a.matchPattern pattern).isSome

/-- Reduces an atom with the rules of the space. -/
def reduce (s : Space) (maxSteps : Int) (a : Atom) : Except GuardFault Atom :=
  a.reduce s.rules { maxSteps }

/-! ## Text -/

/-- Atoms and rules as source text, one per line. -/
def source (s : Space) : String :=
  "\n".intercalate (s.atoms.map Atom.render ++ s.rules.map Rule.render)

/-- Atoms and rules as source text, where all of them can be written. -/
def written (s : Space) : Except Unwritable String :=
  Atom.writing (s.atoms ++ s.rules.flatMap Rule.atoms) s.source

/-- A summary with the name and the counts. -/
def display (s : Space) : String :=
  "Space(" ++ Text.displayForm s.name ++ ", atoms=" ++ toString s.atoms.length ++
    ", rules=" ++ toString s.rules.length ++ ")"

end Space

end Metta
