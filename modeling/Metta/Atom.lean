/-
# Metta.Atom -- the terms of the language

An atom is a symbol, a pattern variable (perhaps with a type constraint), a literal,
an expression, the distinguished result `empty`, or an error with a message and
perhaps the atom it arose from.

Atom equality is `Atom.same`.  It compares literals by value and looks neither at
type constraints nor at the sources of errors.  Atoms have no identity beside what they
are made of, so that one with a NaN in it does not equal itself.
-/
import Metta.Literal

namespace Metta

set_option autoImplicit false

inductive Atom where
  | symbol (name : String)
  | var (name : String) (constraint : Option Atom)
  | literal (value : Literal)
  | expr (children : List Atom)
  | empty
  | error (message : String) (source : Option Atom)

namespace Atom

instance : Inhabited Atom := ⟨.empty⟩

/-- The symbol a truth value is written as. -/
def ofBool (b : Bool) : Atom := .symbol (if b then "True" else "False")

def ofScalar (v : Scalar) : Atom := .literal (.ofScalar v)

/-! ## Equality -/

mutual

/-- Atom equality. -/
def same : Atom → Atom → Bool
  | .symbol a, .symbol b => a == b
  | .var a _, .var b _ => a == b
  | .literal a, .literal b => a.same b
  | .expr as, .expr bs => sameAll as bs
  | .empty, .empty => true
  | .error m _, .error n _ => m == n
  | _, _ => false

/-- Equality child by child. -/
def sameAll : List Atom → List Atom → Bool
  | [], [] => true
  | a :: as, b :: bs => a.same b && sameAll as bs
  | _, _ => false

end

/-! ## Kinds -/

inductive Kind where
  | symbol | var | grounded | expression | empty | error
deriving DecidableEq, Repr

def Kind.name : Kind → String
  | .symbol => "Symbol"
  | .var => "Variable"
  | .grounded => "Grounded"
  | .expression => "Expression"
  | .empty => "Empty"
  | .error => "Error"

def kind : Atom → Kind
  | .symbol _ => .symbol
  | .var _ _ => .var
  | .literal _ => .grounded
  | .expr _ => .expression
  | .empty => .empty
  | .error _ _ => .error

/-! ## Traversal -/

/-- An atom met on a walk, with the expression it is a child of and its place there. -/
structure Visit where
  parent : Option Atom
  index : Option Nat
  node : Atom

mutual

/-- The atom and all atoms below it in expressions, each before its children. -/
def walkFrom (parent : Option Atom) (index : Option Nat) : Atom → List Visit
  | .expr cs => ⟨parent, index, .expr cs⟩ :: walkChildren (.expr cs) 0 cs
  | a => [⟨parent, index, a⟩]

/-- The walk of the children of `parent` from the one at place `index` on. -/
def walkChildren (parent : Atom) (index : Nat) : List Atom → List Visit
  | [] => []
  | c :: cs => walkFrom (some parent) (some index) c ++ walkChildren parent (index + 1) cs

end

def walk (a : Atom) : List Visit := walkFrom none none a

/-- The atom and all atoms below it in expressions. -/
def subterms (a : Atom) : List Atom := a.walk.map Visit.node

mutual

/-- Nesting depth; leaves and the expression without children have depth one. -/
def depth : Atom → Nat
  | .expr cs => 1 + depthAll cs
  | _ => 1

/-- The greatest depth in a list, zero for none. -/
def depthAll : List Atom → Nat
  | [] => 0
  | c :: cs => max c.depth (depthAll cs)

end

/-- The names of the variables of an atom, as often as they occur. -/
def varNames (a : Atom) : List String :=
  a.subterms.filterMap fun
    | .var name _ => some name
    | _ => none

/-- The symbols `False` and `Nil`, falsy literals, `empty` and errors are falsy; every other atom
is truthy. -/
def isTruthy : Atom → Bool
  | .symbol name => name != "False" && name != "Nil"
  | .literal l => l.value.isTruthy
  | .empty | .error _ _ => false
  | .var _ _ | .expr _ => true

/-- The child at an index; a negative one counts from the end. -/
def childAt? (children : List Atom) (index : Int) : Option Atom :=
  if 0 ≤ index then children[index.toNat]?
  else if -index ≤ children.length then children[(children.length + index).toNat]?
  else none

end Atom

end Metta
