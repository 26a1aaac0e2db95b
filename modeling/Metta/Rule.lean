/-
# Metta.Rule -- reduction rules and their guards

A rule contracts an atom that matches its pattern: the template, instantiated with the
bindings of the match, takes its place.  A guard is a predicate on those bindings that
may refuse the contraction, or fail outright (`GuardFault`); a rule without a guard
never fails.

`Rule.contract` is one contraction at the top of an atom, by the first rule of a list
that applies there.
-/
import Metta.Match

namespace Metta

set_option autoImplicit false

/-- What a guard says when it fails instead of deciding. -/
structure GuardFault where
  message : String
deriving DecidableEq, Repr

/-- A predicate on the bindings of a match. -/
abbrev Guard := Bindings → Except GuardFault Bool

namespace Guard

/-- Decides without looking at the bindings. -/
def always (b : Bool) : Guard := fun _ => .ok b

/-- The name is bound. -/
def isBound (name : String) : Guard := fun b => .ok (b.has name)

/-- The name is bound to an atom of which `p` holds. -/
def boundTo (name : String) (p : Atom → Bool) : Guard := fun b => .ok ((b.get? name).any p)

/-- The name is bound to an atom equal to `a`. -/
def equals (name : String) (a : Atom) : Guard := boundTo name fun value => value.same a

/-- The name is bound to an atom of the kind called `kind`. -/
def ofKind (name kind : String) : Guard := boundTo name fun value => value.kind.name == kind

/-- The name is bound to a number above zero. -/
def positive (name : String) : Guard :=
  boundTo name fun
    | .literal ⟨.int n, _⟩ => 0 < n
    | .literal ⟨.float x, _⟩ => decide (0 < x)
    | _ => false

/-- Fails whatever the bindings. -/
def failing (message : String) : Guard := fun _ => .error ⟨message⟩

end Guard

structure Rule where
  name : String
  pattern : Atom
  template : Atom
  guard : Option Guard
  priority : Int

namespace Rule

/-- Does the guard, if there is one, let these bindings pass? -/
def admits (r : Rule) (b : Bindings) : Except GuardFault Bool :=
  match r.guard with
  | none => .ok true
  | some guard => guard b

/-- The template with the bindings of a match with the pattern that the guard lets pass. -/
def apply (r : Rule) (a : Atom) : Except GuardFault (Option Atom) :=
  match a.matchPattern r.pattern with
  | none => .ok none
  | some b => do return if ← r.admits b then some (b.apply r.template) else none

/-- One contraction at the top of an atom, by the first rule that applies to it. -/
def contract : List Rule → Atom → Except GuardFault (Option Atom)
  | [], _ => .ok none
  | r :: rs, a => do
    match ← r.apply a with
    | some a' => return some a'
    | none => contract rs a

/-- The rule as the form that defines it. -/
def render (r : Rule) : String := "(= " ++ r.pattern.render ++ " " ++ r.template.render ++ ")"

/-- The atoms of the rule. -/
def atoms (r : Rule) : List Atom := [r.pattern, r.template]

/-- The rule as the form that defines it, where that can be written. -/
def written (r : Rule) : Except Unwritable String := Atom.writing r.atoms r.render

end Rule

end Metta
