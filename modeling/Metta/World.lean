/-
# Metta.World -- the state that evaluation changes

A world holds the registered spaces, in the order in which they were created and with
distinct names, and the log.  An evaluation step (`Eval`) reads and changes a world.  It
fails where a guard does, and where it has to write an atom that has no written form
(`EvalFault`); what it changed before it failed stays changed.

Spaces go by name.  A space in no registry that atoms are evaluated against is entered in the
world too, under a name that no symbol mentions: nothing can then tell it from a space that
has no name, since evaluation looks for no space but the one it was given and those that
symbols name.
-/
import Metta.Space

namespace Metta

set_option autoImplicit false

structure World where
  spaces : List Space
  log : Log

namespace World

/-- The registered space of a name. -/
def space? (w : World) (name : String) : Option Space := w.spaces.find? (·.name == name)

/-- The space of a name, or an empty one if none is entered under it. -/
def space (w : World) (name : String) : Space := (w.space? name).getD (.named name)

/-- Changes the registered space of a name. -/
def change (w : World) (name : String) (f : Space → Space) : World :=
  { w with spaces := w.spaces.map fun s => if s.name = name then f s else s }

def report (w : World) (r : LogRecord) : World := { w with log := w.log.push r }

end World

/-- Why an evaluation fails instead of answering. -/
inductive EvalFault where
  | guard (e : GuardFault)
  | unwritable (e : Unwritable)
deriving DecidableEq, Repr

def EvalFault.message : EvalFault → String
  | guard e => e.message
  | unwritable e => e.message

/-- An evaluation step. -/
abbrev Eval := EStateM EvalFault World

namespace Eval

/-- The space of a name as it is now. -/
def space (name : String) : Eval Space := fun w => .ok (w.space name) w

def change (name : String) (f : Space → Space) : Eval Unit := fun w => .ok () (w.change name f)

def report (r : LogRecord) : Eval Unit := fun w => .ok () (w.report r)

/-- A computation that changes nothing but may fail. -/
def ofExcept {ε α : Type} (fault : ε → EvalFault) : Except ε α → Eval α
  | .ok x => fun w => .ok x w
  | .error e => fun w => .error (fault e) w

/-- What guards decide. -/
def guarded {α : Type} : Except GuardFault α → Eval α := ofExcept .guard

/-- What is written. -/
def writing {α : Type} : Except Unwritable α → Eval α := ofExcept .unwritable

/-- Adds a rule to the space of a name and reports that. -/
def addRule (name : String) (r : Rule) : Eval Unit := do
  let s ← space name
  change name (·.addRule r)
  report (← writing (s.ruleAdded r))

/-- All results of `f` on the members of a list, from left to right. -/
def collect {α : Type} (f : α → Eval (List Atom)) : List α → Eval (List Atom)
  | [] => return []
  | x :: xs => do
    let first ← f x
    let others ← collect f xs
    return first ++ others

end Eval

end Metta
