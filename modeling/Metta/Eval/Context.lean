/-
# Metta.Eval.Context -- what a form knows while it is evaluated

A form is evaluated against one space, at some depth, under the settings of the
interpreter; how atoms are reduced the context says too.  How its parts are evaluated a
form is told as a function `eval`, which works one level deeper.  Malformed forms answer
with an error atom whose source is the form.
-/
import Metta.World
import Metta.Settings

namespace Metta.Eval

set_option autoImplicit false

structure Context where
  settings : Settings
  /-- The name of the space evaluated against. -/
  self : String
  depth : Nat
  /-- Reduces an atom by the rules of a space. -/
  reduce : Space → Atom → Eval Atom

namespace Context

/-- Reports a step if steps are reported, indented by the depth. -/
def trace (ctx : Context) (message : Unit → Except Unwritable String) : Eval Unit := do
  if ctx.settings.trace then
    report ⟨.debug, "".pushn ' ' (2 * ctx.depth) ++ (← writing (message ()))⟩

/-- The name of the registered space that a reference means: `&self` is the space evaluated
against, `&` and a name the space of that name. -/
def resolve (ctx : Context) : Atom → Eval (Option String)
  | .symbol ref => fun w =>
    if ref = "&self" then .ok (some ctx.self) w
    else
      match ref.toList with
      | '&' :: name => .ok ((w.space? (String.ofList name)).map Space.name) w
      | _ => .ok none w
  | _ => return none

end Context

/-- The results, or `empty` if there are none. -/
def orEmpty : List Atom → List Atom
  | [] => [.empty]
  | results => results

/-- The only result is an error that arose from `form`. -/
def fail (message : String) (form : Atom) : Eval (List Atom) := return [.error message (some form)]

/-- The answer to a form with the wrong number of arguments. -/
def arityFault (head description : String) (form : Atom) : Eval (List Atom) :=
  fail (head ++ " requires " ++ description) form

def unknownSpace (ref form : Atom) : Eval (List Atom) := do
  fail ("Unknown space: " ++ (← writing ref.written)) form

end Metta.Eval
