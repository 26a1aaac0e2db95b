/-
# Metta.Render -- the written form of atoms

`Atom.render` writes an atom as source text.  Symbols, plain variables, literals
with their own tags and expressions of these read back; a constrained variable is
written as a typing expression, and `empty` and errors have only a display form.

Not every atom has a written form.  Literals are written from left to right, and the
first that has none says why the atom has none (`Atom.fault?`); `Atom.written` fails with
that.
-/
import Metta.Atom

namespace Metta

open Metta.Text

set_option autoImplicit false

namespace Atom

mutual

def render : Atom → String
  | .symbol name => name
  | .var name none => "$" ++ name
  | .var name (some type) => "(: $" ++ name ++ " " ++ type.render ++ ")"
  | .literal l => l.render
  | .expr cs => "(" ++ renderAll cs ++ ")"
  | .empty => "()"
  | .error message none => "(Error " ++ literalForm message ++ ")"
  | .error message (some source) => "(Error " ++ source.render ++ " " ++ literalForm message ++ ")"

/-- The written forms with a blank between each two. -/
def renderAll : List Atom → String
  | [] => ""
  | [c] => c.render
  | c :: cs => c.render ++ " " ++ renderAll cs

end

mutual

/-- What stands against writing the atom, the first such thing from the left. -/
def fault? : Atom → Option Unwritable
  | .symbol _ | .var _ none | .empty | .error _ none => none
  | .var _ (some type) => type.fault?
  | .literal l => l.fault?
  | .expr cs => firstFault? cs
  | .error _ (some source) => source.fault?

def firstFault? : List Atom → Option Unwritable
  | [] => none
  | c :: cs => c.fault?.or (firstFault? cs)

end

/-- Whether every literal in the atom has a written form. -/
def isWritable (a : Atom) : Bool := a.fault?.isNone

theorem firstFault?_eq_none_iff (cs : List Atom) :
    firstFault? cs = none ↔ ∀ c ∈ cs, c.isWritable = true := by
  induction cs with
  | nil => simp [firstFault?]
  | cons c cs ih => simp [firstFault?, isWritable, ih]

theorem firstFault?_singleton (a : Atom) : firstFault? [a] = a.fault? := Option.or_none

theorem fault?_headed (name : String) (args : List Atom) :
    (expr (.symbol name :: args)).fault? = firstFault? args := Option.none_or

theorem isWritable_symbol (name : String) : (symbol name).isWritable = true := rfl

theorem isWritable_expr (cs : List Atom) : (expr cs).isWritable = cs.all isWritable := by
  rw [Bool.eq_iff_iff, isWritable, Option.isNone_iff_eq_none, fault?, firstFault?_eq_none_iff,
    List.all_eq_true]

/-- A text that is made of the written forms of these atoms. -/
def writing (as : List Atom) (text : String) : Except Unwritable String :=
  match firstFault? as with
  | some e => .error e
  | none => .ok text

/-- The written form, where there is one. -/
def written (a : Atom) : Except Unwritable String := writing [a] a.render

theorem writing_eq_ok {as : List Atom} (writable : ∀ a ∈ as, a.isWritable = true) (text : String) :
    writing as text = .ok text := by
  rw [writing, (firstFault?_eq_none_iff as).mpr writable]

theorem writing_eq_error_iff {as : List Atom} {text : String} {e : Unwritable} :
    writing as text = .error e ↔ firstFault? as = some e := by
  rw [writing]
  cases firstFault? as <;> simp

theorem written_eq_ok_iff (a : Atom) (s : String) :
    a.written = .ok s ↔ a.isWritable = true ∧ a.render = s := by
  cases fault : a.fault? <;> simp [written, writing, firstFault?, isWritable, fault]

theorem written_eq_error_iff (a : Atom) (e : Unwritable) :
    a.written = .error e ↔ a.fault? = some e := by
  rw [written, writing_eq_error_iff, firstFault?_singleton]

/-- A text that cannot be written fails as one of its atoms does. -/
theorem exists_of_writing_eq_error {as : List Atom} {text : String} {e : Unwritable}
    (failed : writing as text = .error e) : ∃ a ∈ as, a.written = .error e := by
  rw [writing_eq_error_iff] at failed
  induction as with
  | nil => cases failed
  | cons a as ih =>
      rw [firstFault?, Option.or_eq_some_iff] at failed
      obtain here | ⟨-, later⟩ := failed
      · exact ⟨a, .head _, (written_eq_error_iff a e).mpr here⟩
      · obtain ⟨b, member, written⟩ := ih later
        exact ⟨b, .tail _ member, written⟩

theorem exists_written_error {a : Atom} (unwritable : ¬ a.isWritable = true) :
    ∃ e, a.written = .error e := by
  rw [isWritable, Option.isNone_iff_eq_none] at unwritable
  obtain ⟨e, fault⟩ := Option.ne_none_iff_exists'.mp unwritable
  exact ⟨e, (written_eq_error_iff a e).mpr fault⟩

end Atom

end Metta
