/-
# Metta.Storage -- scalars from typed storage

A host may keep its scalars in storage of a fixed type: truth values, texts of a fixed
width, floats of three precisions, and whole numbers of any or of a fixed width.
`Storage.hold` says which scalar is left of a value that went through such storage.
Floats of less precision are rounded, whole numbers of a fixed width keep their lowest
bits, and a text loses the null characters at its end, which fill up the width.
-/
import Metta.HostValue

namespace Metta

open Metta.Number

set_option autoImplicit false

/-- A type of storage. -/
inductive Storage where
  | truth
  | text
  | float
  /-- Floats of a narrower format. -/
  | narrowFloat (p : Precision)
  | whole
  /-- Whole numbers of so many bits, one of them for the sign if there is one. -/
  | word (bits : Nat) (signed : Bool)

namespace Storage

/-- Why a value cannot be stored. -/
inductive Misfit where
  /-- A whole number is too large for a float. -/
  | tooLarge
  /-- Values of this sort have no place in the storage. -/
  | wrongSort
deriving DecidableEq, Repr

/-- The lowest bits of a whole number. -/
def wrap (bits : Nat) (signed : Bool) (n : Int) : Int :=
  if signed then Int.bmod n (Nat.pow 2 bits) else n % Nat.pow 2 bits

theorem wrap_unsigned_mem (bits : Nat) (n : Int) :
    0 ≤ wrap bits false n ∧ wrap bits false n < Nat.pow 2 bits := by
  have pos : (0 : Int) < Nat.pow 2 bits := Int.natCast_pos.mpr (Nat.pow_pos (by decide))
  exact ⟨Int.emod_nonneg n (by omega), Int.emod_lt_of_pos n pos⟩

/-- The text without the null characters at its end. -/
def withoutPadding (s : String) : String :=
  String.ofList (s.toList.reverse.dropWhile (· == '\x00')).reverse

/-- The float that a scalar is stored as. -/
def toFloat (v : Scalar) : Except Misfit Float :=
  match v, v.asFloat with
  | .truth b, _ => .ok (if b then 1.0 else 0.0)
  | _, .value x => .ok x
  | _, .tooLarge => .error .tooLarge
  | _, .notNumber => .error .wrongSort

/-- The whole number that a scalar is stored as; floats are cut off at the point. -/
def toWhole (v : Scalar) : Except Misfit Int :=
  match v, v.key? with
  | .truth b, _ => .ok (if b then 1 else 0)
  | _, some (.number (.finite q)) => .ok (q.num.tdiv q.den)
  | _, _ => .error .wrongSort

/-- The scalar that storage holds after a value was put into it. -/
def hold : Storage → HostValue → Except Misfit Scalar
  | .truth, .nothing => .ok (.truth false)
  | .truth, .scalar v => .ok (.truth v.isTruthy)
  | .text, .scalar (.text s) => .ok (.text (withoutPadding s))
  | .text, v => .ok (.text v.display)
  | .float, .scalar v => return .float (← toFloat v)
  | .narrowFloat p, .scalar v => return .float (p.narrow (← toFloat v))
  | .whole, .scalar v => return .int (← toWhole v)
  | .word bits signed, .scalar v => return .int (wrap bits signed (← toWhole v))
  | _, _ => .error .wrongSort

end Storage

end Metta
