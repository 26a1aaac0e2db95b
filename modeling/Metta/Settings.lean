/-
# Metta.Settings -- what an interpreter is started with
-/

namespace Metta

set_option autoImplicit false

/-- Limits and options of an interpreter.  Negative limits allow nothing. -/
structure Settings where
  /-- The contractions that one reduction may take. -/
  maxSteps : Int := 1000
  /-- The greatest depth at which an evaluation may be started, the outermost being zero. -/
  maxDepth : Int := 200
  /-- Whether every evaluation step is reported. -/
  trace : Bool := false
  /-- The name of the space that is there from the start. -/
  spaceName : String := "default"
  /-- Whether the prelude is loaded at the start. -/
  loadPrelude : Bool := true
deriving DecidableEq, Repr

/-- The levels of evaluation that the greatest depth allows. -/
def Settings.levels (s : Settings) : Nat := (s.maxDepth + 1).toNat

end Metta
