/-
# Metta.Log -- what a run reports

Notable events of a run are kept as records in the order in which they happened.
-/

namespace Metta

set_option autoImplicit false

inductive Level where
  | debug | info
deriving DecidableEq, Repr

def Level.name : Level → String
  | .debug => "DEBUG"
  | .info => "INFO"

/-- How much a level weighs; a threshold lets through what weighs at least as much. -/
def Level.weight : Level → Nat
  | .debug => 10
  | .info => 20

structure LogRecord where
  level : Level
  message : String
deriving DecidableEq, Repr

/-- Records in the order in which they were made. -/
abbrev Log := Array LogRecord

/-- The capital of a letter, where that is a letter from A to Z.  Two letters beyond these have such
a capital: the dotless i and the long s. -/
def capital (c : Char) : Char :=
  if c = '\u0131' then 'I' else if c = '\u017F' then 'S' else c.toUpper

/-- The weights of the thresholds that have a name, in capitals. -/
def threshold? : String → Option Nat
  | "CRITICAL" | "FATAL" => some 50
  | "ERROR" => some 40
  | "WARNING" | "WARN" => some 30
  | "INFO" => some 20
  | "DEBUG" => some 10
  | "NOTSET" => some 0
  | _ => none

/-- The weight of a threshold whose name may be written in small letters. -/
def thresholdNamed? (name : String) : Option Nat :=
  threshold? (String.ofList (name.toList.map capital))

/-- The records that a threshold lets through. -/
def Log.atLeast (log : Log) (threshold : Nat) : Log :=
  log.filter fun r => threshold ≤ r.level.weight

end Metta
