/-
# Metta.Json -- reports as indented JSON

Reports consist of numbers, lists and objects with given keys.  They are written with
one member per line and two blanks of indentation per level.
-/
import Metta.Number.Decimal

namespace Metta

open Metta.Number

set_option autoImplicit false

inductive Json where
  | int (n : Int)
  | float (x : Float)
  | list (items : List Json)
  | object (members : List (String × Json))

namespace Json

/-- Floats that are no numbers have names of their own. -/
def floatText (x : Float) : String :=
  match Reading.ofFloat x with
  | .nan => "NaN"
  | .infinite negative => if negative then "-Infinity" else "Infinity"
  | .finite _ _ _ => String.ofList (Layout.compact x)

/-- The start of a line at a level. -/
def newline (level : Nat) : String := "\n".pushn ' ' (2 * level)

mutual

def render (level : Nat) : Json → String
  | .int n => toString n
  | .float x => floatText x
  | .list [] => "[]"
  | .list items => "[" ++ renderItems (level + 1) items ++ newline level ++ "]"
  | .object [] => "\x7b\x7d"
  | .object members => "\x7b" ++ renderMembers (level + 1) members ++ newline level ++ "\x7d"

def renderItems (level : Nat) : List Json → String
  | [] => ""
  | [v] => newline level ++ render level v
  | v :: vs => newline level ++ render level v ++ "," ++ renderItems level vs

def renderMembers (level : Nat) : List (String × Json) → String
  | [] => ""
  | [(key, v)] => newline level ++ "\"" ++ key ++ "\": " ++ render level v
  | (key, v) :: rest =>
    newline level ++ "\"" ++ key ++ "\": " ++ render level v ++ "," ++ renderMembers level rest

end

def text (v : Json) : String := render 0 v

end Json

end Metta
