/-
# Metta.Text.Whole -- whole numbers as option values

The value of a numeric option is a whole number in decimal digits of any script, with
an optional sign, padding around it, and single underscores between its digits.  All
blanks but the four information separators are padding.
-/
import Metta.Text.Digit

namespace Metta.Text.Whole

set_option autoImplicit false

/-- A whole number may have this many digits. -/
def maxDigits : Nat := 4300

/-- The digit values of a digit group; underscores stand between two digits. -/
def digits? : (afterDigit : Bool) → List Char → Option (List Nat)
  | afterDigit, [] => if afterDigit then some [] else none
  | afterDigit, c :: cs =>
    if c = '_' then (if afterDigit then digits? false cs else none)
    else
      match decimalValue? c with
      | some d => (digits? true cs).map (d :: ·)
      | none => none

/-- The sign and what follows it. -/
def sign : List Char → Bool × List Char
  | '-' :: cs => (true, cs)
  | '+' :: cs => (false, cs)
  | cs => (false, cs)

def isPadding (c : Char) : Bool := isBlank c && !inRanges [(0x1C, 0x1F)] c.toNat

/-- Reads a whole number. -/
def read? (text : List Char) : Option Int :=
  let (negative, body) := sign (trimOf isPadding text)
  match digits? false body with
  | none => none
  | some ds =>
    if maxDigits < ds.length then none
    else
      let n : Int := (ds.foldl (fun n d => 10 * n + d) 0 : Nat)
      some (if negative then -n else n)

end Metta.Text.Whole
