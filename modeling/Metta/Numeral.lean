/-
# Metta.Numeral -- numbers in source text

A numeral is an optional minus sign, a digit, and then digits with at most one point
among them.  Digits of any script count; one without a decimal value makes the numeral
malformed.  A numeral without a point is a whole number of bounded length, one with a
point is rounded to the nearest float.
-/
import Metta.Literal
import Metta.ParseError
import Metta.Text.Digit

namespace Metta.Numeral

open Metta.Text Metta.Number

set_option autoImplicit false

/-- Does a numeral begin with the character `c` when `cs` follow it? -/
def starts (c : Char) (cs : List Char) : Bool :=
  isDigit c || (c == '-' && cs.head?.any isDigit)

/-- The rest of a numeral: digits, and one point if `pointAllowed`. -/
def run : (pointAllowed : Bool) → List Char → List Char
  | _, [] => []
  | pointAllowed, c :: cs =>
    if isDigit c then c :: run pointAllowed cs
    else if c = '.' && pointAllowed then c :: run false cs
    else []

/-- The number that decimal digits stand for, the first one the most significant. -/
def value? (ds : List Char) : Option Nat :=
  ds.foldlM (fun n c => (decimalValue? c).map (10 * n + ·)) 0

/-- The digits in front of the first one without a decimal value. -/
def leadingDecimals (ds : List Char) : List Char := ds.takeWhile fun c => (decimalValue? c).isSome

/-- Reads a whole numeral of the given sign from its digits.  Too many digits are noticed before a
digit without a decimal value that comes after them. -/
def readInteger (negative : Bool) (literal digits : List Char) : Except Flaw Literal :=
  let count := (leadingDecimals digits).length
  if Flaw.maxIntegerDigits < count then .error (.tooManyDigits count)
  else
    match value? digits with
    | none => .error (.undecimalInteger literal)
    | some n => .ok (.ofScalar (.int (if negative then -n else n)))

/-- Reads a numeral of the given sign from its digits before and behind the point. -/
def readFloat (negative : Bool) (literal whole fraction : List Char) : Except Flaw Literal :=
  match value? (whole ++ fraction) with
  | none => .error (.undecimalFloat literal)
  | some n =>
    match nearestSigned? negative (mkRat n (Nat.pow 10 fraction.length)) with
    | none => .error .outOfRange
    | some x => .ok (.ofScalar (.float x))

/-- Reads a complete numeral. -/
def read (literal : List Char) : Except Flaw Literal :=
  let negative := literal.head? == some '-'
  let body := if negative then literal.tail else literal
  if body.contains '.' then
    readFloat negative literal (body.takeWhile (· != '.')) (body.dropWhile (· != '.')).tail
  else readInteger negative literal body

end Metta.Numeral
