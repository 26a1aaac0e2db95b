/-
# Metta.Number.Decimal -- the shortest decimal of a float, and its layouts

`Decimal.shortest` selects the fewest digits that read back to a float, of two
such the nearer to its exact value, and of two equally near ones the even one.
Whether digits read back is asked of `nearest?` itself, and where seventeen digits
should not do, the exact value is written out.

There are two layouts.  Float literals are written positionally, with at least one
digit on either side of the point, since source text has no exponents
(`Layout.positional`).  Everywhere else very large and very small numbers take an
exponent of at least two digits (`Layout.compact`).
-/
import Metta.Number.Binary

namespace Metta.Number

set_option autoImplicit false

/-- The number `coefficient * 10 ^ exponent`. -/
structure Decimal where
  coefficient : Nat
  exponent : Int
deriving DecidableEq, Repr

namespace Decimal

def toRat (d : Decimal) : Rat :=
  mkRat (d.coefficient * Nat.pow 10 d.exponent.toNat) (Nat.pow 10 (-d.exponent).toNat)

/-! ## Selecting the digits -/

/-- The count of decimal digits of a natural number. -/
def digitCount (n : Nat) : Nat := (Nat.toDigits 10 n).length

/-- The least `k` with `v < 10 ^ k`, for positive `v`. -/
def scale (v : Rat) : Int :=
  if 1 ≤ v then digitCount (v.num.natAbs / v.den)
  else 1 - digitCount ((v.den - 1) / v.num.natAbs)

/-- Does this decimal read back to the float of bits `bits`? -/
def readsBack (bits : Nat) (d : Decimal) : Bool :=
  nearestBits d.toRat.num.natAbs d.toRat.den == bits

/-- The neighbours of `v` on the grid of multiples of `10 ^ e`, if one reads back: the nearer of
those that do, of equally near ones the even one. -/
def onGrid? (bits : Nat) (v : Rat) (e : Int) : Option Decimal :=
  let n := v.num.natAbs * Nat.pow 10 (-e).toNat
  let d := v.den * Nat.pow 10 e.toNat
  let below : Decimal := ⟨n / d, e⟩
  let above : Decimal := ⟨n / d + 1, e⟩
  match readsBack bits below, readsBack bits above with
  | true, true => some (if roundDiv n d = n / d then below else above)
  | true, false => some below
  | false, true => some above
  | false, false => none

/-- The exact value of a rational whose denominator is a power of two. -/
def exactly (v : Rat) : Decimal := ⟨v.num.natAbs * Nat.pow 5 v.den.log2, -(v.den.log2 : Int)⟩

/-- The shortest decimal that reads back to the positive finite float of these bits, whose exact
value is `v`. -/
def shortest (bits : Nat) (v : Rat) : Decimal :=
  ((List.range 17).findSome? fun (n : Nat) => onGrid? bits v (scale v - (n + 1))).getD (exactly v)

/-! ## Digits and point -/

/-- Drops the zeros at the end. -/
def dropTrailingZeros (ds : List Char) : List Char := (ds.reverse.dropWhile (· == '0')).reverse

/-- The digits of the coefficient, without zeros at the end. -/
def digits (d : Decimal) : List Char := dropTrailingZeros (Nat.toDigits 10 d.coefficient)

/-- How many of the digits stand before the point; negative for leading zeros after it. -/
def pointPlace (d : Decimal) : Int := digitCount d.coefficient + d.exponent

end Decimal

namespace Layout

/-- Digits with a point after the first `place` of them, filled up with zeros, and at least one
digit on either side of the point. -/
def withPoint (digits : List Char) (place : Int) : List Char :=
  if place ≤ 0 then
    '0' :: '.' :: (List.replicate (-place).toNat '0' ++ if digits.isEmpty then ['0'] else digits)
  else if digits.length ≤ place then
    digits ++ List.replicate (place.toNat - digits.length) '0' ++ ['.', '0']
  else
    digits.take place.toNat ++ '.' :: digits.drop place.toNat

/-- A power of ten with a sign and at least two digits. -/
def exponent (e : Int) : List Char :=
  let ds := Nat.toDigits 10 e.natAbs
  (if e < 0 then '-' else '+') :: (if ds.length < 2 then '0' :: ds else ds)

/-- Digits with a point after the first one, if more follow, and a power of ten. -/
def withExponent (digits : List Char) (place : Int) : List Char :=
  match digits with
  | [] => []
  | d :: ds => d :: (if ds.isEmpty then [] else '.' :: ds) ++ 'e' :: exponent (place - 1)

/-- Powers of ten from `10 ^ -4` up to but not including `10 ^ 16` need no exponent. -/
def isPlain (place : Int) : Bool := -4 ≤ place - 1 && place - 1 < 16

/-- Writes the parts of a float, its digits and point as `write` has them. -/
def render (write : List Char → Int → List Char) (x : Float) : List Char :=
  match Reading.ofFloat x with
  | .nan => "nan".toList
  | .infinite negative => (if negative then ['-'] else []) ++ "inf".toList
  | .finite negative m e =>
    let d : Decimal :=
      if m = 0 then ⟨0, 0⟩
      else .shortest (x.toBits.toNat % Nat.pow 2 63) (scaled m e)
    (if negative then ['-'] else []) ++ write d.digits d.pointPlace

/-- Always positional, as in source text. -/
def positional (x : Float) : List Char := render withPoint x

/-- Positional for middling numbers, with an exponent for the rest. -/
def compact (x : Float) : List Char :=
  render (fun digits place => if isPlain place then withPoint digits place
    else withExponent digits place) x

end Layout

end Metta.Number
