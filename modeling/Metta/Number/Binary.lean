/-
# Metta.Number.Binary -- floats as exact numbers

A finite float is `mantissa * 2 ^ exponent` with a sign.  `Reading.ofFloat` takes a
float apart, `pointOf?` gives the point of the number line it stands for, and
`nearest?` goes back: the float nearest to a rational, of two equally near ones the
one with the even mantissa, and none beyond the largest finite float.

Rationals are kept in lowest terms, so two texts or two numbers that denote one
rational round to one float whatever their digits (`nearest?` sees only the
rational).
-/

namespace Metta.Number

set_option autoImplicit false

/-! ## Taking a float apart -/

/-- The parts of a float. -/
inductive Reading where
  | nan
  | infinite (negative : Bool)
  | finite (negative : Bool) (mantissa : Nat) (exponent : Int)
deriving DecidableEq, Repr

/-- One sign bit, eleven exponent bits, fifty-two fraction bits. -/
def Reading.ofBits (bits : Nat) : Reading :=
  let negative := bits / Nat.pow 2 63 % 2 == 1
  let biased : Nat := bits / Nat.pow 2 52 % Nat.pow 2 11
  let fraction := bits % Nat.pow 2 52
  if biased = 2047 then (if fraction = 0 then .infinite negative else .nan)
  else if biased = 0 then .finite negative fraction (-1074)
  else .finite negative (Nat.pow 2 52 + fraction) ((biased : Int) - 1075)

def Reading.ofFloat (x : Float) : Reading := .ofBits x.toBits.toNat

/-- The rational `m * 2 ^ e`. -/
def scaled (m : Nat) (e : Int) : Rat := mkRat (m * Nat.pow 2 e.toNat) (Nat.pow 2 (-e).toNat)

/-- A point of the number line with its two ends. -/
inductive Point where
  | finite (q : Rat)
  | infinite (negative : Bool)
deriving DecidableEq

/-- Zero of either sign is the same point. -/
def Reading.point? : Reading → Option Point
  | .nan => none
  | .infinite negative => some (.infinite negative)
  | .finite negative m e => some (.finite (if negative then -scaled m e else scaled m e))

/-- The exact value of a float; a NaN has none. -/
def pointOf? (x : Float) : Option Point := (Reading.ofFloat x).point?

/-! ## Rounding -/

/-- The quotient `n / d` rounded to a whole number, a tie to the even one. -/
def roundDiv (n d : Nat) : Nat :=
  let q := n / d
  let r := n % d
  if 2 * r < d then q
  else if d < 2 * r then q + 1
  else if q % 2 = 0 then q else q + 1

/-- The rounded quotient is off by at most one half. -/
theorem roundDiv_within {n d : Nat} (pos : 0 < d) :
    2 * n ≤ 2 * (d * roundDiv n d) + d ∧ 2 * (d * roundDiv n d) ≤ 2 * n + d := by
  have parts := Nat.div_add_mod n d
  have small := Nat.mod_lt n pos
  simp only [roundDiv]
  split
  · omega
  · split
    · rw [Nat.mul_add]
      omega
    · split
      · omega
      · rw [Nat.mul_add]
        omega

/-- The exponent of the greatest power of two not above `n / d`, for positive `n` and `d`. -/
def binade (n d : Nat) : Int :=
  let e : Int := n.log2 - d.log2
  if n * Nat.pow 2 (-e).toNat < d * Nat.pow 2 e.toNat then e - 1 else e

/-- The exponent of the last bit that a float near `n / d` holds. -/
def lastPlace (n d : Nat) : Int := max (binade n d - 52) (-1074)

/-- The bits of the float nearest to `n / d`, sign apart, were there no largest float. A carry
out of the fraction runs on into the exponent, as it should. -/
def nearestBits (n d : Nat) : Nat :=
  if n = 0 then 0
  else
    let e := lastPlace n d
    (e + 1074).toNat * Nat.pow 2 52 + roundDiv (n * Nat.pow 2 (-e).toNat) (d * Nat.pow 2 e.toNat)

/-- The bits of positive infinity, the first that belong to no finite float. -/
def infinityBits : Nat := 2047 * Nat.pow 2 52

/-- The float of the given sign nearest to the absolute value of a rational; none if that lies
beyond the largest finite float. -/
def nearestSigned? (negative : Bool) (q : Rat) : Option Float :=
  let bits := nearestBits q.num.natAbs q.den
  if bits < infinityBits then
    some (Float.ofBits (UInt64.ofNat (if negative then Nat.pow 2 63 + bits else bits)))
  else none

/-- The float nearest to a rational. -/
def nearest? (q : Rat) : Option Float := nearestSigned? (q.num < 0) q

/-- The float nearest to a whole number. -/
def nearestInt? (n : Int) : Option Float := nearest? n

/-! ## Narrower floats -/

/-- A binary format narrower than a float: how many bits follow the leading one, and the exponent
of the last bit of its least numbers. -/
structure Precision where
  fractionBits : Nat
  leastPlace : Int
  /-- The exponent of the first power of two that is too large. -/
  overflow : Nat

namespace Precision

def single : Precision := ⟨23, -149, 128⟩

def half : Precision := ⟨10, -24, 16⟩

/-- The value of the narrower format nearest to the positive rational `n / d`; none if too large. -/
def nearest? (p : Precision) (n d : Nat) : Option Rat :=
  let e := max (binade n d - p.fractionBits) p.leastPlace
  let q := scaled (roundDiv (n * Nat.pow 2 (-e).toNat) (d * Nat.pow 2 e.toNat)) e
  if q < scaled 1 p.overflow then some q else none

/-- Rounds a float to the narrower format and widens it again. -/
def narrow (p : Precision) (x : Float) : Float :=
  match Reading.ofFloat x with
  | .nan | .infinite _ => x
  | .finite negative m e =>
    let q := scaled m e
    if q = 0 then x
    else
      match (p.nearest? q.num.natAbs q.den).bind (nearestSigned? negative) with
      | some y => y
      | none => if negative then -1.0 / 0.0 else 1.0 / 0.0

end Precision

end Metta.Number
