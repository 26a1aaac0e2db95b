/-
# Metta.Number.Sum -- sums of floats

Every addition of floats rounds, so the order of the additions shows in the sum.  Less
than eight floats are added from left to right.  More of them are spread over eight
lanes, each of which is added on its own, and above 128 floats the list is halved first,
so that no single partial sum takes all the rounding.  The sum of a short list is a plain
fold (`sum_of_length_lt`).
-/

namespace Metta.Number

set_option autoImplicit false

/-- The sum of each two neighbours. -/
def addPairs : List Float → List Float
  | x :: y :: xs => (x + y) :: addPairs xs
  | xs => xs

/-- The floats added to a start, from left to right. -/
def addTo (start : Float) (xs : List Float) : Float := xs.foldl (· + ·) start

/-- Adds floats in turn to eight lanes, then the lanes as pairs of pairs, and last the floats that
are too few for a turn. -/
def addLanes (lanes xs : List Float) : Float :=
  if 8 ≤ xs.length then addLanes (List.zipWith (· + ·) lanes (xs.take 8)) (xs.drop 8)
  else addTo (addTo 0.0 (addPairs (addPairs (addPairs lanes)))) xs
termination_by xs.length
decreasing_by simp only [List.length_drop]; omega

/-- A first half, whose length is a multiple of eight, and the rest. -/
def halve (xs : List Float) : List Float × List Float := xs.splitAt (xs.length / 16 * 8)

/-- The sum of all floats of a list, zero for none. -/
def sum (xs : List Float) : Float :=
  if xs.length < 8 then addTo 0.0 xs
  else if xs.length ≤ 128 then addLanes (xs.take 8) (xs.drop 8)
  else sum (halve xs).1 + sum (halve xs).2
termination_by xs.length
decreasing_by
  all_goals
    simp only [halve, List.splitAt_eq, List.length_take, List.length_drop]
    omega

theorem sum_of_length_lt {xs : List Float} (h : xs.length < 8) : sum xs = addTo 0.0 xs := by
  rw [sum, if_pos h]

end Metta.Number
