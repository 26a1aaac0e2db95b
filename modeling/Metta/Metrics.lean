/-
# Metta.Metrics -- what runs cost and give

A tracker keeps one entry per run, in order, and forgets the oldest ones so that it
holds a window of bounded length.  A summary has the mean, the population standard
deviation and the maximum of the times, the mean number of results, and the number of
errors among the results.
-/
import Metta.Atom
import Metta.Json
import Metta.Number.Sum

namespace Metta

set_option autoImplicit false

/-- What is kept of one run.  Times are those of the caller's clock. -/
structure RunRecord where
  timestamp : Float
  codeLength : Nat
  results : Nat
  errors : Nat
  elapsed : Float

structure Metrics where
  maxRecords : Int
  records : List RunRecord

namespace Metrics

/-- The greatest length of a window, unless another is asked for. -/
def defaultWindow : Int := 1000

def empty (maxRecords : Int) : Metrics := ⟨maxRecords, []⟩

def isError : Atom → Bool
  | .error _ _ => true
  | _ => false

/-- The entry of a run. -/
def entry (timestamp : Float) (code : String) (results : List Atom) (elapsed : Float) : RunRecord :=
  ⟨timestamp, code.length, results.length, results.countP isError, elapsed⟩

/-- The window after an entry was added to it.  A bound above zero leaves so many of the newest
entries; the bound zero leaves all, and a bound below zero drops so many of the oldest. -/
def window (maxRecords : Int) (rs : List RunRecord) : List RunRecord :=
  if rs.length ≤ maxRecords then rs
  else if 0 < maxRecords then rs.drop (rs.length - maxRecords.toNat)
  else rs.drop (-maxRecords).toNat

def record (m : Metrics) (r : RunRecord) : Metrics :=
  { m with records := window m.maxRecords (m.records ++ [r]) }

def reset (m : Metrics) : Metrics := { m with records := [] }

/-! ## Summary -/

structure Summary where
  runs : Nat
  meanElapsed : Float
  stdElapsed : Float
  maxElapsed : Float
  meanResults : Float
  totalErrors : Nat

def mean (xs : List Float) : Float := Number.sum xs / Float.ofNat xs.length

/-- The square root of the mean squared distance from the mean. -/
def deviation (xs : List Float) : Float :=
  let m := mean xs
  (mean (xs.map fun x => (x - m) * (x - m))).sqrt

/-- The greater of two floats; a NaN counts as greater than all else.  Of two equal ones, which may
be zeros of either sign, the second. -/
def greater (x y : Float) : Float := if x.isNaN || y < x then x else y

/-- The greatest float of a list, of equal ones the last; zero for none. -/
def maximum : List Float → Float
  | [] => 0.0
  | x :: xs => xs.foldl greater x

def summary (m : Metrics) : Summary :=
  if m.records.isEmpty then ⟨0, 0.0, 0.0, 0.0, 0.0, 0⟩
  else
    let elapsed := m.records.map RunRecord.elapsed
    { runs := m.records.length
      meanElapsed := mean elapsed
      stdElapsed := deviation elapsed
      maxElapsed := maximum elapsed
      meanResults := mean (m.records.map fun r => Float.ofNat r.results)
      totalErrors := m.records.foldr (fun r n => r.errors + n) 0 }

/-! ## Reports -/

def Summary.toJson (s : Summary) : Json :=
  .object [
    ("runs", .int s.runs),
    ("mean_elapsed", .float s.meanElapsed),
    ("std_elapsed", .float s.stdElapsed),
    ("max_elapsed", .float s.maxElapsed),
    ("mean_results", .float s.meanResults),
    ("total_errors", .int s.totalErrors)]

end Metrics

def RunRecord.toJson (r : RunRecord) : Json :=
  .object [
    ("timestamp", .float r.timestamp),
    ("code_length", .int r.codeLength),
    ("num_results", .int r.results),
    ("num_errors", .int r.errors),
    ("elapsed", .float r.elapsed)]

def Metrics.toJson (m : Metrics) : Json :=
  .object [
    ("summary", m.summary.toJson),
    ("records", .list (m.records.map RunRecord.toJson))]

end Metta
