/-
# Metta.Eval.Operator -- arithmetic, comparison and logic

Operators evaluate all their arguments; each argument contributes any number of
values.  Arithmetic and the ordering comparisons work on floats, to which whole numbers
are rounded first.
-/
import Metta.Eval.Context

namespace Metta.Eval

set_option autoImplicit false

/-- What an atom is worth as a float. -/
def asFloat : Atom → FloatView
  | .literal l => l.value.asFloat
  | _ => .notNumber

/-! ## Arithmetic -/

inductive Arithmetic where
  | add | subtract | multiply | divide
deriving DecidableEq, Repr

/-- Why arithmetic has no result. -/
inductive ArithmeticFault where
  | overflow
  | notNumeric
  | divisionByZero
  /-- The operator is given too few numbers. -/
  | tooFew (op : Arithmetic)
deriving DecidableEq, Repr

def Arithmetic.name : Arithmetic → String
  | add => "+"
  | subtract => "-"
  | multiply => "*"
  | divide => "/"

def ArithmeticFault.message : ArithmeticFault → String
  | overflow => "Numeric overflow"
  | notNumeric => "Arithmetic requires numeric arguments"
  | divisionByZero => "Division by zero"
  | tooFew .divide => "/ requires at least 2 arguments"
  | tooFew op => op.name ++ " requires at least 1 argument"

/-- Atoms as floats.  A number too large for that is noticed before an atom that is no number. -/
def floats (as : List Atom) : Except ArithmeticFault (List Float) :=
  let views := as.map asFloat
  if views.any fun v => v matches .tooLarge then .error .overflow
  else
    let numbers := views.filterMap fun
      | .value x => some x
      | _ => none
    if numbers.length = as.length then .ok numbers else .error .notNumeric

namespace Arithmetic

/-- The result before its size is looked at. -/
def fold : Arithmetic → List Float → Except ArithmeticFault Float
  | add, xs => .ok (xs.foldl (· + ·) 0.0)
  | multiply, xs => .ok (xs.foldl (· * ·) 1.0)
  | subtract, [] => .error (.tooFew subtract)
  | subtract, [x] => .ok (-x)
  | subtract, x :: xs => .ok (xs.foldl (· - ·) x)
  | divide, x :: y :: xs =>
    if (y :: xs).any (· == 0.0) then .error .divisionByZero
    else .ok ((y :: xs).foldl (· / ·) x)
  | divide, _ => .error (.tooFew divide)

/-- The float that an operator makes of atoms. -/
def apply (op : Arithmetic) (as : List Atom) : Except ArithmeticFault Float := do
  let x ← op.fold (← floats as)
  if x.isFinite then .ok x else .error .overflow

end Arithmetic

def evalArithmetic (eval : Atom → Eval (List Atom)) (form : Atom) (op : Arithmetic)
    (args : List Atom) : Eval (List Atom) := do
  let values ← collect eval args
  match op.apply values with
  | .ok x => return [.ofScalar (.float x)]
  | .error e => fail e.message form

/-! ## Comparison -/

inductive Comparison where
  | equal | less | greater | atMost | atLeast
deriving DecidableEq, Repr

namespace Comparison

def name : Comparison → String
  | equal => "=="
  | less => "<"
  | greater => ">"
  | atMost => "<="
  | atLeast => ">="

/-- How two floats compare.  `atLeast` looks only at the right one, and holds unless that is a
NaN. -/
def holds : Comparison → Float → Float → Bool
  | equal, x, y => x == y
  | less, x, y => decide (x < y)
  | greater, x, y => decide (y < x)
  | atMost, x, y => decide (x ≤ y)
  | atLeast, _, y => decide (y ≤ y)

/-- How two atoms compare: numbers as floats; others only for equality, so that there may be no
answer.  Numbers too large for a float are an overflow. -/
def answer (c : Comparison) (left right : Atom) : Except ArithmeticFault (Option Bool) :=
  match asFloat left, asFloat right with
  | .tooLarge, _ => .error .overflow
  | _, .tooLarge => .error .overflow
  | .value x, .value y => .ok (some (c.holds x y))
  | _, _ => .ok (if c = equal then some (left.same right) else none)

/-- The answers for all pairs of a left and a right atom, the left one varying slowest. -/
def answers (c : Comparison) (lefts rights : List Atom) : Except ArithmeticFault (List Bool) := do
  let all ← (lefts.flatMap fun l => rights.map fun r => (l, r)).mapM fun p => c.answer p.1 p.2
  return all.filterMap id

end Comparison

def evalComparison (eval : Atom → Eval (List Atom)) (form : Atom) (c : Comparison) :
    (args : List Atom) → Eval (List Atom)
  | [left, right] => do
    let lefts ← eval left
    let rights ← eval right
    match c.answers lefts rights with
    | .error e => fail e.message form
    | .ok [] => fail "Comparison failed" form
    | .ok answers => return answers.map .ofBool
  | _ => arityFault c.name "2 arguments" form

/-! ## Logic -/

inductive Logic where
  | not | and | or
deriving DecidableEq, Repr

def Logic.name : Logic → String
  | not => "not"
  | and => "and"
  | or => "or"

/-- Negation answers for every value; conjunction and disjunction join the values of all arguments
and answer once. -/
def evalLogic (eval : Atom → Eval (List Atom)) (form : Atom) :
    Logic → (args : List Atom) → Eval (List Atom)
  | .not, [a] => return (← eval a).map fun v => .ofBool !v.isTruthy
  | .not, _ => arityFault Logic.not.name "1 argument" form
  | .and, args => return [.ofBool ((← collect eval args).all Atom.isTruthy)]
  | .or, args => return [.ofBool ((← collect eval args).any Atom.isTruthy)]

end Metta.Eval
