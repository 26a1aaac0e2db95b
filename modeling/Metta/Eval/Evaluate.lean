/-
# Metta.Eval.Evaluate -- the evaluator

Evaluating an atom gives any number of results.  A variable stands for the first atom
of the space; other leaves and the expression without children are their own result.
An expression headed by the symbol of a special form or an operator is evaluated by
that; one headed by any other symbol is reduced by the rules of the space, and what
came of it is evaluated again; where the head is no symbol it is evaluated first and
every result takes its place.

`step` is one level of that, over a function for the levels below.  `evaluateWith` counts
the levels that are left.  What happens at the limits is a parameter (`Handling`): in
`evaluate` a reduction stops quietly when its budget is used up, and the answer where no
level is left is an error atom.
-/
import Metta.Eval.Form
import Metta.Eval.Operator

namespace Metta.Eval

set_option autoImplicit false

/-- What the symbol at the head of an expression stands for. -/
inductive Head where
  | form (f : Form)
  | arithmetic (op : Arithmetic)
  | comparison (c : Comparison)
  | logic (l : Logic)
  /-- Nothing built in. -/
  | plain

def Head.ofName (name : String) : Head :=
  match Form.ofName? name with
  | some f => .form f
  | none =>
    match name with
    | "+" => .arithmetic .add
    | "-" => .arithmetic .subtract
    | "*" => .arithmetic .multiply
    | "/" => .arithmetic .divide
    | "==" => .comparison .equal
    | "<" => .comparison .less
    | ">" => .comparison .greater
    | "<=" => .comparison .atMost
    | ">=" => .comparison .atLeast
    | "and" => .logic .and
    | "or" => .logic .or
    | "not" => .logic .not
    | _ => .plain

/-- Reduces an atom by the rules of the space and evaluates what came of it, unless it is equal to
what it was. -/
def reduceAndGoOn (ctx : Context) (eval : Atom → Eval (List Atom)) (a : Atom) :
    Eval (List Atom) := do
  let s ← space ctx.self
  let reduced ← ctx.reduce s a
  if reduced.same a then return [a]
  ctx.trace fun _ => do return "rewrote " ++ (← a.written) ++ " -> " ++ (← reduced.written)
  eval reduced

/-- Puts a result of the head in the place of the head. -/
def applyHead (ctx : Context) (eval : Atom → Eval (List Atom)) (head : Atom) (args : List Atom)
    (value : Atom) : Eval (List Atom) :=
  if value.same head then reduceAndGoOn ctx eval (.expr (value :: args))
  else eval (.expr (value :: args))

/-- One level of evaluation. -/
def step (ctx : Context) (eval : Atom → Eval (List Atom)) (a : Atom) : Eval (List Atom) := do
  ctx.trace fun _ => do return "eval " ++ (← a.written)
  match a with
  | .var _ _ => return [((← space ctx.self).atoms.head?).getD a]
  | .expr (.symbol name :: args) =>
    match Head.ofName name with
    | .form f => evalForm ctx eval a f args
    | .arithmetic op => evalArithmetic eval a op args
    | .comparison c => evalComparison eval a c args
    | .logic l => evalLogic eval a l args
    | .plain => reduceAndGoOn ctx eval a
  | .expr (head :: args) => do collect (applyHead ctx eval head args) (← eval head)
  | _ => return [a]

/-- What evaluation does at its limits. -/
structure Handling where
  /-- Reduces an atom by the rules of a space. -/
  reduce : Space → Atom → Eval Atom
  /-- Answers where no level of evaluation is left. -/
  exhausted : Atom → Eval (List Atom)

/-- All results of an atom evaluated against the space `self`, at a depth below which `levels`
levels are left, with the limits handled in the given way.  The levels are all that limits the
depth: a machine whose stack is exhausted before them also answers with the depth fault, and that
is left out here. -/
def evaluateWith (handling : Handling) (settings : Settings) (self : String) :
    (levels depth : Nat) → Atom → Eval (List Atom)
  | 0, _, a => handling.exhausted a
  | levels + 1, depth, a =>
    step ⟨settings, self, depth, handling.reduce⟩
      (evaluateWith handling settings self levels (depth + 1)) a

/-- The answer where no level of evaluation is left. -/
def depthFault (settings : Settings) (a : Atom) : Atom :=
  .error ("maximum evaluation depth exceeded: " ++ toString settings.maxDepth) (some a)

/-- Reductions stop when their budget is used up, and depth faults are results. -/
def Handling.quiet (settings : Settings) : Handling where
  reduce s a := guarded (s.reduce settings.maxSteps a)
  exhausted a := return [depthFault settings a]

/-- All results of an atom evaluated against the space `self`, at a depth below which `levels`
levels are left. -/
def evaluate (settings : Settings) (self : String) :
    (levels depth : Nat) → Atom → Eval (List Atom) :=
  evaluateWith (.quiet settings) settings self

/-- All results of an atom evaluated against the space `self`. -/
def interpret (settings : Settings) (self : String) (a : Atom) : Eval (List Atom) :=
  evaluate settings self settings.levels 0 a

end Metta.Eval
