/-
# Metta.Eval.Form -- the special forms

A special form decides itself which of its arguments are evaluated, how often and in
which order.  Each is a function of its arguments; `form` is the whole form, the source
of the errors it answers with.
-/
import Metta.Eval.Context

namespace Metta.Eval

set_option autoImplicit false

inductive Form where
  | matching | binding | bindings | conditional | cases | quote | unquote | collapse | superpose
  | rule | addAtom | removeAtom | getAtoms
deriving DecidableEq, Repr

namespace Form

def all : List Form :=
  [matching, binding, bindings, conditional, cases, quote, unquote, collapse, superpose,
   rule, addAtom, removeAtom, getAtoms]

/-- The symbol at the head of the form. -/
def name : Form → String
  | matching => "match"
  | binding => "let"
  | bindings => "let*"
  | conditional => "if"
  | cases => "case"
  | quote => "quote"
  | unquote => "unquote"
  | collapse => "collapse"
  | superpose => "superpose"
  | rule => "="
  | addAtom => "add-atom"
  | removeAtom => "remove-atom"
  | getAtoms => "get-atoms"

def ofName? (name : String) : Option Form := all.find? (·.name == name)

/-- The arguments that the form asks for. -/
def requirement : Form → String
  | matching => "3 arguments: space, pattern, template"
  | binding => "3 arguments: variable, value, body"
  | bindings => "2 arguments: bindings, body"
  | conditional => "3 arguments: condition, then, else"
  | cases => "a scrutinee and at least one clause"
  | quote | unquote | collapse | superpose => "1 argument"
  | rule => "2 arguments: pattern, template"
  | addAtom | removeAtom => "2 arguments: space, atom"
  | getAtoms => "at most 1 argument: space"

end Form

/-! ## Bindings -/

/-- One level of a chain of bindings: each branch once for every value of `value` in it. -/
def extendBranches (eval : Atom → Eval (List Atom)) (name : String) (value : Atom) :
    List Bindings → Eval (List Bindings)
  | [] => return []
  | b :: bs => do
    let values ← eval (b.apply value)
    let others ← extendBranches eval name value bs
    return values.map (b.set name) ++ others

/-- Binds the pairs one after the other, breadth first, and evaluates the body in every branch.  A
pair that is malformed is noticed only once those before it have been evaluated. -/
def bindPairs (eval : Atom → Eval (List Atom)) (body : Atom) :
    List Atom → List Bindings → Eval (List Atom)
  | [], branches => return orEmpty (← collect (fun b => eval (b.apply body)) branches)
  | .expr [.var name _, value] :: pairs, branches => do
    bindPairs eval body pairs (← extendBranches eval name value branches)
  | pair :: _, _ => fail "let* binding must be a (variable value) pair" pair

/-! ## Clauses -/

/-- The pattern and the body of a clause. -/
def clause? : Atom → Option (Atom × Atom)
  | .expr [pattern, body] => some (pattern, body)
  | _ => none

/-- The results of the first clause whose pattern matches, none if no pattern does. -/
def firstClause (eval : Atom → Eval (List Atom)) (value : Atom) :
    List (Atom × Atom) → Eval (List Atom)
  | [] => return []
  | (pattern, body) :: clauses =>
    match value.matchPattern pattern with
    | some b => eval (b.apply body)
    | none => firstClause eval value clauses

def evalCases (eval : Atom → Eval (List Atom)) (scrutinee : Atom) (clauses : List Atom) :
    Eval (List Atom) := do
  match clauses.find? fun c => (clause? c).isNone with
  | some malformed => fail "case clause must be (pattern body)" malformed
  | none =>
    let values ← eval scrutinee
    return orEmpty (← collect (fun v => firstClause eval v (clauses.filterMap clause?)) values)

/-! ## All forms -/

/-- Evaluates a special form with the arguments `args`. -/
def evalForm (ctx : Context) (eval : Atom → Eval (List Atom)) (form : Atom) :
    Form → (args : List Atom) → Eval (List Atom)
  | .matching, [ref, pattern, template] => do
    match ← ctx.resolve ref with
    | none => unknownSpace ref form
    | some target => return orEmpty (((← space target).query pattern).map (·.apply template))
  | .binding, [.var name _, value, body] => do
    let values ← eval value
    let bound (v : Atom) : Bindings := Bindings.empty.set name v
    return orEmpty (← collect (fun v => eval ((bound v).apply body)) values)
  | .binding, [_, _, _] => fail "let first argument must be a variable" form
  | .bindings, [.expr pairs, body] => bindPairs eval body pairs [.empty]
  | .bindings, [_, _] => fail "let* bindings must be an expression" form
  | .conditional, [condition, yes, no] => do
    let conditions ← eval condition
    return orEmpty (← collect (fun c => eval (if c.isTruthy then yes else no)) conditions)
  | .cases, scrutinee :: c :: cs => evalCases eval scrutinee (c :: cs)
  | .quote, [a] => return [a]
  | .unquote, [a] => do collect eval (← eval a)
  | .collapse, [a] => return [.expr (← eval a)]
  | .superpose, [.expr alternatives] => collect eval alternatives
  | .superpose, [_] => return [.empty]
  | .rule, [pattern, template] => do
    let s ← space ctx.self
    addRule ctx.self ⟨"user-rule-" ++ toString s.rules.length, pattern, template, none, 0⟩
    return [.empty]
  | .addAtom, [ref, a] => do
    match ← ctx.resolve ref with
    | none => unknownSpace ref form
    | some target =>
      change target fun s => (s.add a).2
      return [.empty]
  | .removeAtom, [ref, a] => do
    match ← ctx.resolve ref with
    | none => unknownSpace ref form
    | some target =>
      change target fun s => (s.remove a).2
      return [.empty]
  | .getAtoms, [] => return [.expr (← space ctx.self).atoms]
  | .getAtoms, [ref] => do
    match ← ctx.resolve ref with
    | none => unknownSpace ref form
    | some target => return [.expr (← space target).atoms]
  | f, _ => arityFault f.name f.requirement form

end Metta.Eval
