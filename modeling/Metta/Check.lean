/-
# Metta.Check -- what can be told of a program without running it

Four checks look at one atom of a program: the number of arguments of forms and
operators, the variables of rule templates, the nesting depth, and the number of nodes.
Each lists the problems it finds in the order of the text.
-/
import Metta.Render

namespace Metta

set_option autoImplicit false

/-- A problem found in a program. -/
inductive Problem where
  /-- A quotation of `given` atoms. -/
  | quoteArity (given : Nat)
  /-- A form that asks for `expected` arguments and is given `given`. -/
  | formArity (head : String) (expected given : Nat) (form : Atom)
  | caseArity (form : Atom)
  | divisionArity (form : Atom)
  /-- A variable of the template that the pattern does not bind. -/
  | unboundVariable (name : String) (rule : Atom)
  | tooDeep (depth : Nat) (limit : Int)
  | tooLarge (nodes : Nat) (limit : Int)

namespace Problem

def message : Problem → String
  | quoteArity given => "'quote' expects 1 argument, got " ++ toString given
  | formArity head expected given form =>
    "'" ++ head ++ "' expects " ++ toString expected ++ " arguments, got " ++ toString given ++
      ": " ++ form.render
  | caseArity form => "'case' expects a scrutinee and at least one clause: " ++ form.render
  | divisionArity form => "'/' expects at least 2 arguments: " ++ form.render
  | unboundVariable name rule =>
    "Unbound variable $" ++ name ++ " in rule template: " ++ rule.render
  | tooDeep depth limit =>
    "Atom depth " ++ toString depth ++ " exceeds maximum allowed depth " ++ toString limit
  | tooLarge nodes limit =>
    "Atom has " ++ toString nodes ++ " nodes, exceeds maximum allowed " ++ toString limit

/-- The atom that the message shows. -/
def shown? : Problem → Option Atom
  | formArity _ _ _ form | caseArity form | divisionArity form => some form
  | unboundVariable _ rule => some rule
  | quoteArity _ | tooDeep _ _ | tooLarge _ _ => none

/-- The message, where the atom that it shows can be written. -/
def written (p : Problem) : Except Unwritable String := Atom.writing p.shown?.toList p.message

end Problem

namespace Check

/-! ## Numbers of arguments -/

/-- The number of arguments of the forms and operators for which it is fixed, quotations apart. -/
def fixedArity? : String → Option Nat
  | "match" => some 3
  | "let" => some 3
  | "let*" => some 2
  | "if" => some 3
  | "unquote" => some 1
  | "collapse" => some 1
  | "superpose" => some 1
  | "=" => some 2
  | "add-atom" => some 2
  | "remove-atom" => some 2
  | "not" => some 1
  | "==" => some 2
  | "<" => some 2
  | ">" => some 2
  | "<=" => some 2
  | ">=" => some 2
  | _ => none

/-- What is wrong with the number of arguments of one form. -/
def headProblems (head : String) (args : List Atom) : List Problem :=
  let form : Atom := .expr (.symbol head :: args)
  match fixedArity? head with
  | some expected =>
    if args.length = expected then [] else [.formArity head expected args.length form]
  | none =>
    if head = "case" && args.length < 2 then [.caseArity form]
    else if head = "/" && args.length < 2 then [.divisionArity form]
    else []

mutual

/-- Numbers of arguments, of the atom and all atoms below it.  What is quoted is data. -/
def arity : Atom → List Problem
  | .expr (.symbol "quote" :: args) =>
    if args.length = 1 then [] else [.quoteArity args.length]
  | .expr (.symbol head :: args) => headProblems head args ++ arityAll args
  | .expr cs => arityAll cs
  | _ => []

def arityAll : List Atom → List Problem
  | [] => []
  | c :: cs => arity c ++ arityAll cs

end

/-! ## Variables of rules -/

/-- Names in ascending order, each once. -/
def sorted (names : List String) : List String := (names.mergeSort fun a b => decide (a ≤ b)).eraseDups

/-- The variables that occur in the template and not in the pattern. -/
def unboundVariables (pattern template : Atom) : List String :=
  sorted (template.varNames.filter fun name => !pattern.varNames.contains name)

/-- Templates of the rules in an atom whose variables the patterns do not bind. -/
def ruleVariables (a : Atom) : List Problem :=
  a.subterms.flatMap fun node =>
    match node with
    | .expr [.symbol "=", pattern, template] =>
      (unboundVariables pattern template).map (.unboundVariable · node)
    | _ => []

/-! ## Size -/

def depth (limit : Int) (a : Atom) : List Problem :=
  if limit < a.depth then [.tooDeep a.depth limit] else []

def nodeCount (limit : Int) (a : Atom) : List Problem :=
  let nodes := a.walk.length
  if limit < nodes then [.tooLarge nodes limit] else []

/-! ## Programs -/

/-- What a program may be at most. -/
structure Limits where
  maxDepth : Int := 32
  maxNodes : Int := 10000

/-- The four checks of one atom, in their order. -/
def checks (limits : Limits) (a : Atom) : List (List Problem) :=
  [arity a, ruleVariables a, depth limits.maxDepth a, nodeCount limits.maxNodes a]

/-- All problems of a program. -/
def program (limits : Limits) (as : List Atom) : List Problem :=
  as.flatMap fun a => (checks limits a).flatten

end Check

end Metta
