/-
# Metta.Proofs.Lists -- the list operations of the prelude

In the prelude `(cons x xs)` is rewritten to the dotted form `(x . xs)`, which `head`, `tail`
and `nil?` take apart.  A call, a list and a dotted form are all expressions, and the rules
do not tell them apart.  The operations look at their argument before it is rewritten, so a
list of the dot in front is taken for a dotted form that begins with `cons`; and a dotted form
that begins with `cons` is taken for a list of the dot in front.  Where it says `(eq . .)` it
is contracted to `True`, and no list is left.

For all other first elements the three operations obey the laws of lists, and `tail` and
`nil?` do for these two as well, since they do not look at the first element
(`Prelude.reduce_list`).  Which rules can apply to an expression is told from the symbol at its
head and the number of its arguments (`Rule.contract_of_shape`).
-/
import Metta.Proofs.Loading
import Metta.Proofs.NormalForm
import Metta.Proofs.GroundData

namespace Metta

set_option autoImplicit false

namespace Atom

variable {a : Atom} {name : String}

theorem same_symbol : a.same (.symbol name) = true ↔ a = .symbol name := by
  cases a <;> simp [same]

theorem matchInto_symbol (b : Bindings) (data : Atom) (name : String) :
    data.matchInto b (.symbol name) = if data.same (.symbol name) then some b else none :=
  matchInto_leaf b data (by rintro ⟨⟩) (by rintro ⟨⟩)

end Atom

/-! ## Rules that look at a head and a number of arguments -/

namespace Rule

variable {r : Rule} {rules : List Rule} {name : String} {args : List Atom}

/-- The symbol at the head of the pattern, and the number of its arguments. -/
def shape? (r : Rule) : Option (String × Nat) :=
  match r.pattern with
  | .expr (.symbol name :: ps) => some (name, ps.length)
  | _ => none

theorem pattern_of_shape? {n : Nat} (shape : r.shape? = some (name, n)) :
    ∃ ps, r.pattern = .expr (.symbol name :: ps) ∧ ps.length = n := by
  unfold shape? at shape
  split at shape
  · rename_i found
    cases shape
    exact ⟨_, found, rfl⟩
  · cases shape

/-- A rule applies only to expressions of the shape of its pattern. -/
theorem apply_of_shape? {n : Nat} (shape : r.shape? = some (name, n)) {a : Atom}
    (other : ∀ args, args.length = n → a ≠ .expr (.symbol name :: args)) :
    r.apply a = .ok none := by
  obtain ⟨ps, pattern, rfl⟩ := pattern_of_shape? shape
  have unmatched : a.matchPattern r.pattern = none := by
    rw [Atom.matchPattern, pattern, Atom.matchInto_expr]
    split
    · rename_i cs
      by_cases lengths : cs.length = (Atom.symbol name :: ps).length
      · obtain ⟨c, cs, rfl⟩ := List.exists_cons_of_length_eq_add_one lengths
        have different : c ≠ .symbol name := by
          rintro rfl
          exact other cs (by simpa using lengths) rfl
        rw [Atom.matchAllInto, Atom.matchInto_symbol, if_neg (by rwa [Atom.same_symbol])]
        rfl
      · exact Atom.matchAllInto_of_lengths lengths
    · rfl
  rw [apply, unmatched]

/-- Only the rules of its shape matter for an expression that is headed by a symbol. -/
theorem contract_of_shape (shaped : ∀ r ∈ rules, r.shape?.isSome) :
    contract rules (.expr (.symbol name :: args)) =
      contract (rules.filter (·.shape? == some (name, args.length)))
        (.expr (.symbol name :: args)) := by
  induction rules with
  | nil => rfl
  | cons r rs ih =>
      obtain ⟨first, others⟩ := List.forall_mem_cons.mp shaped
      obtain ⟨⟨h, n⟩, shape⟩ := Option.isSome_iff_exists.mp first
      by_cases fits : r.shape? = some (name, args.length)
      · rw [List.filter_cons_of_pos (by simpa using fits), contract, contract, ih others]
      · have refused : r.apply (.expr (.symbol name :: args)) = .ok none := by
          refine apply_of_shape? shape ?_
          rintro args' rfl same
          injection same with same
          injection same with head tail
          injection head with head
          exact fits (by rw [shape, head, tail])
        rw [List.filter_cons_of_neg (by simpa using fits), contract, refused, ← ih others]
        rfl

/-- No rule applies to an atom that is not an expression headed by a symbol. -/
theorem contract_of_not_headed (shaped : ∀ r ∈ rules, r.shape?.isSome) {a : Atom}
    (other : ∀ name args, a ≠ .expr (.symbol name :: args)) : contract rules a = .ok none := by
  refine contract_eq_none_iff.mpr fun r member => ?_
  obtain ⟨⟨h, n⟩, shape⟩ := Option.isSome_iff_exists.mp (shaped r member)
  exact apply_of_shape? shape fun args _ => other h args

theorem contract_cons_of_none {q : Rule} {a : Atom} (refused : q.apply a = .ok none) :
    contract (q :: rules) a = contract rules a := by
  rw [contract, refused]
  rfl

theorem contract_singleton (r : Rule) (a : Atom) : contract [r] a = r.apply a := by
  rcases applied : r.apply a with e | _ | a' <;> simp [contract, applied]

/-- A rule without a guard does what its pattern and its template say. -/
theorem apply_of_unguarded (unguarded : r.guard = none) (a : Atom) :
    r.apply a = .ok ((a.matchPattern r.pattern).map (·.apply r.template)) := by
  cases matched : a.matchPattern r.pattern <;> simp [apply, matched, admits, unguarded]

end Rule

namespace Prelude

open Reduce

variable {a m x xs : Atom}

theorem shaped : ∀ r ∈ rules, r.shape?.isSome := by
  simp [rules, entries, rule, Rule.shape?, call]

/-! ## Matches -/

/-- What the variables of a pair are bound to. -/
def bound (x xs : Atom) : Bindings := (Bindings.empty.set "x" x).set "xs" xs

theorem bind_x (x : Atom) : Bindings.empty.bind "x" x = some (Bindings.empty.set "x" x) := rfl

theorem bind_xs (x xs : Atom) :
    (Bindings.empty.set "x" x).bind "xs" xs = some (bound x xs) := rfl

/-- Three atoms match a pair if the one in the middle is the dot. -/
theorem matchInto_pair (x m xs : Atom) :
    (Atom.expr [x, m, xs]).matchInto .empty dotted =
      if m.same (.symbol ".") then some (bound x xs) else none := by
  rw [dotted, pair, Atom.matchInto_expr]
  simp only [Atom.matchAllInto, Atom.matchInto_var, Atom.matchInto_symbol, bind_x,
    Option.bind_some]
  split
  · simp only [Option.bind_some, bind_xs]
  · rfl

/-- A call matches the call of the same symbol argument by argument. -/
theorem matchPattern_call (name : String) (args ps : List Atom) :
    (call name args).matchPattern (call name ps) = Atom.matchAllInto .empty args ps := by
  rw [Atom.matchPattern, call, call, Atom.matchInto_expr]
  simp only [Atom.matchAllInto, Atom.matchInto_symbol, Atom.same, beq_self_eq_true, if_true,
    Option.bind_some]

/-! ## Contractions -/

theorem contract_call (name : String) (args : List Atom) :
    Rule.contract rules (call name args) =
      Rule.contract (rules.filter (·.shape? == some (name, args.length))) (call name args) :=
  Rule.contract_of_shape shaped

theorem apply_rule (name : String) (ps : List Atom) (template : Atom) (args : List Atom) :
    (rule name ps template).apply (call name args) =
      .ok ((Atom.matchAllInto .empty args ps).map (·.apply template)) := by
  rw [Rule.apply_of_unguarded rfl, rule, matchPattern_call]

theorem contract_rule (name : String) (ps : List Atom) (template : Atom) (args : List Atom) :
    Rule.contract [rule name ps template] (call name args) =
      .ok ((Atom.matchAllInto .empty args ps).map (·.apply template)) := by
  rw [Rule.contract_singleton, apply_rule]

/-- The three operations that take a list apart. -/
inductive Operation where
  | head | tail | isNil

namespace Operation

def name : Operation → String
  | head => "head"
  | tail => "tail"
  | isNil => "nil?"

/-- The operation applied to an atom. -/
def on (f : Operation) (a : Atom) : Atom := call f.name [a]

/-- What the operation makes of a list of a first element and the others. -/
def value (x xs : Atom) : Operation → Atom
  | head => x
  | tail => xs
  | isNil => .symbol "False"

end Operation

theorem matchAllInto_nil (nonempty : a ≠ .expr []) :
    Atom.matchAllInto .empty [a] [.expr []] = none := by
  cases a with
  | expr cs =>
      cases cs with
      | nil => exact absurd rfl nonempty
      | cons => simp [Atom.matchAllInto, Atom.matchInto_expr]
  | _ => simp [Atom.matchAllInto, Atom.matchInto_expr]

/-- An operation looks whether its argument is a list that is not empty. -/
theorem contract_on (f : Operation) (nonempty : a ≠ .expr []) :
    Rule.contract rules (f.on a) =
      .ok ((a.matchInto .empty dotted).map
        (·.apply (f.value (.var "x" none) (.var "xs" none)))) := by
  have single : Atom.matchAllInto .empty [a] [dotted] = a.matchInto .empty dotted := by
    simp [Atom.matchAllInto]
  rw [Operation.on, contract_call, ← single]
  cases f with
  | head => exact contract_rule "head" [dotted] (.var "x" none) [a]
  | tail => exact contract_rule "tail" [dotted] (.var "xs" none) [a]
  | isNil =>
      have refused : (rule "nil?" [.expr []] (.symbol "True")).apply (call "nil?" [a]) =
          .ok none := by
        rw [apply_rule, matchAllInto_nil nonempty]
        rfl
      refine Eq.trans ?_ (contract_rule "nil?" [dotted] (.symbol "False") [a])
      exact Rule.contract_cons_of_none refused

theorem contract_on_pair (f : Operation) (x xs : Atom) :
    Rule.contract rules (f.on (pair x xs)) = .ok (some (f.value x xs)) := by
  rw [contract_on f (by simp [pair])]
  have matched := matchInto_pair x (.symbol ".") xs
  rw [if_pos (by simp [Atom.same])] at matched
  rw [pair, matched]
  cases f <;> rfl

theorem contract_on_expr (f : Operation) (other : m ≠ .symbol ".") (x xs : Atom) :
    Rule.contract rules (f.on (.expr [x, m, xs])) = .ok none := by
  rw [contract_on f (by simp), matchInto_pair, if_neg (by rwa [Atom.same_symbol])]
  rfl

theorem contract_on_true (f : Operation) :
    Rule.contract rules (f.on (.symbol "True")) = .ok none := by
  rw [contract_on f (by simp)]
  rfl

theorem contract_cons (x xs : Atom) :
    Rule.contract rules (call "cons" [x, xs]) = .ok (some (pair x xs)) := by
  have bind : Atom.matchAllInto .empty [x, xs] [.var "x" none, .var "xs" none] =
      some (bound x xs) := by
    simp only [Atom.matchAllInto, Atom.matchInto_var, bind_x, bind_xs, Option.bind_some]
  have only := contract_rule "cons" [.var "x" none, .var "xs" none] dotted [x, xs]
  rw [bind] at only
  rw [contract_call]
  exact only

/-- A pair is one of the prelude's own calls if it begins with the symbol `cons`, or says that the
symbol of the dot equals itself. -/
theorem contract_pair (notCons : x ≠ .symbol "cons")
    (notEq : ¬ (x = .symbol "eq" ∧ xs = .symbol ".")) :
    Rule.contract rules (pair x xs) = .ok none := by
  by_cases isSymbol : ∃ name, x = .symbol name
  · obtain ⟨name, rfl⟩ := isSymbol
    show Rule.contract rules (call name [.symbol ".", xs]) = _
    rw [contract_call]
    by_cases isEq : name = "eq"
    · subst isEq
      have different : xs ≠ .symbol "." := fun same => notEq ⟨rfl, same⟩
      have clash : Atom.matchAllInto .empty [.symbol ".", xs] [.var "x" none, .var "x" none] =
          none := by
        simp only [Atom.matchAllInto, Atom.matchInto_var, bind_x, Option.bind_some]
        rw [Bindings.bind_of_get?_some rfl, if_neg (by rwa [Atom.same_comm, Atom.same_symbol])]
        rfl
      have only := contract_rule "eq" [.var "x" none, .var "x" none] (.symbol "True")
        [.symbol ".", xs]
      rw [clash] at only
      exact only
    · have notCons : name ≠ "cons" := by simpa using notCons
      have none : rules.filter (·.shape? == some (name, 2)) = [] := by
        simp [rules, entries, rule, Rule.shape?, call, Ne.symm notCons, Ne.symm isEq]
      rw [List.length_cons, List.length_singleton, none]
      rfl
  · refine Rule.contract_of_not_headed shaped ?_
    rintro name args ⟨⟩
    exact isSymbol ⟨name, rfl⟩

/-! ## Reductions -/

variable {levels budget : Nat}

/-- No rule of the prelude applies to a part of the atom, and there is no NaN in it. -/
structure Settled (a : Atom) : Prop where
  free : a.NaNFree
  stuck : ∀ depth part, Atom.Occurs depth part a → ∀ r ∈ rules, r.apply part = .ok none

theorem Settled.normal (settled : Settled a) (levels : Nat) :
    Normal (Rule.contract rules) levels a :=
  fun _ part _ inside => Rule.contract_eq_none_iff.mpr (settled.stuck _ part inside)

theorem Settled.run (settled : Settled a) (levels budget : Nat) :
    Run (Rule.contract rules) levels budget a [] a budget :=
  (settled.normal levels).run settled.free budget

theorem settled_expr {cs : List Atom} (top : Rule.contract rules (.expr cs) = .ok none)
    (each : ∀ c ∈ cs, Settled c) : Settled (.expr cs) where
  free := (Atom.leafwise_nanFree cs).mpr fun c member => (each c member).free
  stuck := by
    intro depth part inside
    cases inside with
    | root => exact Rule.contract_eq_none_iff.mp top
    | child member inside => exact (each _ member).stuck _ _ inside

theorem settled_leaf (leaf : a.kind ≠ .expression) (free : a.NaNFree) : Settled a where
  free := free
  stuck := by
    intro depth part inside
    cases inside with
    | root =>
        refine Rule.contract_eq_none_iff.mp (Rule.contract_of_not_headed shaped ?_)
        rintro name args rfl
        exact leaf rfl
    | child => exact absurd rfl leaf

theorem settled_symbol (name : String) : Settled (.symbol name) :=
  settled_leaf (by rintro ⟨⟩) ((Atom.nanFree_leaf (by rintro ⟨⟩)).mpr rfl)

theorem settled_pair (left : Settled x) (right : Settled xs) (notCons : x ≠ .symbol "cons")
    (notEq : ¬ (x = .symbol "eq" ∧ xs = .symbol ".")) : Settled (pair x xs) := by
  refine settled_expr (contract_pair notCons notEq) ?_
  simp [left, right, settled_symbol]

theorem Operation.settled_value (f : Operation) (left : Settled x) (right : Settled xs) :
    Settled (f.value x xs) := by
  cases f with
  | head => exact left
  | tail => exact right
  | isNil => exact settled_symbol "False"

theorem run_cons (left : Settled x) (right : Settled xs) (notCons : x ≠ .symbol "cons")
    (notEq : ¬ (x = .symbol "eq" ∧ xs = .symbol ".")) :
    ∃ trace, Run (Rule.contract rules) (levels + 1) (budget + 1) (call "cons" [x, xs]) trace
      (pair x xs) budget :=
  ⟨_, Rounds.contracted (contract_cons x xs)
    ((settled_pair left right notCons notEq).run (levels + 1) budget)⟩

namespace Operation

theorem run_on_pair (f : Operation) (left : Settled x) (right : Settled xs) :
    ∃ trace, Run (Rule.contract rules) (levels + 1) (budget + 1) (f.on (pair x xs)) trace
      (f.value x xs) budget :=
  ⟨_, Rounds.contracted (contract_on_pair f x xs)
    ((f.settled_value left right).run (levels + 1) budget)⟩

/-- Where the operation cannot be contracted its argument is reduced first. -/
theorem run_on (f : Operation) {c d : Atom} {below after : Trace} {middle rest : Nat}
    (stuck : Rule.contract rules (f.on a) = .ok none)
    (inner : Run (Rule.contract rules) (levels + 1) (budget + 1) a below c middle)
    (paid : middle ≤ budget) (changed : c.same a = false)
    (go : Run (Rule.contract rules) (levels + 2) middle (f.on c) after d rest) :
    ∃ trace, Run (Rule.contract rules) (levels + 2) (budget + 1) (f.on a) trace d rest := by
  have children : Children (Run (Rule.contract rules) (levels + 1)) (budget + 1)
      [.symbol f.name, a] _ [.symbol f.name, c] middle :=
    .cons ((settled_symbol f.name).run _ _) (.cons inner .nil)
  exact ⟨_, Rounds.restarted stuck children (by simp [Atom.sameAll, changed]) paid go⟩

variable (f : Operation) (left : Settled x) (right : Settled xs)

include left right

/-- The list is put into dotted form, and that is taken apart. -/
theorem run_list (notDot : x ≠ .symbol ".") (notCons : x ≠ .symbol "cons")
    (notEq : ¬ (x = .symbol "eq" ∧ xs = .symbol ".")) :
    ∃ trace rest, Run (Rule.contract rules) (levels + 2) (budget + 3) (f.on (call "cons" [x, xs]))
      trace (f.value x xs) rest := by
  have stuck : Rule.contract rules (f.on (call "cons" [x, xs])) = .ok none :=
    contract_on_expr f notDot (.symbol "cons") xs
  have changed : (pair x xs).same (call "cons" [x, xs]) = false := by
    have first : x.same (.symbol "cons") = false := by
      rwa [Bool.eq_false_iff, ne_eq, Atom.same_symbol]
    show (x.same (.symbol "cons") && _) = false
    rw [first, Bool.false_and]
  obtain ⟨_, inner⟩ := run_cons left right notCons notEq
  obtain ⟨_, go⟩ := f.run_on_pair left right
  obtain ⟨trace, run⟩ := f.run_on stuck inner (by omega) changed go
  exact ⟨trace, _, run⟩

omit left in
/-- A list of the dot in front is read as dotted form already, of a first element `cons`. -/
theorem run_dot :
    ∃ trace rest, Run (Rule.contract rules) (levels + 2) (budget + 3)
      (f.on (call "cons" [.symbol ".", xs])) trace (f.value (.symbol "cons") xs) rest := by
  obtain ⟨trace, run⟩ := f.run_on_pair (settled_symbol "cons") right
  exact ⟨trace, _, run⟩

omit left in
/-- A list of `cons` in front makes a dotted form that is a list of the dot in front. -/
theorem run_nested :
    ∃ trace rest, Run (Rule.contract rules) (levels + 2) (budget + 3)
      (f.on (call "cons" [.symbol "cons", xs])) trace (f.value (.symbol ".") xs) rest := by
  have dot := settled_symbol "."
  have stuck : Rule.contract rules (f.on (call "cons" [.symbol "cons", xs])) = .ok none :=
    contract_on_expr f (by simp) (.symbol "cons") xs
  obtain ⟨_, again⟩ := run_cons dot right (by simp) (by simp)
  have inner := Rounds.contracted (contract_cons (.symbol "cons") xs) again
  obtain ⟨_, go⟩ := f.run_on_pair dot right
  obtain ⟨trace, run⟩ := f.run_on stuck inner (by omega) rfl go
  exact ⟨trace, _, run⟩

omit left right in
/-- A list of `eq` in front of the dot makes a call that is contracted too. -/
theorem run_equation :
    ∃ trace rest, Run (Rule.contract rules) (levels + 2) (budget + 3)
      (f.on (call "cons" [.symbol "eq", .symbol "."])) trace (f.on (.symbol "True")) rest := by
  have stuck : Rule.contract rules (f.on (call "cons" [.symbol "eq", .symbol "."])) = .ok none :=
    contract_on_expr f (by simp) (.symbol "cons") (.symbol ".")
  have equal : Rule.contract rules (pair (.symbol "eq") (.symbol ".")) =
      .ok (some (.symbol "True")) := rfl
  have settled : Settled (f.on (.symbol "True")) :=
    settled_expr (contract_on_true f) (by simp [settled_symbol])
  have inner := Rounds.contracted (contract_cons (.symbol "eq") (.symbol "."))
    (Rounds.contracted equal ((settled_symbol "True").run (levels + 1) (budget + 1)))
  have done := settled.run (levels + 2) (budget + 1)
  obtain ⟨trace, run⟩ := f.run_on stuck inner (by omega) rfl done
  exact ⟨trace, _, run⟩

end Operation

/-- What comes of the prelude's forms reduces as its rules do. -/
theorem reduce_of_run {s : Space} (loaded : List.Forall₂ Rule.Recalls rules s.rules)
    {maxSteps : Int} (enough : 3 ≤ maxSteps) {a' : Atom}
    (run : ∀ budget, ∃ trace rest,
      Run (Rule.contract rules) 65 (budget + 3) a trace a' rest) :
    s.reduce maxSteps a = .ok a' := by
  let plain : Space := ⟨s.name, [], rules⟩
  have unguarded : ∀ r ∈ plain.rules, r.guard = none :=
    fun r member => (portable r member).unguarded
  have same : List.Forall₂ (fun r r' => r.apply = r'.apply) rules s.rules :=
    Space.forall₂_apply_of_recalls unguarded loaded
  obtain ⟨budget, steps⟩ : ∃ budget, maxSteps.toNat = budget + 3 :=
    ⟨maxSteps.toNat - 3, by omega⟩
  obtain ⟨trace, rest, run⟩ := run budget
  rw [← steps] at run
  have reduced : a.reduce rules { maxSteps } = .ok a' := Run.reduce_eq run
  rw [Space.reduce, Atom.reduce, ← Reduce.reduceCounting_congr same]
  exact reduced

/-- **The laws of lists, and where they fail.**  The space holds the rules of the prelude and no
others.  No rule applies to a part of the first element or of the rest, and there is no NaN in
them.  Three contractions are enough to take the list apart, whatever their nesting depth.  Unless
the list says that the dot equals itself, its tail is the rest and it is not empty, and its head is
the first element if that is neither the dot nor `cons`.  These two stand for each other, and in a
list that says that the dot equals itself only `True` is left for the operations. -/
theorem reduce_list {s : Space} (loaded : List.Forall₂ Rule.Recalls rules s.rules) {maxSteps : Int}
    (enough : 3 ≤ maxSteps) {x xs : Atom} (free : x.NaNFree) (free' : xs.NaNFree)
    (stuck : ∀ depth part, Atom.Occurs depth part x → ∀ r ∈ rules, r.apply part = .ok none)
    (stuck' : ∀ depth part, Atom.Occurs depth part xs → ∀ r ∈ rules, r.apply part = .ok none) :
    let reduced (name : String) (a : Atom) := s.reduce maxSteps (call name [a])
    let list : Atom := call "cons" [x, xs]
    let equation := x = .symbol "eq" ∧ xs = .symbol "."
    (¬ equation → reduced "tail" list = .ok xs ∧ reduced "nil?" list = .ok (.symbol "False")) ∧
    (¬ equation → x ≠ .symbol "." → x ≠ .symbol "cons" → reduced "head" list = .ok x) ∧
    (x = .symbol "." → reduced "head" list = .ok (.symbol "cons")) ∧
    (x = .symbol "cons" → reduced "head" list = .ok (.symbol ".")) ∧
    (equation → ∀ f : Operation,
      reduced f.name list = .ok (call f.name [.symbol "True"])) := by
  intro reduced list equation
  have left : Settled x := ⟨free, stuck⟩
  have right : Settled xs := ⟨free', stuck'⟩
  have dot (f : Operation) (dotted : x = .symbol ".") :
      s.reduce maxSteps (f.on list) = .ok (f.value (.symbol "cons") xs) := by
    subst dotted
    exact reduce_of_run loaded enough fun _ => f.run_dot right
  have nested (f : Operation) (cons : x = .symbol "cons") :
      s.reduce maxSteps (f.on list) = .ok (f.value (.symbol ".") xs) := by
    subst cons
    exact reduce_of_run loaded enough fun _ => f.run_nested right
  have regular (f : Operation) (other : ¬ equation) (notDot : x ≠ .symbol ".")
      (notCons : x ≠ .symbol "cons") : s.reduce maxSteps (f.on list) = .ok (f.value x xs) :=
    reduce_of_run loaded enough fun _ => f.run_list left right notDot notCons other
  -- the tail and the test do not look at the first element
  have rest (f : Operation) (same : ∀ y y', f.value y xs = f.value y' xs) (other : ¬ equation) :
      s.reduce maxSteps (f.on list) = .ok (f.value x xs) := by
    by_cases dotted : x = .symbol "."
    · rw [dot f dotted, same]
    · by_cases cons : x = .symbol "cons"
      · rw [nested f cons, same]
      · exact regular f other dotted cons
  refine ⟨fun other => ⟨rest .tail (fun _ _ => rfl) other, rest .isNil (fun _ _ => rfl) other⟩,
    regular .head, dot .head, nested .head, ?_⟩
  rintro ⟨rfl, rfl⟩ f
  exact reduce_of_run loaded enough fun _ => f.run_equation

/-- A list in the space of a session that has just started. -/
theorem reduce_list_prepared :
    let one : Atom := .ofScalar (.int 1)
    let xs : Atom := pair (.symbol "a") (.expr [])
    let list : Atom := call "cons" [one, xs]
    (Session.prepared {}).space.reduce 10 (call "head" [list]) = .ok one ∧
      (Session.prepared {}).space.reduce 10 (call "tail" [list]) = .ok xs ∧
      (Session.prepared {}).space.reduce 10 (call "nil?" [list]) = .ok (.symbol "False") := by
  intro one xs list
  have left : Settled one := settled_leaf (by rintro ⟨⟩) (by decide)
  have nil : Settled (.expr []) :=
    settled_expr (Rule.contract_of_not_headed shaped (by simp)) (List.forall_mem_nil _)
  have right : Settled xs := settled_pair (settled_symbol "a") nil (by simp) (by simp)
  have notSymbol (name : String) : one ≠ .symbol name := by simp [one, Atom.ofScalar]
  have loaded : List.Forall₂ Rule.Recalls rules (Session.prepared {}).space.rules :=
    recalls_prepared rfl (by decide)
  have ten : (3 : Int) ≤ 10 := by decide
  obtain ⟨others, first, -⟩ := reduce_list loaded ten left.free right.free left.stuck right.stuck
  have other : ¬ (one = .symbol "eq" ∧ xs = .symbol ".") := fun both => notSymbol "eq" both.1
  obtain ⟨tail, isNil⟩ := others other
  exact ⟨first other (notSymbol ".") (notSymbol "cons"), tail, isNil⟩

/-- The operation is contracted before its argument is put into dotted form. -/
theorem head_of_dot :
    let list : Atom := call "cons" [.symbol ".", .symbol "x"]
    (∀ a ∈ [Atom.symbol ".", .symbol "x"], a.NaNFree ∧ a.depth ≤ 30 ∧
      ∀ depth part, Atom.Occurs depth part a → ∀ r ∈ rules, r.apply part = .ok none) ∧
    (Session.prepared {}).space.reduce 10 (call "head" [list]) = .ok (.symbol "cons") ∧
      (Atom.symbol "cons").same (.symbol ".") = false := by
  intro list
  refine ⟨fun a member => ?_, ?_, rfl⟩
  · obtain ⟨name, rfl⟩ : ∃ name, a = .symbol name := by
      simp only [List.mem_cons, List.not_mem_nil, or_false] at member
      rcases member with rfl | rfl <;> exact ⟨_, rfl⟩
    exact ⟨(settled_symbol name).free, by simp [Atom.depth], (settled_symbol name).stuck⟩
  · have loaded : List.Forall₂ Rule.Recalls rules (Session.prepared {}).space.rules :=
      recalls_prepared rfl (by decide)
    exact reduce_of_run loaded (by decide) fun _ => Operation.head.run_dot (settled_symbol "x")

end Prelude

end Metta
