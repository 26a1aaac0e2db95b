/-
# Metta.Proofs.Malformed -- what a malformed form does

A form is malformed if the number of its arguments or their shape is wrong (`Form.Malformed`).
It answers with one error that says what is wrong, and changes no space
(`Eval.interpret_malformed`).

There is one exception.  `case` looks at all its clauses before it evaluates anything, and
`let*` at each pair when its turn comes: those in front of a malformed pair have been
evaluated by then, and what they did to the spaces stays done (`Eval.malformed_pair_adds`).
Nothing else does: the body and the pairs behind are never evaluated.
-/
import Metta.Proofs.Heads

namespace Metta.Eval

set_option autoImplicit false

/-! ## Shapes -/

/-- The shape of a member of the bindings of `let*`. -/
def IsPair (a : Atom) : Prop := ∃ name constraint value, a = .expr [.var name constraint, value]

/-- The shape of a clause of `case`. -/
def IsClause (a : Atom) : Prop := ∃ pattern body, a = .expr [pattern, body]

/-- What is wrong with a form: the message and the source of the error, and the pairs that are
evaluated before it is noticed. -/
structure Malformation where
  message : String
  source : Atom
  before : List Atom := []

def Malformation.error (m : Malformation) : Atom := .error m.message (some m.source)

/-- The form with these arguments is malformed in this way. -/
inductive Form.Malformed : Form → List Atom → Malformation → Prop
  | arity {f : Form} {args : List Atom} (wrong : f.takes args.length = false) :
      Malformed f args
        { message := f.name ++ " requires " ++ f.requirement
          source := .expr (.symbol f.name :: args) }
  | binder {a value body : Atom} (bad : ∀ name constraint, a ≠ .var name constraint) :
      Malformed binding [a, value, body]
        { message := "let first argument must be a variable"
          source := .expr [.symbol "let", a, value, body] }
  | list {a body : Atom} (bad : ∀ pairs, a ≠ .expr pairs) :
      Malformed bindings [a, body]
        { message := "let* bindings must be an expression"
          source := .expr [.symbol "let*", a, body] }
  | pair {before after : List Atom} {a body : Atom} (pairs : ∀ p ∈ before, IsPair p)
      (bad : ¬ IsPair a) :
      Malformed bindings [.expr (before ++ a :: after), body]
        { message := "let* binding must be a (variable value) pair", source := a, before }
  | clause {before after : List Atom} {scrutinee a : Atom} (clauses : ∀ c ∈ before, IsClause c)
      (bad : ¬ IsClause a) :
      Malformed cases (scrutinee :: (before ++ a :: after))
        { message := "case clause must be (pattern body)", source := a }

theorem exists_first {P : Atom → Prop} {as : List Atom} (bad : ∃ a ∈ as, ¬ P a) :
    ∃ before a after, as = before ++ a :: after ∧ (∀ b ∈ before, P b) ∧ ¬ P a := by
  classical
  cases found : as.find? fun a => decide (¬ P a) with
  | none =>
      obtain ⟨a, member, bad⟩ := bad
      exact absurd (List.find?_eq_none.mp found a member) (by simpa using bad)
  | some a =>
      obtain ⟨this, before, after, rfl, shaped⟩ := List.find?_eq_some_iff_append.mp found
      exact ⟨before, a, after, rfl, by simpa using shaped, by simpa using this⟩

/-- Every form whose number of arguments or whose shape is wrong is malformed in some way. -/
theorem Form.exists_malformed_iff {f : Form} {args : List Atom} :
    (∃ m, f.Malformed args m) ↔ f.takes args.length = false ∨
      match f, args with
      | binding, [a, _, _] => ∀ name constraint, a ≠ .var name constraint
      | bindings, [a, _] => ∀ pairs, a = .expr pairs → ∃ p ∈ pairs, ¬ IsPair p
      | cases, _ :: clauses => ∃ c ∈ clauses, ¬ IsClause c
      | _, _ => False := by
  constructor
  · rintro ⟨_, malformed⟩
    cases malformed with
    | arity wrong => exact .inl wrong
    | binder bad => exact .inr bad
    | list bad => exact .inr fun pairs same => absurd same (bad pairs)
    | pair _ bad =>
        refine .inr ?_
        rintro _ ⟨⟩
        exact ⟨_, List.mem_append_cons_self, bad⟩
    | clause _ bad => exact .inr ⟨_, List.mem_append_cons_self, bad⟩
  · rintro (wrong | shape)
    · exact ⟨_, .arity wrong⟩
    · split at shape
      · exact ⟨_, .binder shape⟩
      · rename_i a body
        by_cases listed : ∃ pairs, a = .expr pairs
        · obtain ⟨pairs, rfl⟩ := listed
          obtain ⟨before, p, after, rfl, shaped, bad⟩ := exists_first (shape pairs rfl)
          exact ⟨_, .pair shaped bad⟩
        · exact ⟨_, .list (not_exists.mp listed)⟩
      · obtain ⟨before, c, after, rfl, shaped, bad⟩ := exists_first shape
        exact ⟨_, .clause shaped bad⟩
      · exact shape.elim

variable {ctx : Context} {eval : Atom → Eval (List Atom)} {body scrutinee : Atom}

/-! ## Clauses -/

theorem clause?_eq_none {a : Atom} : clause? a = none ↔ ¬ IsClause a := by
  unfold clause? IsClause
  split
  · simp
  · rename_i other
    simpa using other

theorem evalCases_of_not_isClause {before after : List Atom} {c : Atom}
    (clauses : ∀ c ∈ before, IsClause c) (bad : ¬ IsClause c) :
    evalCases eval scrutinee (before ++ c :: after) =
      fail "case clause must be (pattern body)" c := by
  have found : (before ++ c :: after).find? (fun c => (clause? c).isNone) = some c := by
    refine List.find?_eq_some_iff_append.mpr ⟨?_, before, after, rfl, fun c member => ?_⟩
    · rw [clause?_eq_none.mpr bad]
      rfl
    · have shaped : clause? c ≠ none := fun other => clause?_eq_none.mp other (clauses c member)
      simpa [Option.isSome_iff_ne_none] using shaped
  rw [evalCases, found]

/-! ## Pairs in front -/

/-- The branches that pairs make of branches. -/
def bindFront (eval : Atom → Eval (List Atom)) : List Atom → List Bindings → Eval (List Bindings)
  | .expr [.var name _, value] :: pairs, branches => do
    bindFront eval pairs (← extendBranches eval name value branches)
  | _, branches => return branches

theorem bindPairs_append {pairs : List Atom} (shaped : ∀ p ∈ pairs, IsPair p) (rest : List Atom)
    (branches : List Bindings) :
    bindPairs eval body (pairs ++ rest) branches =
      bindFront eval pairs branches >>= bindPairs eval body rest := by
  induction pairs generalizing branches with
  | nil => rfl
  | cons pair pairs ih =>
      obtain ⟨⟨name, constraint, value, rfl⟩, others⟩ := List.forall_mem_cons.mp shaped
      rw [List.cons_append, bindPairs, bindFront, bind_assoc]
      exact bind_congr fun extended => ih others extended

theorem bindPairs_of_not_isPair {pair : Atom} (bad : ¬ IsPair pair) (pairs : List Atom)
    (branches : List Bindings) :
    bindPairs eval body (pair :: pairs) branches =
      fail "let* binding must be a (variable value) pair" pair := by
  unfold bindPairs
  split
  · contradiction
  · rename_i split
    cases split
    exact absurd ⟨_, _, _, rfl⟩ bad
  · rename_i split
    cases split
    rfl

/-! ## Whole forms -/

/-- A malformed form evaluates the pairs in front of the malformed one, if there are any, and
answers with the error. -/
theorem evalForm_of_malformed {f : Form} {args : List Atom} {m : Malformation}
    (malformed : f.Malformed args m) :
    evalForm ctx eval (.expr (.symbol f.name :: args)) f args =
      (do let _ ← bindFront eval m.before [.empty]; return [m.error]) := by
  cases malformed with
  | arity wrong => exact evalForm_of_not_takes wrong
  | @binder a _ _ bad =>
      cases a with
      | var name constraint => exact absurd rfl (bad name constraint)
      | _ => rfl
  | @list a _ bad =>
      cases a with
      | expr pairs => exact absurd rfl (bad pairs)
      | _ => rfl
  | pair pairs bad =>
      show bindPairs eval _ _ _ = _
      rw [bindPairs_append pairs]
      exact bind_congr fun branches => bindPairs_of_not_isPair bad _ branches
  | @clause before after scrutinee c clauses bad =>
      -- the equation for `case` asks for a first clause
      have whole (form : Atom) :
          evalForm ctx eval form .cases (scrutinee :: (before ++ c :: after)) =
            evalCases eval scrutinee (before ++ c :: after) := by
        cases before <;> rfl
      exact (whole _).trans (evalCases_of_not_isClause clauses bad)

/-- **A malformed form only says what is wrong.**  Where it is evaluated at all, every answer is the
error.  It does answer, and changes nothing but the log, unless there are pairs in front of the
malformed one; then it has done what these do, and nothing else. -/
theorem interpret_malformed (settings : Settings) (self : String) (w : World) {f : Form}
    {args : List Atom} {m : Malformation} (malformed : f.Malformed args m) :
    let form : Atom := .expr (.symbol f.name :: args)
    (settings.maxDepth < 0 → interpret settings self form w = .ok [depthFault settings form] w) ∧
    (0 ≤ settings.maxDepth → ¬ Reportable settings form →
      ∃ e, form.written = .error e ∧
        interpret settings self form w = .error (.unwritable e) w) ∧
    (0 ≤ settings.maxDepth → Reportable settings form →
      (m.before = [] → ∃ log, interpret settings self form w = .ok [m.error] { w with log }) ∧
      (∀ results w', interpret settings self form w = .ok results w' → results = [m.error]) ∧
      ∃ log, interpret settings self form w =
        (do
          let _ ← bindFront (evaluate settings self settings.maxDepth.toNat 1) m.before [.empty]
          return [m.error]) { w with log }) := by
  intro form
  refine ⟨fun negative => interpret_of_depth_neg negative form w,
    fun depth unwritable => exists_unreported_interpret depth unwritable w,
    fun depth reportable => ?_⟩
  obtain ⟨log, evaluated⟩ := exists_interpret self depth reportable w
  rw [evalHead, Head.ofName_name] at evaluated
  have front := evaluated.trans (congrFun (evalForm_of_malformed malformed) _)
  refine ⟨fun first => ⟨log, ?_⟩, fun results w' answered => ?_, log, front⟩
  · rw [front, first]
    rfl
  · rw [front] at answered
    cases ended : bindFront (evaluate settings self settings.maxDepth.toNat 1) m.before [.empty]
      { w with log } with
    | ok branches w'' =>
        rw [bind_of_ok ended] at answered
        cases answered
        rfl
    | error fault w'' =>
        rw [bind_of_error ended] at answered
        cases answered

/-- The second clause is malformed, and the scrutinee, which would have added an atom, has not been
evaluated. -/
theorem interpret_malformed_clause :
    let add : Atom := .expr [.symbol "add-atom", .symbol "&self", .symbol "foo"]
    let form : Atom := .expr [.symbol "case", add, .expr [.var "x" none, add], .symbol "bad"]
    let w : World := ⟨[⟨"home", [], []⟩], #[]⟩
    ∃ log, interpret {} "home" form w =
      .ok [.error "case clause must be (pattern body)" (some (.symbol "bad"))] { w with log } := by
  intro add form w
  have clauses : ∀ c ∈ [Atom.expr [.var "x" none, add]], IsClause c := by
    simpa using ⟨_, _, rfl⟩
  have malformed : Form.cases.Malformed
      (add :: ([.expr [.var "x" none, add]] ++ .symbol "bad" :: [])) _ :=
    .clause clauses (by rintro ⟨_, _, ⟨⟩⟩)
  exact ((interpret_malformed {} "home" w malformed).2.2 (by decide) (by decide)).1 rfl

/-- The second pair is malformed, and the first one has added an atom. -/
theorem malformed_pair_adds :
    let add : Atom := .expr [.symbol "add-atom", .symbol "&self", .symbol "foo"]
    let pairs : List Atom := [.expr [.var "x" none, add], .symbol "bad"]
    let m : Malformation :=
      ⟨"let* binding must be a (variable value) pair", .symbol "bad", pairs.take 1⟩
    Form.bindings.Malformed [.expr pairs, .var "x" none] m ∧
      interpret {} "home" (.expr [.symbol "let*", .expr pairs, .var "x" none])
          ⟨[⟨"home", [], []⟩], #[]⟩ =
        .ok [m.error] ⟨[⟨"home", [.symbol "foo"], []⟩], #[]⟩ := by
  intro add pairs m
  have shaped : ∀ p ∈ pairs.take 1, IsPair p := by
    simpa [pairs] using ⟨_, _, _, rfl⟩
  refine ⟨?_, rfl⟩
  exact @Form.Malformed.pair (pairs.take 1) [] _ _ shaped (by rintro ⟨_, _, _, ⟨⟩⟩)

end Metta.Eval
