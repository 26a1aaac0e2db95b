/-
# Metta.Proofs.Evaluation -- evaluation keeps a coupling

One level of evaluation, run on both sides of a coupling over evaluators that are paired
on a closed class of atoms, is paired on that class again (`Level.step`).  There is a
lemma for each special form and operator, and none of them looks at what the coupling
is.  By induction on the levels the whole evaluation is paired (`evaluateWith_pairs`).

This is the one case analysis over the evaluator: what holds along every evaluation is
obtained from it by choosing the class of atoms and the coupling.  The first such result is
that evaluation does not leave a closed class (`interpret_keeps`).
-/
import Metta.Proofs.Coupling
import Metta.Proofs.Run
import Metta.Proofs.Worlds

namespace Metta.Eval

set_option autoImplicit false

open Coupling

/-- Both evaluations answer alike, with atoms of the class. -/
abbrev Coupling.Answers (K : Coupling) (Good : Atom → Prop) (m m' : Eval (List Atom)) : Prop :=
  K.Pairs (∀ a ∈ ·, Good a) m m'

/-- One level of evaluation on both sides: contexts that differ at most in their limits, and
reductions and evaluators that are paired on the class. -/
structure Level (K : Coupling) (Good : Atom → Prop) (ctx ctx' : Context)
    (eval eval' : Atom → Eval (List Atom)) : Prop where
  closed : Atom.Closed Good
  preserves : K.Preserves Good ctx.self
  home : ctx'.self = ctx.self
  depth : ctx'.depth = ctx.depth
  traced : ctx'.settings.trace = ctx.settings.trace
  reduce : ∀ (s : Space) a, (∀ r ∈ s.rules, K.admits r ∧ Good r.template) → Good a →
    K.Pairs Good (ctx.reduce s a) (ctx'.reduce s a)
  eval : ∀ a, Good a → K.Answers Good (eval a) (eval' a)

variable {K : Coupling} {Good : Atom → Prop} {ctx ctx' : Context}
  {eval eval' : Atom → Eval (List Atom)}

/-- What arithmetic answers with is finite. -/
theorem Arithmetic.apply_finite {op : Arithmetic} {as : List Atom} {x : Float}
    (result : op.apply as = .ok x) : x.isFinite = true := by
  unfold Arithmetic.apply at result
  obtain ⟨xs, -, result⟩ := bind_eq_ok.mp result
  obtain ⟨y, -, result⟩ := bind_eq_ok.mp result
  split at result
  · rename_i finite
    cases result
    exact finite
  · cases result

namespace Level

variable (level : Level K Good ctx ctx' eval eval')

include level

/-! ## What forms do to the world -/

theorem report (r : LogRecord) : K.Pairs (fun _ => True) (Eval.report r) (Eval.report r) :=
  pairs_changing (level.preserves.report r)

theorem trace {message : Unit → Except Unwritable String} (writes : K.Writes (message ())) :
    K.Pairs (fun _ => True) (ctx.trace message) (ctx'.trace message) := by
  unfold Context.trace
  rw [level.traced, level.depth]
  split
  · exact (pairs_writing writes).bind fun _ _ => level.report _
  · exact pairs_pure trivial

theorem space {name : String} (reaches : Reaches Good ctx.self name) :
    K.Pairs (fun s : Space => ∀ a ∈ s.atoms, Good a) (Eval.space name) (Eval.space name) :=
  pairs_space (level.preserves.space_eq reaches) fun rel => level.preserves.atoms rel reaches

theorem homeSpace :
    K.Pairs (fun s : Space => (∀ a ∈ s.atoms, Good a) ∧ ∀ r ∈ s.rules, K.admits r ∧ Good r.template)
      (Eval.space ctx.self) (Eval.space ctx'.self) := by
  rw [level.home]
  have reaches : Reaches Good ctx.self ctx.self := .inl rfl
  refine pairs_space (level.preserves.space_eq reaches) fun rel => ?_
  exact ⟨level.preserves.atoms rel reaches, level.preserves.rules rel⟩

/-- A reference of the class leads to a space that is within reach. -/
theorem resolve {ref : Atom} (good : Good ref) :
    K.Pairs (fun target => ∀ name, target = some name → Reaches Good ctx.self name)
      (ctx.resolve ref) (ctx'.resolve ref) := by
  cases ref with
  | symbol ref =>
      intro w w' rel
      unfold Context.resolve
      rw [level.home]
      by_cases here : ref = "&self"
      · simp only [here, if_true]
        exact .ok (by rintro _ ⟨⟩; exact .inl rfl) rel
      · simp only [here, if_false]
        split
        · rename_i name chars
          have spelled : "&" ++ String.ofList name = ref := by
            rw [← String.toList_inj, chars]
            simp
          have reaches : Reaches Good ctx.self (String.ofList name) := by
            refine .inr ⟨fun same => here ?_, spelled ▸ good⟩
            rw [← spelled, same]
            rfl
          rw [← level.preserves.space rel reaches]
          refine .ok (fun target found => ?_) rel
          obtain ⟨s, registered, rfl⟩ := Option.map_eq_some_iff.mp found
          rw [World.name_of_space? registered]
          exact reaches
        · exact .ok (by rintro _ ⟨⟩) rel
  | _ => exact pairs_pure (by rintro _ ⟨⟩)

theorem fail {message : String} {form : Atom} (deserved : Deserved message form)
    (whole : Good form) : K.Answers Good (Eval.fail message form) (Eval.fail message form) :=
  pairs_pure (by simpa using level.closed.error message form deserved whole)

/-- An error that has nothing to do with the number of arguments. -/
theorem failOtherwise {message : String} {form : Atom} (silent : complains message = false)
    (whole : Good form) : K.Answers Good (Eval.fail message form) (Eval.fail message form) :=
  level.fail (deserved_of_not_complains silent form) whole

theorem unknownSpace {ref form : Atom} (good : Good ref) (whole : Good form) :
    K.Answers Good (Eval.unknownSpace ref form) (Eval.unknownSpace ref form) :=
  (pairs_writing (level.preserves.writes good)).bind fun written _ =>
    level.fail (deserved_unknownSpace written form) whole

theorem orEmpty {as : List Atom} (goods : ∀ a ∈ as, Good a) :
    ∀ a ∈ Eval.orEmpty as, Good a := by
  cases as with
  | nil => simp [Eval.orEmpty, level.closed.empty]
  | cons => exact goods

theorem orEmptied {m m' : Eval (List Atom)} (answers : K.Answers Good m m') :
    K.Answers Good (m >>= fun as => pure (Eval.orEmpty as))
      (m' >>= fun as => pure (Eval.orEmpty as)) :=
  answers.bind fun _ goods => pairs_pure (level.orEmpty goods)

/-! ## Special forms -/

/-- What is done with the space that a reference means is paired if it is for all spaces within
reach, and where there is no such space. -/
theorem resolved {ref : Atom} (good : Good ref) {act act' : Option String → Eval (List Atom)}
    (unknown : K.Answers Good (act none) (act' none))
    (known : ∀ name, Reaches Good ctx.self name →
      K.Answers Good (act (some name)) (act' (some name))) :
    K.Answers Good (ctx.resolve ref >>= act) (ctx'.resolve ref >>= act') := by
  refine (level.resolve good).bind fun target reaches => ?_
  cases target with
  | none => exact unknown
  | some name => exact known name (reaches name rfl)

theorem query {name : String} (reaches : Reaches Good ctx.self name) (pattern : Atom)
    {template : Atom} (good : Good template) :
    K.Answers Good
      (Eval.space name >>= fun s => pure (Eval.orEmpty ((s.query pattern).map (·.apply template))))
      (Eval.space name >>= fun s =>
        pure (Eval.orEmpty ((s.query pattern).map (·.apply template)))) := by
  refine (level.space reaches).bind fun s atoms => pairs_pure (level.orEmpty ?_)
  intro a member
  obtain ⟨b, matched, rfl⟩ := List.mem_map.mp member
  have within := level.closed.leafwise.matchEach atoms matched
  exact level.closed.leafwise.apply within good

theorem storedAtoms {name : String} (reaches : Reaches Good ctx.self name) :
    K.Answers Good (Eval.space name >>= fun s => pure [.expr s.atoms])
      (Eval.space name >>= fun s => pure [.expr s.atoms]) := by
  refine (level.space reaches).bind fun s atoms => pairs_pure ?_
  simpa using (level.closed.leafwise _).mpr atoms

theorem change {name : String} {f : Space → Space}
    (keeps : ∀ {w w'}, K.rel w w' → K.rel (w.change name f) (w'.change name f)) :
    K.Answers Good (Eval.change name f >>= fun _ => pure [.empty])
      (Eval.change name f >>= fun _ => pure [.empty]) :=
  (pairs_changing keeps).bind fun _ _ => pairs_pure (by simp [level.closed.empty])

theorem extendBranches (name : String) {value : Atom} (good : Good value) {branches : List Bindings}
    (within : ∀ b ∈ branches, b.Within Good) :
    K.Pairs (∀ b ∈ ·, b.Within Good) (extendBranches eval name value branches)
      (Eval.extendBranches eval' name value branches) := by
  induction branches with
  | nil => exact pairs_pure (by simp)
  | cons b bs ih =>
      obtain ⟨first, others⟩ := List.forall_mem_cons.mp within
      have values := level.eval _ (level.closed.leafwise.apply first good)
      refine values.bind fun as goods => (ih others).bind fun rest kept => pairs_pure ?_
      refine List.forall_mem_append.mpr ⟨fun b' member => ?_, kept⟩
      obtain ⟨a, inside, rfl⟩ := List.mem_map.mp member
      exact first.set (goods a inside)

/-- Evaluating one atom under each of several bindings. -/
theorem underEach {body : Atom} (good : Good body) {branches : List Bindings}
    (within : ∀ b ∈ branches, b.Within Good) :
    K.Answers Good (collect (fun b => eval (b.apply body)) branches)
      (collect (fun b => eval' (b.apply body)) branches) :=
  pairs_collect fun b member =>
    level.eval _ (level.closed.leafwise.apply (within b member) good)

theorem bindPairs {body : Atom} (good : Good body) {pairs : List Atom} (goods : ∀ p ∈ pairs, Good p)
    {branches : List Bindings} (within : ∀ b ∈ branches, b.Within Good) :
    K.Answers Good (bindPairs eval body pairs branches)
      (Eval.bindPairs eval' body pairs branches) := by
  induction pairs generalizing branches with
  | nil => exact level.orEmptied (level.underEach good within)
  | cons pair pairs ih =>
      obtain ⟨first, others⟩ := List.forall_mem_cons.mp goods
      unfold Eval.bindPairs
      split
      · exact level.orEmptied (level.underEach good within)
      · rename_i name constraint value pairs' split
        cases split
        have value_good := (level.closed.leafwise _).mp first value (by simp)
        exact (level.extendBranches name value_good within).bind fun bs kept => ih others kept
      · rename_i same
        cases same
        exact level.failOtherwise rfl first

theorem firstClause {value : Atom} (good : Good value) {clauses : List (Atom × Atom)}
    (bodies : ∀ c ∈ clauses, Good c.2) :
    K.Answers Good (firstClause eval value clauses) (Eval.firstClause eval' value clauses) := by
  induction clauses with
  | nil => exact pairs_pure (by simp)
  | cons clause clauses ih =>
      obtain ⟨pattern, body⟩ := clause
      obtain ⟨first, others⟩ := List.forall_mem_cons.mp bodies
      unfold Eval.firstClause
      cases matched : value.matchPattern pattern with
      | none => exact ih others
      | some b =>
          have within := level.closed.leafwise.matchPattern good matched
          exact level.eval _ (level.closed.leafwise.apply within first)

theorem evalCases {scrutinee : Atom} (good : Good scrutinee) {clauses : List Atom}
    (goods : ∀ c ∈ clauses, Good c) :
    K.Answers Good (evalCases eval scrutinee clauses) (Eval.evalCases eval' scrutinee clauses) := by
  unfold Eval.evalCases
  split
  · rename_i found
    exact level.failOtherwise rfl (goods _ (List.mem_of_find?_eq_some found))
  · have bodies : ∀ c ∈ clauses.filterMap clause?, Good c.2 := by
      intro c member
      obtain ⟨clause, inside, parts⟩ := List.mem_filterMap.mp member
      unfold clause? at parts
      split at parts
      · cases parts
        exact (level.closed.leafwise _).mp (goods _ inside) _ (by simp)
      · cases parts
    refine (level.eval _ good).bind fun values goods => level.orEmptied ?_
    exact pairs_collect fun v member => level.firstClause (goods v member) bodies

theorem addRule (heads : Good (.symbol "=")) {r : Rule} (unguarded : r.guard = none)
    (pattern : Good r.pattern) (template : Good r.template) :
    K.Pairs (fun _ => True) (addRule ctx.self r) (Eval.addRule ctx'.self r) := by
  unfold Eval.addRule
  refine level.homeSpace.bind fun s _ => ?_
  rw [level.home]
  refine (pairs_changing (level.preserves.addRule heads unguarded pattern template)).bind
    fun _ _ => ?_
  have writes : K.Writes r.written := writes_writing _ (by
    simpa [Rule.atoms] using ⟨level.preserves.writes pattern, level.preserves.writes template⟩)
  have record : K.Writes (s.ruleAdded r) := writes.bind fun _ => writes_pure _
  exact (pairs_writing record).bind fun _ _ => level.report _

/-- Every special form is paired with itself. -/
theorem evalForm {form : Atom} (whole : Good form) {f : Form} (head : Good (.symbol f.name))
    {args : List Atom} (called : form = .expr (.symbol f.name :: args))
    (goods : ∀ a ∈ args, Good a) :
    K.Answers Good (evalForm ctx eval form f args) (Eval.evalForm ctx' eval' form f args) := by
  have leafwise := level.closed.leafwise
  have nothing : ∀ a ∈ [Atom.empty], Good a := by simp [level.closed.empty]
  unfold Eval.evalForm
  -- one case for each equation of the definition, in their order; the last is the wrong arity
  split
  · -- `match`
    rename_i ref pattern template
    have good := goods ref (by simp)
    exact level.resolved good (level.unknownSpace good whole) fun _ reaches =>
      level.query reaches pattern (goods template (by simp))
  · -- `let`
    rename_i name constraint value body
    refine (level.eval value (goods _ (by simp))).bind fun values kept => level.orEmptied ?_
    refine pairs_collect fun v member => level.eval _ (leafwise.apply ?_ (goods body (by simp)))
    exact Bindings.within_empty.set (kept v member)
  · exact level.failOtherwise rfl whole
  · -- `let*`
    rename_i pairs body
    have pairs_good := (leafwise pairs).mp (goods _ (by simp))
    exact level.bindPairs (goods body (by simp)) pairs_good (by simp [Bindings.within_empty])
  · exact level.failOtherwise rfl whole
  · -- `if`
    rename_i condition yes no
    refine (level.eval condition (goods _ (by simp))).bind fun conditions _ => level.orEmptied ?_
    refine pairs_collect fun c _ => level.eval _ ?_
    split
    · exact goods yes (by simp)
    · exact goods no (by simp)
  · -- `case`
    obtain ⟨scrutinee, clauses⟩ := List.forall_mem_cons.mp goods
    exact level.evalCases scrutinee clauses
  · -- `quote`
    exact pairs_pure goods
  · -- `unquote`
    refine (level.eval _ (goods _ (by simp))).bind fun values kept => ?_
    exact pairs_collect fun v member => level.eval v (kept v member)
  · -- `collapse`
    refine (level.eval _ (goods _ (by simp))).bind fun values kept => pairs_pure ?_
    simpa using (leafwise values).mpr kept
  · -- `superpose`
    rename_i alternatives
    have kept := (leafwise alternatives).mp (goods _ (by simp))
    exact pairs_collect fun a member => level.eval a (kept a member)
  · exact pairs_pure nothing
  · -- `=`
    rename_i pattern template
    refine level.homeSpace.bind fun s _ => ?_
    refine (level.addRule head rfl ?_ ?_).bind fun _ _ => pairs_pure nothing
    · exact goods pattern (by simp)
    · exact goods template (by simp)
  · -- `add-atom`
    rename_i ref a
    have good := goods ref (by simp)
    exact level.resolved good (level.unknownSpace good whole) fun _ reaches =>
      level.change (level.preserves.add head reaches (goods a (by simp)))
  · -- `remove-atom`
    rename_i ref a
    have good := goods ref (by simp)
    exact level.resolved good (level.unknownSpace good whole) fun _ reaches =>
      level.change (level.preserves.remove head reaches (goods a (by simp)))
  · -- `get-atoms`
    rw [level.home]
    exact level.storedAtoms (.inl rfl)
  · rename_i ref
    have good := goods ref (by simp)
    exact level.resolved good (level.unknownSpace good whole) fun _ reaches =>
      level.storedAtoms reaches
  · -- what a form takes is covered by the equations before
    rw [called]
    refine level.fail (deserved_of_not_takes ?_) (called ▸ whole)
    rw [Head.ofName_name, Head.takes, Bool.eq_false_iff]
    intro taken
    have shape := Form.args_of_takes taken
    cases ‹Form› <;> grind

/-! ## Operators -/

theorem evalArithmetic {form : Atom} (whole : Good form) (op : Arithmetic) {args : List Atom}
    (goods : ∀ a ∈ args, Good a) :
    K.Answers Good (evalArithmetic eval form op args) (Eval.evalArithmetic eval' form op args) := by
  unfold Eval.evalArithmetic
  refine (pairs_collect fun a member => level.eval a (goods a member)).bind fun values _ => ?_
  cases result : op.apply values with
  | error e => exact level.failOtherwise (complains_arithmeticFault e) whole
  | ok x => exact pairs_pure (by simpa using level.closed.number x (Arithmetic.apply_finite result))

theorem evalComparison {form : Atom} (whole : Good form) {c : Comparison} {args : List Atom}
    (called : form = .expr (.symbol c.name :: args)) (goods : ∀ a ∈ args, Good a) :
    K.Answers Good (evalComparison eval form c args) (Eval.evalComparison eval' form c args) := by
  unfold Eval.evalComparison
  split
  · rename_i left right
    refine (level.eval left (goods left (by simp))).bind fun lefts _ => ?_
    refine (level.eval right (goods right (by simp))).bind fun rights _ => ?_
    split
    · exact level.failOtherwise (complains_arithmeticFault _) whole
    · exact level.failOtherwise rfl whole
    · refine pairs_pure fun a member => ?_
      obtain ⟨b, _, rfl⟩ := List.mem_map.mp member
      exact level.closed.truth b
  · rename_i other
    rw [called]
    refine level.fail (deserved_of_not_takes ?_) (called ▸ whole)
    rw [Head.ofName_comparison, Head.takes, beq_eq_false_iff_ne]
    intro two
    obtain ⟨left, right, rfl⟩ := List.length_eq_two.mp two
    exact other left right rfl

theorem evalLogic {form : Atom} (whole : Good form) {l : Logic} {args : List Atom}
    (called : form = .expr (.symbol l.name :: args)) (goods : ∀ a ∈ args, Good a) :
    K.Answers Good (evalLogic eval form l args) (Eval.evalLogic eval' form l args) := by
  unfold Eval.evalLogic
  split
  · rename_i a
    refine (level.eval a (goods a (by simp))).bind fun values _ => pairs_pure fun b member => ?_
    obtain ⟨v, _, rfl⟩ := List.mem_map.mp member
    exact level.closed.truth _
  · rename_i other
    rw [called]
    refine level.fail (deserved_of_not_takes ?_) (called ▸ whole)
    rw [Head.ofName_logic, Head.takes, beq_eq_false_iff_ne]
    intro one
    obtain ⟨a, rfl⟩ := List.length_eq_one_iff.mp one
    exact other a rfl
  · refine (pairs_collect fun a member => level.eval a (goods a member)).bind fun values _ => ?_
    exact pairs_pure (by simpa using level.closed.truth _)
  · refine (pairs_collect fun a member => level.eval a (goods a member)).bind fun values _ => ?_
    exact pairs_pure (by simpa using level.closed.truth _)

/-! ## One level, and all of them -/

theorem reduceAndGoOn {a : Atom} (good : Good a) :
    K.Answers Good (reduceAndGoOn ctx eval a) (Eval.reduceAndGoOn ctx' eval' a) := by
  unfold Eval.reduceAndGoOn
  refine level.homeSpace.bind fun s holds => ?_
  refine (level.reduce s a holds.2 good).bind fun reduced kept => ?_
  split
  · exact pairs_pure (by simpa using good)
  · have before := level.preserves.writes good
    have after := level.preserves.writes kept
    refine (level.trace ?_).bind fun _ _ => level.eval reduced kept
    exact before.bind fun _ => after.bind fun _ => writes_pure _

theorem applyHead (head : Atom) {args : List Atom} (goods : ∀ a ∈ args, Good a) {value : Atom}
    (good : Good value) :
    K.Answers Good (applyHead ctx eval head args value)
      (Eval.applyHead ctx' eval' head args value) := by
  have whole : Good (.expr (value :: args)) :=
    (level.closed.leafwise _).mpr (List.forall_mem_cons.mpr ⟨good, goods⟩)
  unfold Eval.applyHead
  split
  · exact level.reduceAndGoOn whole
  · exact level.eval _ whole

/-- A variable stands for the first atom of the space, if there is one. -/
theorem firstAtom {a : Atom} (good : Good a) :
    K.Answers Good
      (Eval.space ctx.self >>= fun s => pure [(s.atoms.head?).getD a])
      (Eval.space ctx'.self >>= fun s => pure [(s.atoms.head?).getD a]) := by
  refine level.homeSpace.bind fun s holds => pairs_pure ?_
  cases stored : s.atoms with
  | nil => simpa using good
  | cons first others => simpa using holds.1 first (by simp [stored])

/-- One level of evaluation is paired with itself. -/
theorem step {a : Atom} (good : Good a) :
    K.Answers Good (step ctx eval a) (Eval.step ctx' eval' a) := by
  unfold Eval.step
  have writes := level.preserves.writes good
  refine (level.trace (writes.bind fun _ => writes_pure _)).bind fun _ _ => ?_
  split
  · exact level.firstAtom good
  · rename_i name args
    obtain ⟨head, goods⟩ := List.forall_mem_cons.mp ((level.closed.leafwise _).mp good)
    split
    · rename_i f named
      obtain rfl := Head.name_of_ofName named
      exact level.evalForm good head rfl goods
    · exact level.evalArithmetic good _ goods
    · rename_i c named
      obtain rfl := Head.name_of_comparison named
      exact level.evalComparison good rfl goods
    · rename_i l named
      obtain rfl := Head.name_of_logic named
      exact level.evalLogic good rfl goods
    · exact level.reduceAndGoOn good
  · rename_i head args _
    obtain ⟨first, goods⟩ := List.forall_mem_cons.mp ((level.closed.leafwise _).mp good)
    refine (level.eval head first).bind fun values kept => ?_
    exact pairs_collect fun value member => level.applyHead head goods (kept value member)
  · exact pairs_pure (by simpa using good)

end Level

/-- **Evaluation keeps a coupling.**  Where contexts, reductions and the answers at the first limit
are paired, so are all levels of evaluation, the second side having `extra` levels more. -/
theorem evaluateWith_pairs {handling handling' : Handling} {settings settings' : Settings}
    {self : String} (extra : Nat) (closed : Atom.Closed Good) (preserves : K.Preserves Good self)
    (traced : settings'.trace = settings.trace)
    (reduce : ∀ (s : Space) a, (∀ r ∈ s.rules, K.admits r ∧ Good r.template) → Good a →
      K.Pairs Good (handling.reduce s a) (handling'.reduce s a))
    (exhausted : ∀ depth a, Good a → K.Answers Good (handling.exhausted a)
      (evaluateWith handling' settings' self extra depth a))
    (levels depth : Nat) {a : Atom} (good : Good a) :
    K.Answers Good (evaluateWith handling settings self levels depth a)
      (evaluateWith handling' settings' self (levels + extra) depth a) := by
  induction levels generalizing depth a with
  | zero =>
      rw [Nat.zero_add]
      exact exhausted depth a good
  | succ levels ih =>
      rw [Nat.succ_add]
      have level : Level K Good ⟨settings, self, depth, handling.reduce⟩
          ⟨settings', self, depth, handling'.reduce⟩
          (evaluateWith handling settings self levels (depth + 1))
          (evaluateWith handling' settings' self (levels + extra) (depth + 1)) :=
        { closed, preserves, home := rfl, depth := rfl, traced, reduce, eval := fun _ => ih _ }
      exact level.step good

/-- A reduction stays in the class that the rules stay in, or fails as evaluations may. -/
theorem pairs_reduce (leafwise : Atom.Leafwise Good)
    (faults : ∀ {r a e}, K.admits r → r.apply a = .error e → K.fails (.guard e)) (maxSteps : Int)
    {s : Space} {a : Atom} (rules : ∀ r ∈ s.rules, K.admits r ∧ Good r.template) (good : Good a) :
    K.Pairs Good (guarded (s.reduce maxSteps a)) (guarded (s.reduce maxSteps a)) := by
  have templates : ∀ r ∈ s.rules, Good r.template := fun r member => (rules r member).2
  have ends := Reduce.reduce_endsIn leafwise templates { maxSteps } good
  refine pairs_ofExcept _ _ (fun a' reduced => ?_) (fun e failed => ?_)
  · rwa [← Space.reduce, reduced] at ends
  · rw [← Space.reduce, failed] at ends
    obtain ⟨r, member, b, applied⟩ := ends
    exact faults (rules r member).1 applied

/-- Evaluation is paired with itself wherever the coupling preserves the class, at whatever depth it
is started. -/
theorem evaluate_pairs {self : String} (closed : Atom.Closed Good)
    (preserves : K.Preserves Good self) (settings : Settings) (levels depth : Nat) {a : Atom}
    (good : Good a) :
    K.Answers Good (evaluate settings self levels depth a)
      (evaluate settings self levels depth a) := by
  refine evaluateWith_pairs 0 closed preserves rfl (fun _ _ rules good => ?_) (fun _ a good => ?_)
    _ _ good
  · exact pairs_reduce closed.leafwise preserves.faults _ rules good
  · refine pairs_pure (List.forall_mem_singleton.mpr ?_)
    exact closed.error _ a (deserved_depthFault _ a) good

theorem interpret_pairs {self : String} (closed : Atom.Closed Good)
    (preserves : K.Preserves Good self) (settings : Settings) {a : Atom} (good : Good a) :
    K.Answers Good (interpret settings self a) (interpret settings self a) :=
  evaluate_pairs closed preserves settings settings.levels 0 good

/-! ## Worlds that hold a class of atoms -/

/-- A coupling of worlds that hold only atoms of the class with themselves. -/
theorem preserves_of_holds {R : Rule → Prop}
    (rel : ∀ w w', K.rel w w' ↔ w' = w ∧ w.Holds Good R)
    (rules : ∀ r, R r → K.admits r ∧ Good r.template)
    (added : ∀ r, r.guard = none → Good r.pattern → Good r.template → R r)
    (writes : ∀ {a}, Good a → K.Writes a.written)
    (faults : ∀ {r a e}, K.admits r → r.apply a = .error e → K.fails (.guard e)) (home : String) :
    K.Preserves Good home where
  space := by
    intro w w' name related _
    obtain ⟨rfl, -⟩ := (rel w w').mp related
    rfl
  atoms := by
    intro w w' name related _
    exact (((rel w w').mp related).2.space name).atoms
  rules := by
    intro w w' related r member
    exact rules r ((((rel w w').mp related).2.space home).rules r member)
  report := by
    intro w w' r related
    obtain ⟨rfl, holds⟩ := (rel w w').mp related
    exact (rel _ _).mpr ⟨rfl, holds⟩
  add := by
    intro w w' name a _ _ good related
    obtain ⟨rfl, holds⟩ := (rel w w').mp related
    exact (rel _ _).mpr ⟨rfl, holds.change fun _ held => held.add good⟩
  remove := by
    intro w w' name a _ _ _ related
    obtain ⟨rfl, holds⟩ := (rel w w').mp related
    exact (rel _ _).mpr ⟨rfl, holds.change fun _ held => held.remove a⟩
  addRule := by
    intro w w' r _ unguarded pattern template related
    obtain ⟨rfl, holds⟩ := (rel w w').mp related
    have good := added r unguarded pattern template
    exact (rel _ _).mpr ⟨rfl, holds.change fun _ held => held.addRule good⟩
  writes := writes
  faults := faults

/-- Worlds are equal and hold only atoms and templates of the class, whatever guards do. -/
def Coupling.keeping (Good : Atom → Prop) : Coupling where
  rel w w' := w' = w ∧ w.Holds Good fun r => Good r.template
  stops _ := False
  admits _ := True

/-- **Evaluation does not leave a closed class of atoms.**  Where the atom and all stored atoms and
templates are of the class, so are all answers, and all that is stored afterwards, whatever guards
decide and also if one of them fails. -/
theorem interpret_keeps (settings : Settings) (self : String) (closed : Atom.Closed Good) {a : Atom}
    (good : Good a) {w : World} (holds : w.Holds Good fun r => Good r.template) :
    match interpret settings self a w with
    | .ok results w' => (∀ b ∈ results, Good b) ∧ w'.Holds Good fun r => Good r.template
    | .error _ w' => w'.Holds Good fun r => Good r.template := by
  have preserves : (Coupling.keeping Good).Preserves Good self :=
    preserves_of_holds (fun _ _ => Iff.rfl) (fun _ template => ⟨trivial, template⟩)
      (fun _ _ _ template => template) (fun _ _ _ => trivial) (fun _ _ => trivial) self
  have outcomes := interpret_pairs closed preserves settings good w w ⟨rfl, holds⟩
  generalize interpret settings self a w = r at outcomes ⊢
  cases outcomes with
  | ok goods rel => exact ⟨goods, rel.2⟩
  | error rel => exact rel.2
  | stopped given => exact absurd given id

end Metta.Eval
