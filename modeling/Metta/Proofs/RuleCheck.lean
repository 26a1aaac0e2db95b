/-
# Metta.Proofs.RuleCheck -- what the check of rule variables is worth

The check looks at a rule as the form that defines it (`Rule.form`) and reports the
variables of the template that the pattern does not bind.  It never runs the rule.

A match binds the variables of its pattern, all of them and no others.  So what a rule
makes of a ground atom has just those variables that the template has and the pattern has
not (`Rule.mem_varNames_of_apply`).  Rules that pass the check keep atoms ground, at
whatever depth they are used and however often.

Conversely each variable that is reported does turn up: every pattern has a ground
instance, and matches it (`Atom.exists_ground_match`).  A report shows the rule, and where that
has no written form there is none (`Check.unbound_unreported`).
-/
import Metta.Check
import Metta.Proofs.Solution
import Metta.Proofs.Termination

namespace Metta

set_option autoImplicit false

/-! ## Names in order -/

namespace Check

variable {names : List String} {name : String}

theorem mem_sorted : name ∈ sorted names ↔ name ∈ names := by
  rw [sorted, List.mem_eraseDups, List.mem_mergeSort]

/-- In an ascending list nothing is left of equal names but one, so that it ascends strictly. -/
theorem pairwise_lt_eraseDups (ascending : names.Pairwise (· ≤ ·)) :
    names.eraseDups.Pairwise (· < ·) := by
  induction length : names.length using Nat.strongRecOn generalizing names with
  | ind n ih =>
  cases names with
  | nil => simp
  | cons first others =>
      obtain ⟨least, rest⟩ := List.pairwise_cons.mp ascending
      rw [List.eraseDups_cons]
      refine List.pairwise_cons.mpr ⟨fun name member => ?_, ?_⟩
      · rw [List.mem_eraseDups, List.mem_filter] at member
        obtain ⟨inside, different⟩ := member
        have apart : name ≠ first := by simpa using different
        refine String.not_le.mp fun below => apart ?_
        exact String.le_antisymm below (least name inside)
      · have shorter := List.length_filter_le (fun name => !name == first) others
        rw [List.length_cons] at length
        exact ih _ (by omega) (rest.filter _) rfl

theorem pairwise_lt_sorted (names : List String) : (sorted names).Pairwise (· < ·) := by
  refine pairwise_lt_eraseDups ?_
  let le (a b : String) : Bool := decide (a ≤ b)
  have trans (a b c : String) (first : le a b = true) (second : le b c = true) : le a c = true := by
    simp only [le, decide_eq_true_eq] at first second ⊢
    exact String.le_trans first second
  have total (a b : String) : (le a b || le b a) = true := by
    simpa [le] using String.le_total a b
  exact (List.pairwise_mergeSort trans total names).imp of_decide_eq_true

theorem mem_unboundVariables {pattern template : Atom} :
    name ∈ unboundVariables pattern template ↔
      name ∈ template.varNames ∧ name ∉ pattern.varNames := by
  simp [unboundVariables, mem_sorted]

end Check

/-! ## Ground instances -/

namespace Atom

variable {a pattern : Atom}

/-- Ground atoms in the place of all its variables make an atom ground. -/
theorem ground_substitute {σ : String → Option Atom}
    (values : ∀ name ∈ a.varNames, ∃ value, σ name = some value ∧ value.Ground) :
    (a.substitute σ).Ground := by
  induction a with
  | var name constraint =>
      obtain ⟨value, given, ground⟩ := values name (by simp [varNames_var])
      rw [substitute, given]
      exact ground
  | expr cs ih =>
      rw [substitute, substituteAll_eq_map, leafwise_ground, List.forall_mem_map]
      exact fun c member => ih c member fun name inside =>
        values name (mem_varNames_expr.mpr ⟨c, member, inside⟩)
  | _ => rfl

/-- Every pattern matches some ground atom. -/
theorem exists_ground_match (free : pattern.NaNFree) :
    ∃ g b, Ground g ∧ g.matchPattern pattern = some b := by
  let σ : String → Option Atom := fun _ => some (.symbol "a")
  have ground : (pattern.substitute σ).Ground := ground_substitute fun _ _ => ⟨_, rfl, rfl⟩
  have instanceFree : (pattern.substitute σ).NaNFree := by
    refine nanFree_substitute.mpr ⟨free, ?_⟩
    rintro name - value ⟨⟩
    decide
  have agrees : AgreesOn (fun _ => True) σ .empty := by
    rintro name - value ⟨⟩
  obtain ⟨b, matched, -⟩ := matchInto_of_assignment agrees (fun _ _ => ⟨trivial, rfl⟩)
    (same_self_iff.mpr instanceFree)
  exact ⟨_, b, ground, matched⟩

end Atom

/-! ## What rules make of ground atoms -/

namespace Rule

variable {r : Rule} {a a' : Atom} {name : String}

/-- The form that defines the rule. -/
def form (r : Rule) : Atom := .expr [.symbol "=", r.pattern, r.template]

/-- What a rule makes of a ground atom has those variables of the template that the pattern has
not. -/
theorem mem_varNames_of_apply (ground : a.Ground) (applied : r.apply a = .ok (some a')) :
    name ∈ a'.varNames ↔ name ∈ r.template.varNames ∧ name ∉ r.pattern.varNames := by
  obtain ⟨b, matched, -, rfl⟩ := apply_eq_some_iff.mp applied
  have bound : name ∈ b.names ↔ name ∈ r.pattern.varNames := by
    have names := (Atom.matched_of_matchInto matched).names name
    simpa [Bindings.names, Bindings.empty] using names
  have values : b.Within Atom.Ground := Atom.leafwise_ground.matchPattern ground matched
  rw [← bound, Bindings.mem_varNames_apply]
  constructor
  · rintro (⟨stood, free⟩ | ⟨via, -, value, found, inside⟩)
    · exact ⟨stood, Bindings.notMem_names_of_get?_eq_none free⟩
    · have none : value.varNames = [] := values.get? found
      rw [none] at inside
      cases inside
  · rintro ⟨stood, unbound⟩
    refine .inl ⟨stood, ?_⟩
    cases found : b.get? name with
    | none => rfl
    | some value => exact absurd (Bindings.mem_names.mpr ⟨value, found⟩) unbound

theorem apply_ground (covered : ∀ name ∈ r.template.varNames, name ∈ r.pattern.varNames)
    (ground : a.Ground) (applied : r.apply a = .ok (some a')) : a'.Ground := by
  refine List.eq_nil_iff_forall_not_mem.mpr fun name inside => ?_
  obtain ⟨stood, unbound⟩ := (mem_varNames_of_apply ground applied).mp inside
  exact unbound (covered name stood)

/-- A variable can be brought in exactly if the template has it and the pattern has not. -/
theorem exists_apply_iff (unguarded : r.guard = none) (free : r.pattern.NaNFree) :
    (∃ g, g.Ground ∧ ∃ a', r.apply g = .ok (some a') ∧ name ∈ a'.varNames) ↔
      name ∈ r.template.varNames ∧ name ∉ r.pattern.varNames := by
  constructor
  · rintro ⟨g, ground, a', applied, inside⟩
    exact (mem_varNames_of_apply ground applied).mp inside
  · intro unbound
    obtain ⟨g, b, ground, matched⟩ := Atom.exists_ground_match free
    have admits : r.admits b = .ok true := by rw [Rule.admits, unguarded]
    have applied := apply_eq_some_iff.mpr ⟨b, matched, admits, rfl⟩
    exact ⟨g, ground, _, applied, (mem_varNames_of_apply ground applied).mpr unbound⟩

end Rule

/-! ## What is reported -/

namespace Check

variable {r : Rule}

/-- Has the atom the form of a rule? -/
def isRule : Atom → Bool
  | .expr [.symbol "=", _, _] => true
  | _ => false

theorem ruleVariables_form (r : Rule) : ruleVariables r.form =
    (unboundVariables r.pattern r.template).map (.unboundVariable · r.form) ++
      (ruleVariables r.pattern ++ ruleVariables r.template) := by
  have head : (Atom.symbol "=").subterms = [.symbol "="] := rfl
  simp [ruleVariables, Rule.form, Atom.subterms_expr, head]

theorem mapM_written_unboundVariable {rule : Atom} (writable : rule.isWritable = true)
    (names : List String) :
    (names.map (Problem.unboundVariable · rule)).mapM Problem.written =
      .ok (names.map fun name => (Problem.unboundVariable name rule).message) := by
  have each : Problem.written ∘ (Problem.unboundVariable · rule) =
      fun name => pure (Problem.unboundVariable name rule).message := by
    funext name
    exact Atom.writing_eq_ok (by simpa [Problem.shown?] using writable) _
  rw [List.mapM_map, each, List.mapM_pure]
  rfl

/-- The first report fails as the rule does. -/
theorem mapM_written_unboundVariable_of_error {rule : Atom} {e : Unwritable}
    (unwritten : rule.written = .error e) {names : List String} (some : names ≠ []) :
    (names.map (Problem.unboundVariable · rule)).mapM Problem.written = .error e := by
  obtain ⟨name, others, rfl⟩ := List.exists_cons_of_ne_nil some
  have first : (Problem.unboundVariable name rule).written = .error e :=
    Atom.writing_eq_error_iff.mpr (Atom.writing_eq_error_iff.mp unwritten)
  rw [List.map_cons, List.mapM_cons, first]
  rfl

theorem ruleVariables_eq_nil {a : Atom} (plain : ∀ s ∈ a.subterms, isRule s = false) :
    ruleVariables a = [] := by
  refine List.flatMap_eq_nil_iff.mpr fun node member => ?_
  split
  · cases plain _ member
  · rfl

/-- Of a rule in which no other stands only its own variables are reported. -/
theorem ruleVariables_of_plain (plain : ∀ s ∈ r.pattern.subterms ++ r.template.subterms,
    isRule s = false) : ruleVariables r.form =
      (unboundVariables r.pattern r.template).map (.unboundVariable · r.form) := by
  obtain ⟨pattern, template⟩ := List.forall_mem_append.mp plain
  rw [ruleVariables_form, ruleVariables_eq_nil pattern, ruleVariables_eq_nil template,
    List.append_nil, List.append_nil]

/-- A rule that passes has no variable in its template that its pattern has not. -/
theorem covered_of_ruleVariables (passes : ruleVariables r.form = []) :
    ∀ name ∈ r.template.varNames, name ∈ r.pattern.varNames := by
  rw [ruleVariables_form, List.append_eq_nil_iff, List.map_eq_nil_iff] at passes
  intro name stood
  by_contra unbound
  have reported := mem_unboundVariables.mpr ⟨stood, unbound⟩
  rw [passes.1] at reported
  cases reported

/-- **The check of rule variables is sound, and exact.**  By rules that pass it a ground atom is
reduced to nothing but a ground atom, whatever the limits; and its reduction has an end, unless a NaN
is in it or in a template.  Of a single rule the check finds, in ascending order and each once, those
variables that the rule brings into some ground atom, and no others.  It says so in messages where
the rule can be written; where it cannot the check fails for that, if there is one to report. -/
theorem ruleVariables_exact :
    (∀ (rules : List Rule) (limits : Reduce.Limits) (a : Atom), (∀ r ∈ rules, r.guard = none) →
      (∀ r ∈ rules, ruleVariables r.form = []) → a.Ground →
      (∀ a', a.reduce rules limits = .ok a' → a'.Ground) ∧
      ((∀ r ∈ rules, r.template.NaNFree) → a.NaNFree → ∃ a', a.ReducesTo rules limits a')) ∧
    ∀ r : Rule, r.guard = none → r.pattern.NaNFree →
      (∀ s ∈ r.pattern.subterms ++ r.template.subterms, isRule s = false) →
      ∃ names : List String,
        ruleVariables r.form = names.map (.unboundVariable · r.form) ∧
        (r.form.isWritable = true → (ruleVariables r.form).mapM Problem.written =
          .ok (names.map fun name => (Problem.unboundVariable name r.form).message)) ∧
        (∀ e, r.form.written = .error e → names ≠ [] →
          (ruleVariables r.form).mapM Problem.written = .error e) ∧
        names.Pairwise (· < ·) ∧
        ∀ name, name ∈ names ↔
          ∃ g, g.Ground ∧ ∃ a', r.apply g = .ok (some a') ∧ name ∈ a'.varNames := by
  constructor
  · intro rules limits a unguarded passes ground
    have decided := fun r member => Rule.decided_of_guard_eq_none (unguarded r member)
    have keeps {b b' : Atom} (top : Rule.contract rules b = .ok (some b')) (ground : b.Ground) :
        b'.Ground := by
      obtain ⟨before, r, after, rfl, -, applied⟩ := Rule.contract_eq_some_iff.mp top
      exact Rule.apply_ground (covered_of_ruleVariables (passes r (by simp))) ground applied
    refine ⟨fun a' computed => ?_, fun templates free =>
      Atom.exists_reducesTo decided templates free limits⟩
    obtain ⟨trace, a'', rest, run⟩ := Reduce.exists_rule_run decided limits a
    obtain rfl : a'' = a' := Except.ok.inj (run.reduce_eq.symm.trans computed)
    exact run.good Atom.leafwise_ground keeps ground
  · intro r unguarded free plain
    have reported := ruleVariables_of_plain plain
    refine ⟨_, reported, fun writable => ?_, fun e unwritten some => ?_, pairwise_lt_sorted _,
      fun name => ?_⟩
    · rw [reported, mapM_written_unboundVariable writable]
    · rw [reported, mapM_written_unboundVariable_of_error unwritten some]
    · rw [mem_unboundVariables, Rule.exists_apply_iff unguarded free]

/-- The second rule brings in two variables, which its template names in another order. -/
theorem ruleVariables_exact_pair :
    let f (a : Atom) : Atom := .expr [.symbol "f", a]
    let x : Atom := .var "x" none
    let y : Atom := .var "y" none
    let z : Atom := .var "z" none
    let double : Rule := ⟨"double", f x, .expr [x, x], none, 0⟩
    let careless : Rule := ⟨"careless", f x, .expr [z, x, y, z], none, 0⟩
    (∃ a', (f (.symbol "a")).ReducesTo [double] {} a' ∧ a'.Ground) ∧
      ruleVariables careless.form =
        [.unboundVariable "y" careless.form, .unboundVariable "z" careless.form] ∧
      ∃ g, g.Ground ∧ ∃ a', careless.apply g = .ok (some a') ∧ "z" ∈ a'.varNames := by
  intro f x y z double careless
  obtain ⟨sound, exact⟩ := ruleVariables_exact
  have covered : unboundVariables double.pattern double.template = [] := by
    have none : unboundVariables double.pattern double.template = sorted [] :=
      congrArg sorted (by decide)
    rw [none]
    simp [sorted]
  have passes : ruleVariables double.form = [] := by
    rw [ruleVariables_of_plain (by decide), covered, List.map_nil]
  have plain : ∀ s ∈ careless.pattern.subterms ++ careless.template.subterms,
      isRule s = false := by decide
  have unbound : unboundVariables careless.pattern careless.template = ["y", "z"] := by
    have named : unboundVariables careless.pattern careless.template = sorted ["z", "y", "z"] :=
      congrArg sorted (by decide)
    rw [named]
    simp [sorted, List.mergeSort, List.eraseDups_cons]
  obtain ⟨names, reported, -, -, -, introduced⟩ := exact careless rfl (by decide) plain
  have both := ruleVariables_of_plain plain
  rw [unbound] at both
  rw [both] at reported
  have found := List.map_injective_iff.mpr (fun a b equal => by injection equal) reported
  obtain ⟨grounds, ends⟩ :=
    sound [double] {} (f (.symbol "a")) (by simp [double]) (by simpa using passes) rfl
  obtain ⟨a', ended⟩ := ends (by decide) (by decide)
  refine ⟨⟨a', ended, grounds a' ended.1⟩, both, (introduced "z").mp ?_⟩
  rw [← found]
  decide

/-- A rule brings a variable into a ground atom, and the check does not report it: the template has
a whole number that is tagged to be written as a float and is too large for one. -/
theorem unbound_unreported :
    let big : Atom := .literal ⟨.int (Int.pow 10 400), "Float"⟩
    let r : Rule := ⟨"careless", .symbol "a", .expr [.var "x" none, big], none, 0⟩
    r.form.NaNFree ∧
      (∀ s ∈ r.pattern.subterms ++ r.template.subterms, isRule s = false) ∧
      (∃ g, g.Ground ∧ ∃ a', r.apply g = .ok (some a') ∧ "x" ∈ a'.varNames) ∧
      (ruleVariables r.form).mapM Problem.written = .error .tooLarge := by
  intro big r
  have unwritten : r.form.written = .error .tooLarge := by decide +kernel
  have free : r.form.NaNFree := by decide +kernel
  have plain : ∀ s ∈ r.pattern.subterms ++ r.template.subterms, isRule s = false := by
    decide +kernel
  have unbound : unboundVariables r.pattern r.template = ["x"] := by
    have named : unboundVariables r.pattern r.template = sorted ["x"] :=
      congrArg sorted (by decide +kernel)
    rw [named]
    simp [sorted, List.eraseDups_cons]
  refine ⟨free, plain, ⟨.symbol "a", rfl, _, rfl, by decide +kernel⟩, ?_⟩
  rw [ruleVariables_of_plain plain, unbound]
  exact mapM_written_unboundVariable_of_error unwritten (by simp)

end Check

end Metta
