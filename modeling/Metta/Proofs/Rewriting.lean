/-
# Metta.Proofs.Rewriting -- reduction is a chain of rewriting steps

One step of the rewriting relation (`Rule.Rewrites`) replaces one part of an atom, at
some nesting depth, by what the first applicable rule of the list makes of it.
`Rule.Chain` counts steps none of which is too deep.

The outcome of a run is reached by a chain no longer than the run's trace (`Run.chain`).
It may be shorter: contractions in children that came back equal are paid for, and
dropped with these children.
-/
import Metta.Proofs.Run

namespace Metta

set_option autoImplicit false

namespace Rule

/-- One part of the atom, at the given nesting depth, is contracted by the first rule that applies
to it. -/
inductive Rewrites (rules : List Rule) : (depth : Nat) → Atom → Atom → Prop
  | top {a a' : Atom} (contracts : Contracts rules a a') : Rewrites rules 0 a a'
  | child {depth : Nat} {c c' : Atom} (before after : List Atom)
      (inside : Rewrites rules depth c c') :
      Rewrites rules (depth + 1) (.expr (before ++ c :: after)) (.expr (before ++ c' :: after))

/-- So many rewriting steps, none of them deeper than `maxDepth`. -/
inductive Chain (rules : List Rule) (maxDepth : Int) : (steps : Nat) → Atom → Atom → Prop
  | refl (a : Atom) : Chain rules maxDepth 0 a a
  | step {depth steps : Nat} {a a' a'' : Atom} (low : (depth : Int) ≤ maxDepth)
      (first : Rewrites rules depth a a') (others : Chain rules maxDepth steps a' a'') :
      Chain rules maxDepth (steps + 1) a a''

variable {rules : List Rule} {maxDepth maxDepth' : Int} {steps steps' : Nat} {a a' a'' c c' : Atom}

theorem Chain.trans (first : Chain rules maxDepth steps a a')
    (others : Chain rules maxDepth steps' a' a'') :
    Chain rules maxDepth (steps + steps') a a'' := by
  induction first with
  | refl => exact (Nat.zero_add steps').symm ▸ others
  | step low first _ ih =>
      rw [Nat.add_right_comm]
      exact .step low first (ih others)

/-- What happens to a child happens to the expression, one level deeper. -/
theorem Chain.child (chain : Chain rules maxDepth steps c c') (before after : List Atom) :
    Chain rules (maxDepth + 1) steps (.expr (before ++ c :: after))
      (.expr (before ++ c' :: after)) := by
  induction chain with
  | refl => exact .refl _
  | step low first _ ih => exact .step (by omega) (.child before after first) ih

/-- A chain needs only the depths that it uses. -/
theorem Chain.deepen (chain : Chain rules maxDepth steps a a')
    (deeper : ∀ depth : Nat, (depth : Int) ≤ maxDepth → (depth : Int) ≤ maxDepth') :
    Chain rules maxDepth' steps a a' := by
  induction chain with
  | refl => exact .refl _
  | step low first _ ih => exact .step (deeper _ low) first ih

end Rule

namespace Reduce

variable {rules : List Rule} {child : Course} {levels budget rest : Nat} {a a' : Atom}
  {cs cs' : List Atom} {trace : Trace} {maxDepth : Int}

/-- The steps of the children, one child after the other, beside those that are done. -/
theorem Children.chain (run : Children child budget cs trace cs' rest)
    (chains : ∀ {budget a trace a' rest}, child budget a trace a' rest →
      ∃ steps ≤ trace.length, Rule.Chain rules maxDepth steps a a')
    (done : List Atom) : ∃ steps ≤ trace.length,
      Rule.Chain rules (maxDepth + 1) steps (.expr (done ++ cs)) (.expr (done ++ cs')) := by
  induction run generalizing done with
  | nil => exact ⟨0, Nat.le_refl 0, .refl _⟩
  | @cons _ _ _ c c' cs cs' first others head tail ih =>
      obtain ⟨n, short, chain⟩ := chains head
      obtain ⟨m, short', chain'⟩ := ih (done ++ [c'])
      refine ⟨n + m, ?_, (chain.child done cs).trans ?_⟩
      · rw [List.length_append]
        omega
      · simpa using chain'

/-- The outcome of a run is reached by a chain that the trace pays for. -/
theorem Run.chain (run : Run (Rule.contract rules) levels budget a trace a' rest) :
    ∃ steps ≤ trace.length, Rule.Chain rules ((levels : Int) - 1) steps a a' := by
  induction levels generalizing budget a trace a' rest with
  | zero =>
      obtain ⟨rfl, rfl, -⟩ := run
      exact ⟨0, Nat.le_refl 0, .refl _⟩
  | succ levels ih =>
      induction run with
      | contracted top go again =>
          obtain ⟨n, short, chain⟩ := again
          have first := Rule.Rewrites.top (Rule.contract_eq_some_iff.mp top)
          exact ⟨n + 1, Nat.succ_le_succ short, .step (by omega) first chain⟩
      | restarted top children changed paid go again =>
          obtain ⟨n, short, chain⟩ := children.chain ih []
          obtain ⟨m, short', chain'⟩ := again
          refine ⟨n + m, ?_, Rule.Chain.trans (chain.deepen fun _ low => ?_) chain'⟩
          · rw [List.length_append]
            omega
          · omega
      | _ => exact ⟨0, Nat.zero_le _, .refl _⟩

end Reduce

namespace Atom

/-- **Reduction follows the rewriting relation and keeps its budget.**  There is a run whose trace
holds every contraction made, at all depths together, each by the first rule that applies; it is as
long as the count returned and no longer than the budget.  The reduct is reached from the atom by no
more rewriting steps than that, none below the greatest nesting depth. -/
theorem reduceCounting_chain (rules : List Rule) (limits : Reduce.Limits) (a : Atom)
    (decided : ∀ r ∈ rules, r.Decided) (budget : 0 ≤ limits.maxSteps) :
    ∃ trace a' rest steps,
      a.reduce rules limits = .ok a' ∧
      a.reduceCounting rules limits = .ok (a', trace.length) ∧
      Reduce.Run (Rule.contract rules) limits.levels limits.budget a trace a' rest ∧
      (∀ e ∈ trace, Rule.Contracts rules e.1 e.2) ∧
      (trace.length : Int) ≤ limits.maxSteps ∧
      steps ≤ trace.length ∧ Rule.Chain rules limits.maxDepth steps a a' := by
  obtain ⟨trace, a', rest, run⟩ := Reduce.exists_rule_run decided limits a
  obtain ⟨steps, short, chain⟩ := run.chain
  refine ⟨trace, a', rest, steps, run.reduce_eq, run.reduceCounting_eq, run, ?_, ?_, short,
    chain.deepen fun _ low => ?_⟩
  · exact fun e member => Rule.contract_eq_some_iff.mp (run.contracted e member)
  · have paid := run.length_add
    unfold Reduce.Limits.budget at paid
    omega
  · unfold Reduce.Limits.levels at low
    omega

/-- A budget of one contraction ends in the middle of the children. -/
theorem reduceCounting_chain_cut :
    let dec (a : Atom) : Atom := .expr [.symbol "dec", a]
    let one : Atom := ofScalar (.int 1)
    let rules : List Rule :=
      [⟨"dec", dec (.var "x" none), .var "x" none, some (Guard.positive "x"), 0⟩]
    let a : Atom := .expr [dec (ofScalar (.int 0)), dec one, dec one]
    let cut : Atom := .expr [dec (ofScalar (.int 0)), one, dec one]
    ∃ (trace : Reduce.Trace) (steps : Nat),
      a.reduceCounting rules { maxSteps := 1 } = .ok (cut, trace.length) ∧
      (∀ e ∈ trace, Rule.Contracts rules e.1 e.2) ∧ trace.length = 1 ∧
      steps ≤ trace.length ∧ Rule.Chain rules 64 steps a cut := by
  intro dec one rules a cut
  have run : a.reduceCounting rules { maxSteps := 1 } = .ok (cut, 1) := rfl
  have decided : ∀ r ∈ rules, r.Decided := by
    intro r member b
    obtain rfl := List.mem_singleton.mp member
    exact ⟨_, rfl⟩
  obtain ⟨trace, a', rest, steps, -, reduced, -, made, -, short, chain⟩ :=
    reduceCounting_chain rules { maxSteps := 1 } a decided (by decide)
  rw [run] at reduced
  obtain ⟨rfl, length⟩ := Prod.mk.inj (Except.ok.inj reduced)
  exact ⟨trace, steps, length ▸ run, made, length.symm, short, chain⟩

end Atom

end Metta
