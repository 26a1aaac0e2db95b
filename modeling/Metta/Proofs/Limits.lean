/-
# Metta.Proofs.Limits -- limits that are not reached do not matter

An evaluation reaches a limit when one of its reductions makes as many contractions as it
may, or one of its parts is started too deep.  Its results need not show that, because an
error atom may be swallowed by a conjunction or a clause.  So a limit is told from the
strict evaluation (`Handling.strict`), which ends with a given fault at the first limit it
reaches: nothing in evaluation catches a fault.

Up to the first limit the strict evaluation does what the evaluation under any larger
limits does (`strict_pairs`).  The two are coupled by equality of worlds.
-/
import Metta.Proofs.Evaluation

namespace Metta.Eval

set_option autoImplicit false

open Coupling

/-- At the first limit evaluation ends with the fault. -/
def Handling.strict (fault : EvalFault) (settings : Settings) : Handling where
  reduce s a := do
    let (a', count) ← guarded (a.reduceCounting s.rules { maxSteps := settings.maxSteps })
    if (count : Int) < settings.maxSteps then return a' else throw fault
  exhausted _ := throw fault

/-- The evaluation of an atom that ends with the fault at its first limit. -/
def strict (fault : EvalFault) (settings : Settings) (self : String) (a : Atom) :
    Eval (List Atom) :=
  evaluateWith (.strict fault settings) settings self settings.levels 0 a

/-- Evaluation from this world reaches a limit: whatever fault stands for that, it ends with it. -/
def HitsLimit (settings : Settings) (self : String) (a : Atom) (w : World) : Prop :=
  ∀ fault, ∃ w', strict fault settings self a w = .error fault w'

/-- At depth one there is no level left, and the conjunction takes the error atom for false. -/
example :
    let w : World := ⟨[.named "home"], #[]⟩
    let a : Atom := .expr [.symbol "and", .symbol "False"]
    interpret { maxDepth := 0 } "home" a w = .ok [.symbol "False"] w ∧
      HitsLimit { maxDepth := 0 } "home" a w :=
  ⟨rfl, fun _ => ⟨_, rfl⟩⟩

/-- Worlds are equal, rules always decide, and the first evaluation is given up at the fault. -/
def Coupling.spared (self : String) (fault : EvalFault) : Coupling where
  rel w w' := w' = w ∧ ∀ r ∈ (w.space self).rules, r.Decided
  stops e := e = fault

variable {settings settings' : Settings} {self : String} {fault : EvalFault}

theorem closed_all : Atom.Closed fun _ => True where
  leafwise := by simp [Atom.Leafwise]
  empty := trivial
  error _ _ _ _ := trivial
  truth _ := trivial
  number _ _ := trivial

theorem preserves_spared : (Coupling.spared self fault).Preserves (fun _ => True) self where
  space := by
    rintro w w' name ⟨rfl, -⟩ -
    rfl
  atoms _ _ _ _ := trivial
  rules rel r member := ⟨rel.2 r member, trivial⟩
  report := by
    rintro w w' r ⟨rfl, decided⟩
    exact ⟨rfl, decided⟩
  add := by
    rintro w w' name a - - - ⟨rfl, decided⟩
    refine ⟨rfl, ?_⟩
    rwa [World.rules_change (fun _ => Space.add_name) (fun _ => Space.add_rules)]
  remove := by
    rintro w w' name a - - - ⟨rfl, decided⟩
    refine ⟨rfl, ?_⟩
    rwa [World.rules_change (fun _ => Space.remove_name) (fun _ => Space.remove_rules)]
  addRule := by
    rintro w w' r - unguarded - - ⟨rfl, decided⟩
    refine ⟨rfl, fun q member => ?_⟩
    rcases World.mem_rules_addRule member with rfl | old
    · exact Rule.decided_of_guard_eq_none unguarded
    · exact decided q old
  writes _ _ _ := trivial
  faults _ _ := trivial

/-- A reduction that does not use up its budget comes out the same with a larger one. -/
theorem strict_reduce_pairs {K : Coupling} (stops : K.stops fault)
    (steps : settings.maxSteps ≤ settings'.maxSteps) {s : Space}
    (decided : ∀ r ∈ s.rules, r.Decided) (a : Atom) :
    K.Pairs (fun _ => True) ((Handling.strict fault settings).reduce s a)
      ((Handling.quiet settings').reduce s a) := by
  let limits : Reduce.Limits := { maxSteps := settings.maxSteps }
  let limits' : Reduce.Limits := { maxSteps := settings'.maxSteps }
  obtain ⟨trace, a', rest, run⟩ := Reduce.exists_rule_run decided limits a
  have strictly : (Handling.strict fault settings).reduce s a =
      if (trace.length : Int) < settings.maxSteps then pure a' else throw fault := by
    simp only [Handling.strict]
    rw [run.reduceCounting_eq]
    rfl
  rw [strictly]
  split
  · rename_i fewer
    have paid := run.length_add
    have spare : 0 < rest := by
      simp only [limits, Reduce.Limits.budget] at paid
      omega
    have again := run.leaving spare (limits'.budget - trace.length)
    have larger : trace.length + (limits'.budget - trace.length) = limits'.budget := by
      simp only [limits', Reduce.Limits.budget]
      omega
    rw [larger] at again
    have reduced : (Handling.quiet settings').reduce s a = pure a' := by
      simp only [Handling.quiet, Space.reduce]
      rw [again.reduce_eq]
      rfl
    rw [reduced]
    exact pairs_pure trivial
  · exact pairs_stopped stops _

/-- The strict evaluation, and the one under limits at least as large. -/
theorem strict_pairs (fault : EvalFault) (steps : settings.maxSteps ≤ settings'.maxSteps)
    (depth : settings.maxDepth ≤ settings'.maxDepth) (traced : settings'.trace = settings.trace)
    (a : Atom) : (Coupling.spared self fault).Answers (fun _ => True)
      (strict fault settings self a) (interpret settings' self a) := by
  have levels : settings.levels + (settings'.levels - settings.levels) = settings'.levels := by
    unfold Settings.levels
    omega
  unfold strict interpret evaluate
  rw [← levels]
  refine evaluateWith_pairs _ closed_all preserves_spared traced (fun s a rules _ => ?_) ?_ _ _
    trivial
  · exact strict_reduce_pairs rfl steps (fun r member => (rules r member).1) a
  · exact fun _ _ _ => pairs_stopped rfl _

/-- Where no limit is reached larger ones have the outcome of the strict evaluation. -/
theorem interpret_eq_strict (steps : settings.maxSteps ≤ settings'.maxSteps)
    (depth : settings.maxDepth ≤ settings'.maxDepth) (traced : settings'.trace = settings.trace)
    {a : Atom} {w : World} (decided : ∀ r ∈ (w.space self).rules, r.Decided)
    (spared : ¬ ∃ w', strict fault settings self a w = .error fault w') :
    interpret settings' self a w = strict fault settings self a w := by
  have outcomes := strict_pairs fault steps depth traced a w w ⟨rfl, decided⟩
  generalize interpret settings' self a w = r' at outcomes ⊢
  generalize reached : strict fault settings self a w = r at outcomes ⊢
  cases outcomes with
  | ok _ rel => rw [rel.1]
  | error rel => rw [rel.1]
  | stopped stops =>
      subst stops
      exact absurd ⟨_, reached⟩ spared

/-- **Limits that are not reached do not matter.**  Where evaluation reaches neither limit, raising
them changes nothing: the results, or the fault, are the same, and so is the world afterwards with
the atoms and rules of all its spaces. -/
theorem interpret_raise (settings : Settings) (maxSteps maxDepth : Int) (self : String) (a : Atom)
    (w : World) (unguarded : ∀ r ∈ (w.space self).rules, r.guard = none)
    (spared : ¬ HitsLimit settings self a w) (steps : settings.maxSteps ≤ maxSteps)
    (depth : settings.maxDepth ≤ maxDepth) :
    interpret { settings with maxSteps, maxDepth } self a w = interpret settings self a w := by
  have decided := fun r member => Rule.decided_of_guard_eq_none (unguarded r member)
  obtain ⟨fault, spared⟩ := Classical.not_forall.mp spared
  have raised : interpret { settings with maxSteps, maxDepth } self a w =
      strict fault settings self a w :=
    interpret_eq_strict steps depth (by rfl) decided spared
  have given : interpret settings self a w = strict fault settings self a w :=
    interpret_eq_strict (Int.le_refl _) (Int.le_refl _) (by rfl) decided spared
  exact raised.trans given.symm

/-- Two contractions and three levels are needed to evaluate `(and (f True))`. -/
theorem interpret_raise_conjunction :
    let f (a : Atom) : Atom := .expr [.symbol "f", a]
    let rules : List Rule := [
      ⟨"flip", f (.symbol "True"), f (.symbol "False"), none, 0⟩,
      ⟨"drop", f (.symbol "False"), .symbol "False", none, 0⟩]
    let w : World := ⟨[⟨"home", [], rules⟩], #[]⟩
    let a : Atom := .expr [.symbol "and", f (.symbol "True")]
    let tight : Settings := { maxSteps := 3, maxDepth := 2 }
    ¬ HitsLimit tight "home" a w ∧ interpret tight "home" a w = .ok [.symbol "False"] w ∧
      interpret { maxSteps := 1000, maxDepth := 200 } "home" a w = .ok [.symbol "False"] w := by
  intro f rules w a tight
  have given : interpret tight "home" a w = .ok [.symbol "False"] w := rfl
  have spared : ¬ HitsLimit tight "home" a w := by
    intro hits
    obtain ⟨w', ended⟩ := hits (.unwritable .tooLarge)
    have answered : strict (.unwritable .tooLarge) tight "home" a w = .ok [.symbol "False"] w := rfl
    rw [answered] at ended
    cases ended
  have raised :=
    interpret_raise tight 1000 200 "home" a w (by decide) spared (by decide) (by decide)
  exact ⟨spared, given, raised.trans given⟩

end Metta.Eval
