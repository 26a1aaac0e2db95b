/-
# Metta.Proofs.Ending -- evaluations that end

A reduction with a NaN in it may have no end, and then neither has the evaluation that asks
for it.  `Eval.interpret` has an outcome even then, since `Reduce.rounds` cuts the loop off.
Whether there is one in earnest is told by the evaluation whose reductions are not cut off
(`Eval.counted`): it ends with a given fault as soon as a loop wants more rounds than it is
allowed.  Evaluation ends (`Eval.Ends`) if some number of rounds is enough, and then the two
come to the same.

That fault is the only difference between the two (`counted_eq_or_late`), for both are one
evaluation under two ways to reduce.  Where no NaN is in the atom, nor in what is stored, none
comes in, and evaluation ends (`ends_of_nanFree`).  An expression with a NaN among its members
that no rule applies to keeps evaluation going for ever (`not_ends_of_nan`).
-/
import Metta.Proofs.Limits
import Metta.Proofs.Rounding
import Metta.Proofs.Termination

namespace Metta

open Metta.Number

set_option autoImplicit false

/-- No evaluation brings in a NaN of its own accord. -/
theorem Atom.closed_nanFree : Closed NaNFree where
  leafwise := leafwise_nanFree
  empty := (nanFree_leaf (by simp [kind])).mpr rfl
  error _ _ _ _ := (nanFree_leaf (by simp [kind])).mpr rfl
  truth _ := (nanFree_leaf (by simp [kind, ofBool])).mpr rfl
  number x finite := by
    obtain ⟨negative, m, e, parts⟩ := isFinite_iff.mp finite
    refine (nanFree_leaf (by simp [kind, ofScalar])).mpr ?_
    simp [isNaN, ofScalar, Literal.ofScalar, Scalar.key?, pointOf?, parts, Reading.point?]

namespace Eval

open Coupling

/-! ## Reductions that are not cut off -/

/-- Reductions fail when one of their loops wants more rounds than it is allowed. -/
def Handling.counted (late : GuardFault) (allowed : Nat) (settings : Settings) : Handling where
  reduce s a :=
    let limits : Reduce.Limits := { maxSteps := settings.maxSteps }
    guarded (Prod.fst <$>
      Reduce.checked late (Rule.contract s.rules) allowed limits.levels limits.budget a)
  exhausted a := return [depthFault settings a]

/-- The evaluation of an atom that ends with the fault where a loop of a reduction wants more rounds
than it is allowed. -/
def counted (late : GuardFault) (allowed : Nat) (settings : Settings) (self : String) (a : Atom) :
    Eval (List Atom) :=
  evaluateWith (.counted late allowed settings) settings self settings.levels 0 a

/-- Evaluation from this world ends.  With some number of rounds for each loop of a reduction none of
them is late, and what is computed comes out, whatever fault stands for being late. -/
def Ends (settings : Settings) (self : String) (a : Atom) (w : World) : Prop :=
  ∃ allowed, ∀ late, counted late allowed settings self a w = interpret settings self a w

variable {settings : Settings} {self : String} {late : GuardFault} {allowed : Nat} {a : Atom}
  {w : World} {Good : Atom → Prop}

theorem counted_reduce_of_checked {s : Space} {r : Atom × Nat}
    (ended : let limits : Reduce.Limits := { maxSteps := settings.maxSteps }
      Reduce.checked late (Rule.contract s.rules) allowed limits.levels limits.budget a = .ok r) :
    (Handling.counted late allowed settings).reduce s a = pure r.1 := by
  simp only [Handling.counted]
  rw [ended]
  rfl

theorem counted_reduce_of_late {s : Space}
    (ended : let limits : Reduce.Limits := { maxSteps := settings.maxSteps }
      Reduce.checked late (Rule.contract s.rules) allowed limits.levels limits.budget a =
        .error late) :
    (Handling.counted late allowed settings).reduce s a = throw (.guard late) := by
  simp only [Handling.counted]
  rw [ended]
  rfl

theorem quiet_reduce_of_reduce {s : Space} {a' : Atom}
    (reduced : a.reduce s.rules { maxSteps := settings.maxSteps } = .ok a') :
    (Handling.quiet settings).reduce s a = pure a' := by
  simp only [Handling.quiet, Space.reduce]
  rw [reduced]
  rfl

/-- A reduction that is not late comes out as if it had been cut off. -/
theorem counted_reduce_pairs {K : Coupling} (stops : K.stops (.guard late)) {s : Space}
    (decided : ∀ r ∈ s.rules, r.Decided) (a : Atom) :
    K.Pairs (fun _ => True) ((Handling.counted late allowed settings).reduce s a)
      ((Handling.quiet settings).reduce s a) := by
  let limits : Reduce.Limits := { maxSteps := settings.maxSteps }
  have ends := Reduce.checked_endsIn (Rule.contract_decided decided) late allowed limits.levels
    limits.budget a
  cases ended : Reduce.checked late (Rule.contract s.rules) allowed limits.levels limits.budget a with
  | ok r =>
      obtain ⟨trace, run⟩ := Reduce.exists_run_of_checked ended
      rw [counted_reduce_of_checked ended, quiet_reduce_of_reduce run.reduce_eq]
      exact pairs_pure trivial
  | error e =>
      rw [ended] at ends
      obtain rfl : e = late := ends
      rw [counted_reduce_of_late ended]
      exact pairs_stopped stops _

theorem counted_pairs (late : GuardFault) (allowed : Nat) (settings : Settings) (a : Atom) :
    (Coupling.spared self (.guard late)).Answers (fun _ => True)
      (counted late allowed settings self a) (interpret settings self a) := by
  refine evaluateWith_pairs 0 closed_all preserves_spared rfl (fun s a rules _ => ?_) ?_ _ _
    trivial
  · exact counted_reduce_pairs rfl (fun r member => (rules r member).1) a
  · exact fun _ _ _ => pairs_pure fun _ _ => trivial

/-- Unless it is late the evaluation that is not cut off comes to what is computed. -/
theorem counted_eq_or_late (decided : ∀ r ∈ (w.space self).rules, r.Decided) (late : GuardFault)
    (allowed : Nat) (settings : Settings) (a : Atom) :
    counted late allowed settings self a w = interpret settings self a w ∨
      ∃ w', counted late allowed settings self a w = .error (.guard late) w' := by
  have outcomes := counted_pairs late allowed settings a w w ⟨rfl, decided⟩
  generalize interpret settings self a w = r' at outcomes ⊢
  generalize counted late allowed settings self a w = r at outcomes ⊢
  cases outcomes with
  | ok _ rel => exact .inl (by rw [rel.1])
  | error rel => exact .inl (by rw [rel.1])
  | stopped stops => exact .inr ⟨_, by rw [stops]⟩

/-! ## Worlds without guards -/

/-- Worlds are equal, hold only atoms and templates of the class, and no rule has a guard.  The one
fault is an atom that cannot be written. -/
def Coupling.unguarded (Good : Atom → Prop) : Coupling where
  rel w w' := w' = w ∧ w.Holds Good fun r => r.guard = none ∧ Good r.template
  stops _ := False
  fails e := ∃ u, e = .unwritable u

theorem preserves_unguarded (home : String) : (Coupling.unguarded Good).Preserves Good home := by
  refine preserves_of_holds (fun _ _ => Iff.rfl) (fun r holds => ?_)
    (fun _ unguarded _ template => ⟨unguarded, template⟩) (fun _ e _ => ?_)
    (fun {r a e} decided failed => ?_) home
  · exact ⟨Rule.decided_of_guard_eq_none holds.1, holds.2⟩
  · exact ⟨e, rfl⟩
  · exact absurd failed (Rule.Decided.apply_ne_error decided a e)

/-- Without guards evaluation does not end as a guard does. -/
theorem interpret_ne_guard (unguarded : ∀ s ∈ w.spaces, ∀ r ∈ s.rules, r.guard = none)
    (settings : Settings) (self : String) (a : Atom) (g : GuardFault) (w' : World) :
    interpret settings self a w ≠ .error (.guard g) w' := by
  intro failed
  have outcomes : (Coupling.unguarded fun _ => True).Outcomes _ _ _ :=
    interpret_pairs closed_all (preserves_unguarded self) settings (a := a) trivial w w
      ⟨rfl, World.holds_unguarded unguarded⟩
  rw [failed] at outcomes
  cases outcomes with
  | error _ fails =>
      obtain ⟨u, ⟨⟩⟩ := fails
  | stopped given => exact absurd given id

/-- Evaluation ends if it is late only where one is that ends. -/
theorem Ends.of_late {a' : Atom} (ends : Ends settings self a w)
    (unguarded : ∀ s ∈ w.spaces, ∀ r ∈ s.rules, r.guard = none)
    (late : ∀ late allowed w', counted late allowed settings self a' w = .error (.guard late) w' →
      ∃ w'', counted late allowed settings self a w = .error (.guard late) w'') :
    Ends settings self a' w := by
  have decided : ∀ r ∈ (w.space self).rules, r.Decided := fun r member =>
    Rule.decided_of_guard_eq_none
      (((World.holds_unguarded unguarded).space self).rules r member).1
  obtain ⟨allowed, ended⟩ := ends
  refine ⟨allowed, fun fault => ?_⟩
  refine (counted_eq_or_late decided fault allowed settings a').resolve_right ?_
  rintro ⟨w', failed⟩
  obtain ⟨w'', failed⟩ := late fault allowed w' failed
  rw [ended] at failed
  exact interpret_ne_guard unguarded settings self a fault w'' failed

/-- Where the first step cannot be reported evaluation ends there. -/
theorem ends_of_not_reportable (depth : 0 ≤ settings.maxDepth)
    (unwritable : ¬ Reportable settings a) : Ends settings self a w := by
  obtain ⟨e, written, ended⟩ : ∃ e, a.written = .error e ∧
      interpret settings self a w = .error (.unwritable e) w :=
    exists_unreported_interpret depth unwritable w
  refine ⟨0, fun late => ?_⟩
  let ctx : Context := ⟨settings, self, 0, (Handling.counted late 0 settings).reduce⟩
  have unwritable : ¬ Reportable ctx.settings a := unwritable
  have stepped (eval : Atom → Eval (List Atom)) : step ctx eval a w = .error (.unwritable e) w := by
    obtain ⟨e', written', failed⟩ : ∃ e, a.written = .error e ∧
        step ctx eval a w = .error (.unwritable e) w := exists_unreported_step unwritable w
    rw [written] at written'
    cases written'
    exact failed
  rw [ended, counted, levels_of_depth depth]
  exact stepped _

/-- **Without a NaN evaluation ends.**  Each of its loops goes round at most as often as a reduction
may contract. -/
theorem ends_of_nanFree (settings : Settings) (self : String) (free : a.NaNFree)
    (holds : w.Holds Atom.NaNFree fun r => r.guard = none ∧ r.template.NaNFree) :
    Ends settings self a w := by
  let limits : Reduce.Limits := { maxSteps := settings.maxSteps }
  refine ⟨limits.budget, fun late => ?_⟩
  have decided : ∀ r ∈ (w.space self).rules, r.Decided := fun r member =>
    Rule.decided_of_guard_eq_none ((holds.space self).rules r member).1
  refine (counted_eq_or_late decided late limits.budget settings a).resolve_right ?_
  rintro ⟨w', failed⟩
  have pairs : (Coupling.unguarded Atom.NaNFree).Answers Atom.NaNFree
      (counted late limits.budget settings self a) (interpret settings self a) := by
    refine evaluateWith_pairs 0 Atom.closed_nanFree (preserves_unguarded self) rfl
      (fun s a rules free => ?_) (fun _ a free => ?_) _ _ free
    · obtain ⟨a', rest, free', reduced, ended⟩ := Atom.exists_checked
        (fun r member => (rules r member).1) (fun r member => (rules r member).2) free limits
      rw [counted_reduce_of_checked (ended late), quiet_reduce_of_reduce reduced]
      exact pairs_pure free'
    · refine pairs_pure (List.forall_mem_singleton.mpr ?_)
      exact Atom.closed_nanFree.error _ a (deserved_depthFault _ a) free
  have outcomes := pairs w w ⟨rfl, holds⟩
  rw [failed] at outcomes
  generalize interpret settings self a w = r at outcomes
  cases outcomes with
  | error _ fails =>
      obtain ⟨u, ⟨⟩⟩ := fails
  | stopped given => exact absurd given id

/-- **A NaN keeps evaluation going.**  An expression whose head stands for nothing, with a NaN among
its members, is reduced for ever where no rule applies to anything, if a reduction may contract at
all. -/
theorem not_ends_of_nan {name : String} {args : List Atom} (plain : Head.ofName name = .plain)
    (still : ∀ a, Rule.contract (w.space self).rules a = .ok none)
    (nan : ∃ c ∈ args, c.isNaN = true) (steps : 0 < settings.maxSteps)
    (depth : 0 ≤ settings.maxDepth)
    (reportable : Reportable settings (.expr (.symbol name :: args))) :
    ¬ Ends settings self (.expr (.symbol name :: args)) w := by
  rintro ⟨allowed, ended⟩
  let limits : Reduce.Limits := { maxSteps := settings.maxSteps }
  obtain ⟨budget, steps⟩ : ∃ budget, limits.budget = budget + 1 :=
    ⟨limits.budget - 1, by simp only [limits, Reduce.Limits.budget]; omega⟩
  have late (fault : GuardFault) : ∃ log, counted fault allowed settings self
      (.expr (.symbol name :: args)) w = .error (.guard fault) { w with log } := by
    let handling : Handling := .counted fault allowed settings
    let ctx : Context := ⟨settings, self, 0, handling.reduce⟩
    let below := evaluateWith handling settings self settings.maxDepth.toNat 1
    obtain ⟨log, stepped⟩ : ∃ log, step ctx below (.expr (.symbol name :: args)) w =
        evalHead ctx below name args { w with log } := exists_step reportable w
    refine ⟨log, ?_⟩
    rw [counted, levels_of_depth depth]
    refine stepped.trans ?_
    rw [evalHead, plain]
    have looked : space self { w with log } = .ok (w.space self) { w with log } := rfl
    have endless : Reduce.checked fault (Rule.contract (w.space self).rules) allowed limits.levels
        limits.budget (.expr (.symbol name :: args)) = .error fault := by
      rw [steps]
      obtain ⟨c, member, isNaN⟩ := nan
      exact Reduce.checked_nan still ⟨c, .tail _ member, isNaN⟩
    refine (bind_of_ok looked).trans (bind_of_error ?_)
    show handling.reduce (w.space self) _ { w with log } = _
    rw [counted_reduce_of_late endless]
    rfl
  obtain ⟨log, first⟩ := late ⟨"a"⟩
  obtain ⟨log', second⟩ := late ⟨"b"⟩
  rw [ended] at first second
  rw [first] at second
  simp at second

end Eval

end Metta
