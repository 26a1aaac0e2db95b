/-
# Metta.Proofs.NormalForm -- a reduction with budget to spare ends in a normal form

An atom is normal to some number of levels (`Reduce.Normal`) when nothing in these
levels can be contracted.  A run that leaves some of its budget ends in such an atom
(`Run.normal`).  Its last round keeps the children as they were, not as they were
reduced, because the two are equal; so the argument needs that equal atoms are
contracted alike.  A normal atom is its own reduct under any budget (`Normal.run`).

How much was to spare does not matter.  Any other budget that pays for the contractions
made leads to the same atom by the same contractions, and it may end with the last of
them (`Atom.reduceCounting_spare`).
-/
import Metta.Proofs.Run
import Metta.Proofs.Equality

namespace Metta

set_option autoImplicit false

namespace Reduce

variable {ε : Type} {contract : Atom → Except ε (Option Atom)} {levels : Nat}

/-- Nothing in the first `levels` levels of nesting can be contracted. -/
def Normal (contract : Atom → Except ε (Option Atom)) (levels : Nat) (a : Atom) : Prop :=
  ∀ depth part, depth < levels → Atom.Occurs depth part a → contract part = .ok none

/-- Of two equal atoms both can be contracted or neither. -/
def Respectful (contract : Atom → Except ε (Option Atom)) : Prop :=
  ∀ a a', Atom.Same a a' → contract a = .ok none → contract a' = .ok none

theorem normal_zero (a : Atom) : Normal contract 0 a :=
  fun _ _ low => absurd low (Nat.not_lt_zero _)

theorem normal_expr {cs : List Atom} : Normal contract (levels + 1) (.expr cs) ↔
    contract (.expr cs) = .ok none ∧ ∀ c ∈ cs, Normal contract levels c := by
  constructor
  · intro normal
    refine ⟨normal 0 _ (Nat.succ_pos _) (.root _), fun c member depth part low inside => ?_⟩
    exact normal (depth + 1) part (Nat.succ_lt_succ low) (.child member inside)
  · rintro ⟨top, below⟩ depth part low inside
    cases inside with
    | root => exact top
    | child member inside => exact below _ member _ _ (Nat.lt_of_succ_lt_succ low) inside

theorem normal_leaf {a : Atom} (leaf : a.kind ≠ .expression) :
    Normal contract (levels + 1) a ↔ contract a = .ok none := by
  constructor
  · intro normal
    exact normal 0 a (Nat.succ_pos _) (.root a)
  · intro top depth part _ inside
    cases inside with
    | root => exact top
    | child => exact absurd rfl leaf

theorem Normal.congr (respectful : Respectful contract) {a a' : Atom} (equal : Atom.Same a a')
    (normal : Normal contract levels a) : Normal contract levels a' := by
  induction levels generalizing a a' with
  | zero => exact normal_zero a'
  | succ levels ih =>
      by_cases isExpr : a.kind = .expression
      · obtain ⟨cs, rfl⟩ := Atom.kind_eq_expression.mp isExpr
        obtain ⟨ds, rfl⟩ := Atom.kind_eq_expression.mp (equal.kind_eq ▸ isExpr)
        obtain ⟨top, below⟩ := normal_expr.mp normal
        refine normal_expr.mpr ⟨respectful _ _ equal top, ?_⟩
        exact Atom.forall_mem_of_same (Atom.same_expr.mp equal) (fun _ _ => ih) below
      · rw [normal_leaf isExpr] at normal
        rw [normal_leaf (equal.kind_eq ▸ isExpr)]
        exact respectful _ _ equal normal

variable {child : Course} {budget rest : Nat} {a a' : Atom} {cs cs' : List Atom} {trace : Trace}

theorem Children.normal (run : Children child budget cs trace cs' rest)
    (pays : ∀ {budget a trace a' rest}, child budget a trace a' rest → trace.length + rest = budget)
    (settles : ∀ {budget a trace a' rest}, child budget a trace a' rest → a.NaNFree → 0 < rest →
      Normal contract levels a')
    (free : ∀ c ∈ cs, c.NaNFree) (spare : 0 < rest) : ∀ c ∈ cs', Normal contract levels c := by
  induction run with
  | nil => simp
  | cons head tail ih =>
      obtain ⟨first, others⟩ := List.forall_mem_cons.mp free
      have := tail.length_add pays
      exact List.forall_mem_cons.mpr ⟨settles head first (by omega), ih others spare⟩

/-- What is left of the budget shows that nothing was left to contract. -/
theorem Run.normal (respectful : Respectful contract)
    (keeps : ∀ {a a'}, contract a = .ok (some a') → a.NaNFree → a'.NaNFree)
    (run : Run contract levels budget a trace a' rest) (free : a.NaNFree) (spare : 0 < rest) :
    Normal contract levels a' := by
  induction levels generalizing budget a trace a' rest with
  | zero => exact normal_zero a'
  | succ levels ih =>
      induction run with
      | spent => exact absurd spare (Nat.lt_irrefl 0)
      | contracted top go again => exact again (keeps top free) spare
      | leaf top leaf => exact (normal_leaf leaf).mpr top
      | settled top below equal =>
          have reduced := below.normal Run.length_add ih ((Atom.leafwise_nanFree _).mp free) spare
          have children := Atom.sameAll_iff.mp equal
          refine normal_expr.mpr ⟨top, Atom.forall_mem_of_same children ?_ reduced⟩
          exact fun _ _ same normal => normal.congr respectful same
      | restarted top children changed paid go again =>
          refine again ((Atom.leafwise_nanFree _).mpr ?_) spare
          exact children.good (Run.good Atom.leafwise_nanFree keeps)
            ((Atom.leafwise_nanFree _).mp free)
      | stalled top below unequal =>
          exact absurd (Atom.sameAll_self_iff.mpr free) (by simp [unequal])

theorem Children.idle (still : ∀ c ∈ cs, child budget c [] c budget) :
    Children child budget cs [] cs budget := by
  induction cs with
  | nil => exact .nil
  | cons c cs ih =>
      obtain ⟨first, others⟩ := List.forall_mem_cons.mp still
      exact .cons first (ih others)

/-- A normal atom is its own reduct, and costs nothing. -/
theorem Normal.run (normal : Normal contract levels a) (free : a.NaNFree) (budget : Nat) :
    Run contract levels budget a [] a budget := by
  induction levels generalizing a with
  | zero => exact ⟨rfl, rfl, rfl⟩
  | succ levels ih =>
      cases budget with
      | zero => exact .spent
      | succ budget =>
      by_cases isExpr : a.kind = .expression
      · obtain ⟨cs, rfl⟩ := Atom.kind_eq_expression.mp isExpr
        obtain ⟨top, below⟩ := normal_expr.mp normal
        have children := (Atom.leafwise_nanFree cs).mp free
        have equal := Atom.sameAll_self_iff.mpr free
        exact .settled top (.idle fun c member => ih (below c member) (children c member)) equal
      · exact .leaf ((normal_leaf isExpr).mp normal) isExpr

end Reduce

namespace Rule

/-- Equal atoms are contracted by rules without guards and NaNs, or neither is. -/
theorem contract_respectful {rules : List Rule} (unguarded : ∀ r ∈ rules, r.guard = none)
    (free : ∀ r ∈ rules, r.pattern.NaNFree ∧ r.template.NaNFree) :
    Reduce.Respectful (contract rules) := by
  have alike : List.Forall₂ Alike rules rules := List.forall₂_same.mpr fun r member => {
    unguarded := unguarded r member
    unguarded' := unguarded r member
    pattern := Atom.same_self_iff.mpr (free r member).1
    template := Atom.same_self_iff.mpr (free r member).2 }
  intro a a' equal stuck
  obtain ⟨x, x', contracted, contracted', related⟩ := contract_alike alike equal
  rw [stuck, Except.ok.injEq] at contracted
  subst contracted
  cases related
  exact contracted'

end Rule

namespace Atom

/-- **A reduction that does not use up its budget ends in a normal form.**  No rule applies to any
part of the reduct within the nesting depth, so that reducing it again, with whatever budget, makes
no contraction and gives it back. -/
theorem reduceCounting_normal (rules : List Rule) (limits : Reduce.Limits) (a : Atom)
    (unguarded : ∀ r ∈ rules, r.guard = none)
    (rulesFree : ∀ r ∈ rules, r.pattern.NaNFree ∧ r.template.NaNFree) (free : a.NaNFree) :
    ∃ a' count, a.reduceCounting rules limits = .ok (a', count) ∧
      ((count : Int) < limits.maxSteps →
        (∀ (depth : Nat) part, (depth : Int) ≤ limits.maxDepth → Occurs depth part a' →
          ∀ r ∈ rules, r.apply part = .ok none) ∧
        ∀ maxSteps, a'.reduceCounting rules { limits with maxSteps } = .ok (a', 0)) := by
  have decided := fun r member => Rule.decided_of_guard_eq_none (unguarded r member)
  have keeps : ∀ {a a'}, Rule.contract rules a = .ok (some a') → a.NaNFree → a'.NaNFree :=
    fun top free => Rule.contract_good leafwise_nanFree (fun r member => (rulesFree r member).2)
      free top
  obtain ⟨trace, a', rest, run⟩ := Reduce.exists_rule_run decided limits a
  refine ⟨a', trace.length, run.reduceCounting_eq, fun fewer => ?_⟩
  have paid := run.length_add
  have spare : 0 < rest := by
    unfold Reduce.Limits.budget at paid
    omega
  have respectful := Rule.contract_respectful unguarded rulesFree
  have normal := run.normal respectful keeps free spare
  constructor
  · intro depth part low inside
    have level : depth < limits.levels := by
      unfold Reduce.Limits.levels
      omega
    exact Rule.contract_eq_none_iff.mp (normal depth part level inside)
  · intro maxSteps
    let limits' : Reduce.Limits := { limits with maxSteps }
    have good := run.good leafwise_nanFree keeps free
    have idle : Reduce.Run (Rule.contract rules) limits'.levels limits'.budget a' [] a' _ :=
      normal.run good _
    exact idle.reduceCounting_eq

/-- `(g (f 1) 1.0)` is stuck at the top until `(f 1)` has become `1`, which equals `1.0`. -/
theorem reduceCounting_normal_repeated :
    let f (a : Atom) : Atom := .expr [.symbol "f", a]
    let one : Atom := ofScalar (.int 1)
    let rules : List Rule := [
      ⟨"unwrap", f (.var "x" none), .var "x" none, none, 0⟩,
      ⟨"join", .expr [.symbol "g", .var "x" none, .var "x" none], .var "x" none, none, 0⟩]
    let a : Atom := .expr [.symbol "g", f one, ofScalar (.float 1.0)]
    a.reduceCounting rules {} = .ok (one, 2) ∧
      (∀ (depth : Nat) part, (depth : Int) ≤ 64 → Occurs depth part one →
        ∀ r ∈ rules, r.apply part = .ok none) ∧
      ∀ maxSteps, one.reduceCounting rules { maxSteps } = .ok (one, 0) := by
  intro f one rules a
  have run : a.reduceCounting rules {} = .ok (one, 2) := rfl
  obtain ⟨a', count, reduced, normal⟩ :=
    reduceCounting_normal rules {} a (by decide) (by decide) (by decide)
  rw [run] at reduced
  cases reduced
  exact ⟨run, normal (by decide)⟩

/-- **A budget to spare does not matter.**  Where a reduction makes fewer contractions than it may,
it comes to the identical atom, with as many contractions, under every budget that pays for these,
whether more is left of it or nothing. -/
theorem reduceCounting_spare (rules : List Rule) (limits : Reduce.Limits) (a : Atom)
    (decided : ∀ r ∈ rules, r.Decided) :
    ∃ a' count, a.reduceCounting rules limits = .ok (a', count) ∧
      ((count : Int) < limits.maxSteps → ∀ maxSteps : Int, (count : Int) ≤ maxSteps →
        a.reduceCounting rules { limits with maxSteps } = .ok (a', count) ∧
        a.reduce rules { limits with maxSteps } = .ok a') := by
  obtain ⟨trace, a', rest, run⟩ := Reduce.exists_rule_run decided limits a
  refine ⟨a', trace.length, run.reduceCounting_eq, ?_⟩
  intro fewer maxSteps enough
  have paid := run.length_add
  have spare : 0 < rest := by
    unfold Reduce.Limits.budget at paid
    omega
  let limits' : Reduce.Limits := { limits with maxSteps }
  have budget : trace.length + (limits'.budget - trace.length) = limits'.budget := by
    simp only [limits', Reduce.Limits.budget]
    omega
  have again := run.leaving spare (limits'.budget - trace.length)
  rw [budget] at again
  have levels : limits'.levels = limits.levels := rfl
  rw [← levels] at again
  exact ⟨again.reduceCounting_eq, again.reduce_eq⟩

/-- The only contraction is made in a child, which comes back equal and is dropped.  With a budget of
one it is the last thing that happens. -/
theorem reduceCounting_spare_dropped :
    let whole : Guard := Guard.boundTo "x" fun
      | .literal ⟨.int _, _⟩ => true
      | _ => false
    let rules : List Rule :=
      [⟨"widen", .var "x" none, ofScalar (.float 2), some whole, 0⟩]
    let a : Atom := .expr [.symbol "g", ofScalar (.int 2)]
    (∀ r ∈ rules, r.Decided) ∧ a.reduceCounting rules {} = .ok (a, 1) ∧
      a.reduceCounting rules { maxSteps := 1 } = .ok (a, 1) := by
  intro whole rules a
  have decided : ∀ r ∈ rules, r.Decided := by
    intro r member b
    obtain rfl := List.mem_singleton.mp member
    exact ⟨_, rfl⟩
  have run : a.reduceCounting rules {} = .ok (a, 1) := rfl
  obtain ⟨a', count, reduced, spare⟩ := reduceCounting_spare rules {} a decided
  rw [run] at reduced
  cases reduced
  exact ⟨decided, run, (spare (by decide) 1 (by decide)).1⟩

end Atom

end Metta
