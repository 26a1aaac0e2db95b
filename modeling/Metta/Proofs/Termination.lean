/-
# Metta.Proofs.Termination -- every loop of a reduction ends

A reduction goes round at each atom until nothing changes or the budget is used up.
`Reduce.within` counts the rounds beforehand, by what is left of the budget, and one may ask
what it hides when the count runs out.  `Reduce.checked` has no such count.  It fails as
soon as a loop, at whatever level, wants more rounds than it is allowed.

The count hides nothing, whatever the rules do (`within_terminates`).  A round that is not
the last one has paid for a contraction, at the top or in a child: children that nothing
was paid for are as they were, and atoms without a NaN equal themselves.  A child that is a NaN
does not, and no number of rounds is enough for its parent (`checked_nan`).

So an atom is reduced to another (`Atom.ReducesTo`) if that is what is computed and some number
of rounds is enough for each loop.  A run leads there, and what is computed needs no mention
(`Atom.reducesTo_iff`); and without a NaN there always is such an atom (`Atom.exists_reducesTo`).
-/
import Metta.Proofs.Equality
import Metta.Proofs.Run

namespace Metta

set_option autoImplicit false

namespace Reduce

variable {ε : Type}

/-! ## Loops that are counted -/

/-- The loop at one atom, with its children reduced by `child`.  It goes round until nothing changes
or the budget is used up, and fails if that takes more than `allowed` rounds. -/
def loop (late : ε) (contract : Atom → Except ε (Option Atom))
    (child : Nat → Atom → Except ε (Atom × Nat)) :
    (allowed budget : Nat) → Atom → Except ε (Atom × Nat)
  | _, 0, a => return (a, 0)
  | 0, _ + 1, _ => throw late
  | n + 1, budget + 1, a => do
    match ← contract a with
    | some a' => loop late contract child n budget a'
    | none =>
      match a with
      | .expr cs =>
        let (cs', rest) ← children child (budget + 1) cs
        if Atom.sameAll cs' cs then return (a, rest)
        else loop late contract child n rest (.expr cs')
      | _ => return (a, budget + 1)

/-- Reduces an atom and what is nested in it, `levels` levels in all, with `allowed` rounds for each
loop. -/
def checked (late : ε) (contract : Atom → Except ε (Option Atom)) (allowed : Nat) :
    (levels budget : Nat) → Atom → Except ε (Atom × Nat)
  | 0, budget, a => return (a, budget)
  | levels + 1, budget, a =>
    loop late contract (checked late contract allowed levels) allowed budget a

/-! ## Rules that are any functions -/

/-- Contraction by the first function that takes the atom to another. -/
def firstOf (rules : List (Atom → Option Atom)) (a : Atom) : Except ε (Option Atom) :=
  .ok (rules.findSome? (· a))

variable {rules : List (Atom → Option Atom)}

/-- A list of rules contracts as the functions do that the rules are. -/
theorem contract_eq_firstOf {list : List Rule}
    (alike : List.Forall₂ (fun r f => ∀ a, r.apply a = .ok (f a)) list rules) :
    Rule.contract list = firstOf rules := by
  funext a
  induction alike with
  | nil => rfl
  | @cons r f list rules head tail ih =>
      rw [Rule.contract, head a, ih, firstOf, firstOf, List.findSome?_cons]
      cases f a <;> rfl

theorem firstOf_nanFree
    (keeps : ∀ r ∈ rules, ∀ a a', a.NaNFree → r a = some a' → a'.NaNFree) {a a' : Atom}
    (top : (firstOf rules a : Except ε _) = .ok (some a')) (free : a.NaNFree) : a'.NaNFree := by
  obtain ⟨r, member, applied⟩ := List.exists_of_findSome?_eq_some (Except.ok.inj top)
  exact keeps r member a a' free applied

/-! ## Runs that are counted -/

variable {late : ε} {contract : Atom → Except ε (Option Atom)}
  {reduce : Nat → Atom → Except ε (Atom × Nat)} {allowed levels budget rest : Nat}
  {a a' : Atom} {cs cs' : List Atom} {trace : Trace}

/-- Where a child came back unequal a contraction was paid for. -/
theorem Children.paid (run : Children (Run contract levels) budget cs trace cs' rest)
    (free : (Atom.expr cs).NaNFree) (changed : Atom.sameAll cs' cs = false) : rest < budget := by
  have paid := run.length_add Run.length_add
  refine Nat.lt_of_not_le fun unpaid => ?_
  obtain rfl : trace = [] := List.eq_nil_of_length_eq_zero (by omega)
  obtain rfl := run.eq_of_trace_nil (fun run => run.eq_of_trace_nil rfl) rfl
  simp [Atom.sameAll_self_iff.mpr free] at changed

/-- Where an atom came back unequal a contraction was paid for. -/
theorem Run.paid (run : Run contract levels budget a trace a' rest) (free : a.NaNFree)
    (changed : ¬ Atom.Same a' a) : rest < budget := by
  have paid := run.length_add
  refine Nat.lt_of_not_le fun unpaid => changed ?_
  obtain rfl : trace = [] := List.eq_nil_of_length_eq_zero (by omega)
  obtain rfl := run.eq_of_trace_nil rfl
  exact Atom.same_self_iff.mpr free

theorem Children.children_counted
    (run : Children (Run contract levels) budget cs trace cs' rest)
    (agrees : ∀ {budget a trace a' rest}, Run contract levels budget a trace a' rest → a.NaNFree →
      budget ≤ allowed → reduce budget a = .ok (a', rest))
    (free : ∀ c ∈ cs, c.NaNFree) (enough : budget ≤ allowed) :
    children reduce budget cs = .ok (cs', rest) := by
  induction run with
  | nil => rfl
  | cons head tail ih =>
      obtain ⟨first, others⟩ := List.forall_mem_cons.mp free
      have paid := head.length_add
      simp [children, agrees head first enough, ih others (by omega)]

/-- A loop goes round at most as often as the budget has steps. -/
theorem Run.loop_eq (keeps : ∀ {a a'}, contract a = .ok (some a') → a.NaNFree → a'.NaNFree)
    (agrees : ∀ {budget a trace a' rest}, Run contract levels budget a trace a' rest → a.NaNFree →
      budget ≤ allowed → reduce budget a = .ok (a', rest))
    (run : Run contract (levels + 1) budget a trace a' rest) (free : a.NaNFree)
    (enough : budget ≤ allowed) {n : Nat} (spare : budget ≤ n) :
    loop late contract reduce n budget a = .ok (a', rest) := by
  induction n generalizing budget a trace with
  | zero =>
      obtain rfl : budget = 0 := Nat.le_zero.mp spare
      cases run
      rfl
  | succ n ih =>
      cases run with
      | spent => rfl
      | contracted top go =>
          have left := ih go (keeps top free) (by omega) (by omega)
          simpa [loop, top] using left
      | leaf top leaf =>
          cases a' <;> first
            | exact absurd rfl leaf
            | simp [loop, top]
      | settled top below equal =>
          have frees := (Atom.leafwise_nanFree _).mp free
          have children := below.children_counted agrees frees enough
          simp [loop, top, children, equal]
      | restarted top below changed paid go =>
          have frees := (Atom.leafwise_nanFree _).mp free
          have children := below.children_counted agrees frees enough
          have stays := below.good (Run.good Atom.leafwise_nanFree keeps) frees
          have left := ih go ((Atom.leafwise_nanFree _).mpr stays) (by omega) (by omega)
          simp [loop, top, children, changed, left]
      | stalled top below unequal =>
          exact absurd (Atom.sameAll_self_iff.mpr free) (by simp [unequal])

/-- With as many rounds for each loop as the budget has steps, a reduction comes out as its run
does. -/
theorem Run.checked_eq (keeps : ∀ {a a'}, contract a = .ok (some a') → a.NaNFree → a'.NaNFree)
    (run : Run contract levels budget a trace a' rest) (free : a.NaNFree)
    (enough : budget ≤ allowed) :
    checked late contract allowed levels budget a = .ok (a', rest) := by
  induction levels generalizing budget a trace a' rest with
  | zero =>
      obtain ⟨-, rfl, rfl⟩ := run
      rfl
  | succ levels ih => exact run.loop_eq keeps ih free enough enough

/-! ## Loops that end -/

/-- Children for which nothing was paid, and which count as changed, do so in every round. -/
theorem loop_stalled (top : contract (.expr cs) = .ok none)
    (below : children reduce (budget + 1) cs = .ok (cs, budget + 1))
    (unequal : Atom.sameAll cs cs = false) (n : Nat) :
    loop late contract reduce n (budget + 1) (.expr cs) = .error late := by
  induction n with
  | zero => rfl
  | succ n ih => simpa [loop, top, below, unequal] using ih

theorem exists_children_of_ok {child : Course}
    (each : ∀ {budget a a' rest}, reduce budget a = .ok (a', rest) →
      ∃ trace, child budget a trace a' rest)
    (ended : children reduce budget cs = .ok (cs', rest)) :
    ∃ trace, Children child budget cs trace cs' rest := by
  induction cs generalizing budget cs' with
  | nil =>
      cases ended
      exact ⟨[], .nil⟩
  | cons c cs ih =>
      obtain ⟨⟨c', middle⟩, head, ended⟩ := bind_eq_ok.mp ended
      obtain ⟨⟨others, rest'⟩, tail, ended⟩ := bind_eq_ok.mp ended
      cases ended
      obtain ⟨first, run⟩ := each head
      obtain ⟨after, runs⟩ := ih tail
      exact ⟨_, .cons run runs⟩

/-- A loop that ends has made a run: where it starts over without having paid it never ends. -/
theorem exists_run_of_loop
    (each : ∀ {budget a a' rest}, reduce budget a = .ok (a', rest) →
      ∃ trace, Run contract levels budget a trace a' rest) {n : Nat}
    (ended : loop late contract reduce n budget a = .ok (a', rest)) :
    ∃ trace, Run contract (levels + 1) budget a trace a' rest := by
  induction n generalizing budget a with
  | zero =>
      cases budget <;> cases ended
      exact ⟨_, .spent⟩
  | succ n ih =>
      cases budget with
      | zero =>
          cases ended
          exact ⟨_, .spent⟩
      | succ budget =>
      obtain ⟨_ | b, top, next⟩ := bind_eq_ok.mp ended
      · by_cases isExpr : a.kind = .expression
        · obtain ⟨cs, rfl⟩ := Atom.kind_eq_expression.mp isExpr
          obtain ⟨⟨cs', middle⟩, below, next⟩ := bind_eq_ok.mp next
          obtain ⟨trace, children⟩ := exists_children_of_ok each below
          cases equal : Atom.sameAll cs' cs with
          | true =>
              simp only [equal] at next
              cases next
              exact ⟨_, .settled top children equal⟩
          | false =>
              simp only [equal] at next
              have paid := children.length_add Run.length_add
              cases trace with
              | nil =>
                  obtain rfl := children.eq_of_trace_nil (fun run => run.eq_of_trace_nil rfl) rfl
                  obtain rfl : middle = budget + 1 := by simpa using paid
                  rw [loop_stalled top below equal] at ended
                  cases ended
              | cons e trace =>
                  simp only [List.length_cons] at paid
                  obtain ⟨after, go⟩ := ih next
                  exact ⟨_, .restarted top children equal (by omega) go⟩
        · have leaf : a' = a ∧ rest = budget + 1 := by
            cases a <;> first
              | exact absurd rfl isExpr
              | cases next; exact ⟨rfl, rfl⟩
          obtain ⟨rfl, rfl⟩ := leaf
          exact ⟨_, .leaf top isExpr⟩
      · obtain ⟨trace, go⟩ := ih next
        exact ⟨_, Rounds.contracted top go⟩

theorem exists_run_of_checked
    (ended : checked late contract allowed levels budget a = .ok (a', rest)) :
    ∃ trace, Run contract levels budget a trace a' rest := by
  induction levels generalizing budget a a' rest with
  | zero =>
      cases ended
      exact ⟨[], rfl, rfl, rfl⟩
  | succ levels ih => exact exists_run_of_loop ih ended

section Total

variable (total : ∀ a, ∃ a'?, contract a = .ok a'?)

include total

theorem loop_endsIn
    (below : ∀ budget c, EndsIn (fun _ => True) (· = late) (reduce budget c)) (n budget : Nat)
    (a : Atom) : EndsIn (fun _ => True) (· = late) (loop late contract reduce n budget a) := by
  induction n generalizing budget a with
  | zero =>
      cases budget with
      | zero => trivial
      | succ budget => exact rfl
  | succ n ih =>
      cases budget with
      | zero => trivial
      | succ budget =>
      have first : EndsIn (fun _ => True) (· = late) (contract a) := by
        obtain ⟨a'?, top⟩ := total a
        rw [top]
        trivial
      refine first.bind fun a'? _ => ?_
      cases a'? with
      | some a' => exact ih budget a'
      | none =>
          cases a with
          | expr cs =>
              have children : EndsIn (fun r => ∀ c ∈ r.1, True) (· = late)
                  (children reduce (budget + 1) cs) :=
                children_endsIn (fun budget c _ => below budget c) _ fun _ _ => trivial
              refine children.bind fun r _ => ?_
              dsimp only
              split
              · trivial
              · exact ih r.2 _
          | _ => trivial

/-- Where contraction never fails the one fault is to be late. -/
theorem checked_endsIn (late : ε) (allowed levels budget : Nat) (a : Atom) :
    EndsIn (fun _ => True) (· = late) (checked late contract allowed levels budget a) := by
  induction levels generalizing budget a with
  | zero => trivial
  | succ levels ih => exact loop_endsIn total ih allowed budget a

end Total

/-- **The loops of a reduction end, whatever the rules do.**  Every call that a reduction within the
limits makes, with whatever levels and budget are left, comes to an atom; and it comes to the same
if no loop at any level may go round more than `maxSteps` times, let alone once more.  A call that
comes to an atom unequal to its own has paid for a contraction, and so has a round that finds a
child changed. -/
theorem within_terminates (late : ε) (rules : List (Atom → Option Atom))
    (keeps : ∀ r ∈ rules, ∀ a a', a.NaNFree → r a = some a' → a'.NaNFree) (limits : Limits)
    (levels : Nat) {budget : Nat} (within_budget : budget ≤ limits.budget) :
    (∀ a, a.NaNFree → ∃ a' rest, a'.NaNFree ∧
      within (firstOf rules) levels budget a = (.ok (a', rest) : Except ε _) ∧
      (∀ allowed : Nat, limits.maxSteps ≤ allowed →
        checked late (firstOf rules) allowed levels budget a = .ok (a', rest)) ∧
      rest ≤ budget ∧ (¬ Atom.Same a' a → rest < budget)) ∧
    ∀ cs, (∀ c ∈ cs, c.NaNFree) → ∃ cs' rest,
      children (within (firstOf rules) levels) budget cs = (.ok (cs', rest) : Except ε _) ∧
      rest ≤ budget ∧ (Atom.sameAll cs' cs = false → rest < budget) := by
  let contract : Atom → Except ε (Option Atom) := firstOf rules
  have stays : ∀ {a a'}, contract a = .ok (some a') → a.NaNFree → a'.NaNFree :=
    firstOf_nanFree keeps
  have every : ∀ budget a, ∃ trace a' rest, Run contract levels budget a trace a' rest :=
    exists_run (fun _ => ⟨_, rfl⟩) levels
  refine ⟨fun a free => ?_, fun cs free => ?_⟩
  · obtain ⟨trace, a', rest, run⟩ := every budget a
    have paid := run.length_add
    have good := run.good Atom.leafwise_nanFree stays free
    refine ⟨a', rest, good, run.within_eq, fun allowed enough => ?_, by omega, run.paid free⟩
    refine run.checked_eq stays free (Nat.le_trans within_budget ?_)
    unfold Limits.budget
    omega
  · obtain ⟨trace, cs', rest, run⟩ := exists_children every budget cs
    have paid := run.length_add Run.length_add
    have whole := (Atom.leafwise_nanFree cs).mpr free
    exact ⟨cs', rest, run.children_eq Run.within_eq, by omega, run.paid whole⟩

/-- The rule makes the atom grow for as long as it may. -/
theorem within_terminates_growing :
    let grow : Atom → Option Atom
      | .symbol "a" => some (.expr [.symbol "a", .symbol "a"])
      | _ => none
    let a : Atom := .symbol "a"
    let grown : Atom := .expr [.expr [.expr [a, a], a], a]
    let limits : Limits := { maxSteps := 3 }
    a.NaNFree ∧ ¬ Atom.Same grown a ∧
      within (firstOf [grow]) limits.levels limits.budget a =
        (.ok (grown, 0) : Except String _) ∧
      checked "late" (firstOf [grow]) 4 limits.levels limits.budget a = .ok (grown, 0) ∧
      0 < limits.budget := by
  intro grow a grown limits
  have free : a.NaNFree := by decide
  have keeps : ∀ r ∈ [grow], ∀ a a', a.NaNFree → r a = some a' → a'.NaNFree := by
    intro r member b b' _ applied
    obtain rfl := List.mem_singleton.mp member
    simp only [grow] at applied
    split at applied <;> cases applied
    decide
  obtain ⟨every, -⟩ := within_terminates "late" [grow] keeps limits limits.levels (Nat.le_refl _)
  obtain ⟨a', rest, -, reduced, counted, -, paid⟩ := every a free
  have unequal : ¬ Atom.Same grown a := by decide
  have run : within (firstOf [grow]) limits.levels limits.budget a =
      (.ok (grown, 0) : Except String _) := rfl
  rw [run] at reduced
  cases reduced
  exact ⟨free, unequal, run, counted 4 (by decide), paid unequal⟩

/-! ## What a NaN does -/

theorem children_still
    (each : ∀ budget c, reduce budget c = .ok (c, budget) ∨ reduce budget c = .error late)
    (budget : Nat) (cs : List Atom) :
    children reduce budget cs = .ok (cs, budget) ∨ children reduce budget cs = .error late := by
  induction cs with
  | nil => exact .inl rfl
  | cons c cs ih =>
      obtain head | head := each budget c
      · obtain tail | tail := ih
        · exact .inl (by simp [children, head, tail])
        · exact .inr (by simp [children, head, tail])
      · exact .inr (by simp [children, head])

section Still

variable (still : ∀ a, contract a = .ok none)

include still

theorem loop_still
    (each : ∀ budget c, reduce budget c = .ok (c, budget) ∨ reduce budget c = .error late)
    (n budget : Nat) (a : Atom) :
    loop late contract reduce n budget a = .ok (a, budget) ∨
      loop late contract reduce n budget a = .error late := by
  cases budget with
  | zero => exact .inl (by cases n <;> rfl)
  | succ budget =>
  induction n with
  | zero => exact .inr rfl
  | succ n ih =>
      cases a with
      | expr cs =>
          obtain children | children := children_still each (budget + 1) cs
          · cases equal : Atom.sameAll cs cs with
            | true => exact .inl (by simp [loop, still, children, equal])
            | false => simpa [loop, still, children, equal] using ih
          · exact .inr (by simp [loop, still, children])
      | _ => exact .inl (by simp [loop, still])

/-- Where nothing is contracted an atom stays as it is, unless some loop does not end. -/
theorem checked_still (levels budget : Nat) (a : Atom) :
    checked late contract allowed levels budget a = .ok (a, budget) ∨
      checked late contract allowed levels budget a = .error late := by
  induction levels generalizing budget a with
  | zero => exact .inl rfl
  | succ levels ih => exact loop_still still ih allowed budget a

/-- However many rounds it is allowed, the loop at an expression with a NaN among its children does
not end where nothing is contracted: the NaN counts as changed in every round, and nothing is paid
for. -/
theorem checked_nan (nan : ∃ c ∈ cs, c.isNaN = true) :
    checked late contract allowed (levels + 1) (budget + 1) (.expr cs) = .error late := by
  obtain ⟨c, member, isNaN⟩ := nan
  have leaf : c.kind ≠ .expression := by
    intro isExpr
    obtain ⟨ds, rfl⟩ := Atom.kind_eq_expression.mp isExpr
    cases isNaN
  have unequal : Atom.sameAll cs cs = false := by
    refine Bool.eq_false_iff.mpr fun equal => ?_
    have free := (Atom.leafwise_nanFree cs).mp (Atom.sameAll_self_iff.mp equal) c member
    rw [(Atom.nanFree_leaf leaf).mp free] at isNaN
    cases isNaN
  obtain children | children : children (checked late contract allowed levels) (budget + 1) cs =
        .ok (cs, budget + 1) ∨
      children (checked late contract allowed levels) (budget + 1) cs = .error late :=
    children_still (checked_still still levels) _ _
  · exact loop_stalled (still _) children unequal allowed
  · cases allowed with
    | zero => rfl
    | succ n => simp [checked, loop, still, children]

end Still

end Reduce

/-! ## Reductions that end -/

namespace Atom

open Reduce

variable {rules rules' : List Rule} {limits : Limits} {a a' : Atom}

/-- The atom is reduced to `a'`.  That is what is computed, and no loop was cut off on the way, since
some number of rounds is enough for each.  Where a loop has no end there is no such atom. -/
def ReducesTo (rules : List Rule) (limits : Limits) (a a' : Atom) : Prop :=
  a.reduce rules limits = .ok a' ∧ ∃ allowed rest, ∀ late : GuardFault,
    checked late (Rule.contract rules) allowed limits.levels limits.budget a = .ok (a', rest)

theorem exists_run_of_ended {allowed rest : Nat} (ended : ∀ late : GuardFault,
      checked late (Rule.contract rules) allowed limits.levels limits.budget a = .ok (a', rest)) :
    ∃ trace, Run (Rule.contract rules) limits.levels limits.budget a trace a' rest :=
  exists_run_of_checked (ended ⟨""⟩)

/-- What a reduction comes to that ends is what is computed. -/
theorem reducesTo_iff : a.ReducesTo rules limits a' ↔ ∃ allowed rest, ∀ late : GuardFault,
    checked late (Rule.contract rules) allowed limits.levels limits.budget a = .ok (a', rest) := by
  refine and_iff_right_of_imp ?_
  rintro ⟨allowed, rest, ended⟩
  obtain ⟨trace, run⟩ := exists_run_of_ended ended
  exact run.reduce_eq

theorem ReducesTo.exists_run (ends : a.ReducesTo rules limits a') : ∃ trace rest,
    Run (Rule.contract rules) limits.levels limits.budget a trace a' rest := by
  obtain ⟨-, allowed, rest, ended⟩ := ends
  obtain ⟨trace, run⟩ := exists_run_of_ended ended
  exact ⟨trace, rest, run⟩

/-- Rules that apply alike reduce alike: to the same atom, or for ever. -/
theorem reducesTo_congr (same : List.Forall₂ (fun r r' => r.apply = r'.apply) rules rules') :
    a.ReducesTo rules limits a' ↔ a.ReducesTo rules' limits a' := by
  rw [reducesTo_iff, reducesTo_iff, Rule.contract_congr same]

/-- Without a NaN in the atom and in the templates no loop is late that may go round as often as the
budget has steps. -/
theorem exists_checked (decided : ∀ r ∈ rules, r.Decided)
    (templates : ∀ r ∈ rules, r.template.NaNFree) (free : a.NaNFree) (limits : Limits) :
    ∃ a' rest, a'.NaNFree ∧ a.reduce rules limits = .ok a' ∧ ∀ late : GuardFault,
      checked late (Rule.contract rules) limits.budget limits.levels limits.budget a =
        .ok (a', rest) := by
  obtain ⟨trace, a', rest, run⟩ := exists_rule_run decided limits a
  have keeps {b b' : Atom} (top : Rule.contract rules b = .ok (some b')) (free : b.NaNFree) :
      b'.NaNFree := Rule.contract_good leafwise_nanFree templates free top
  exact ⟨a', rest, run.good leafwise_nanFree keeps free, run.reduce_eq,
    fun late => run.checked_eq keeps free (Nat.le_refl _)⟩

theorem exists_reducesTo (decided : ∀ r ∈ rules, r.Decided)
    (templates : ∀ r ∈ rules, r.template.NaNFree) (free : a.NaNFree) (limits : Limits) :
    ∃ a', a.ReducesTo rules limits a' := by
  obtain ⟨a', rest, -, reduced, ended⟩ := exists_checked decided templates free limits
  exact ⟨a', reduced, limits.budget, rest, ended⟩

/-- With a NaN among its members an expression is reduced for ever, where nothing applies to it. -/
theorem not_reducesTo_of_nan {cs : List Atom} (still : ∀ a, Rule.contract rules a = .ok none)
    (nan : ∃ c ∈ cs, c.isNaN = true) (steps : 0 < limits.maxSteps) (depth : 0 ≤ limits.maxDepth) :
    ¬ (expr cs).ReducesTo rules limits a' := by
  rintro ⟨-, allowed, rest, ended⟩
  obtain ⟨budget, steps⟩ : ∃ budget, limits.budget = budget + 1 :=
    ⟨limits.budget - 1, by unfold Limits.budget; omega⟩
  obtain ⟨levels, depth⟩ : ∃ levels, limits.levels = levels + 1 :=
    ⟨limits.levels - 1, by unfold Limits.levels; omega⟩
  have late := ended ⟨""⟩
  rw [steps, depth, checked_nan still nan] at late
  cases late

end Atom

end Metta
