/-
# Metta.Proofs.Run -- the runs of the reduction schedule

`Reduce.within` computes with a count of rounds.  A run (`Reduce.Run`) says what it does
without one: which contractions are made, in which order, at whatever depth, also those
in children that are thrown away again because they came back equal.  The budget pays
for exactly these contractions (`Run.length_add`).

Every atom has a run (`exists_run`), by induction on the budget: a round that starts
over has paid for a contraction, unless the children differ from themselves.  That only
a NaN does; such a run is stalled, and changes nothing however many rounds it is given: it
stands for a loop without an end.
What is reduced is the outcome of the run (`Run.within_eq`).

A contraction that fails leaves no run; where a reduction can go is then told from the
computation itself (`within_endsIn`).
-/
import Metta.Proofs.Closure
import Metta.Reduce

namespace Metta.Reduce

set_option autoImplicit false

/-! ## Runs -/

/-- The contractions of a run in their order, each as an atom and what took its place. -/
abbrev Trace := List (Atom × Atom)

/-- A way to reduce an atom: from a budget and an atom, by a trace, to an atom and what is left of
the budget. -/
abbrev Course := Nat → Atom → Trace → Atom → Nat → Prop

/-- Children reduced from left to right out of one budget. -/
inductive Children (child : Course) : Nat → List Atom → Trace → List Atom → Nat → Prop
  | nil {budget : Nat} : Children child budget [] [] [] budget
  | cons {budget middle rest : Nat} {c c' : Atom} {cs cs' : List Atom} {first others : Trace}
      (head : child budget c first c' middle) (tail : Children child middle cs others cs' rest) :
      Children child budget (c :: cs) (first ++ others) (c' :: cs') rest

variable {ε : Type}

/-- The rounds at one atom, with its children reduced by `child`. -/
inductive Rounds (contract : Atom → Except ε (Option Atom)) (child : Course) : Course
  | spent {a : Atom} : Rounds contract child 0 a [] a 0
  | contracted {budget rest : Nat} {a a' a'' : Atom} {trace : Trace}
      (top : contract a = .ok (some a')) (go : Rounds contract child budget a' trace a'' rest) :
      Rounds contract child (budget + 1) a ((a, a') :: trace) a'' rest
  | leaf {budget : Nat} {a : Atom} (top : contract a = .ok none) (leaf : a.kind ≠ .expression) :
      Rounds contract child (budget + 1) a [] a (budget + 1)
  /-- No child changed; what was done to them is dropped. -/
  | settled {budget rest : Nat} {cs cs' : List Atom} {trace : Trace}
      (top : contract (.expr cs) = .ok none)
      (below : Children child (budget + 1) cs trace cs' rest)
      (equal : Atom.sameAll cs' cs = true) :
      Rounds contract child (budget + 1) (.expr cs) trace (.expr cs) rest
  | restarted {budget middle rest : Nat} {a : Atom} {cs cs' : List Atom} {below after : Trace}
      (top : contract (.expr cs) = .ok none)
      (children : Children child (budget + 1) cs below cs' middle)
      (changed : Atom.sameAll cs' cs = false) (paid : middle ≤ budget)
      (go : Rounds contract child middle (.expr cs') after a rest) :
      Rounds contract child (budget + 1) (.expr cs) (below ++ after) a rest
  /-- The children differ from themselves. -/
  | stalled {budget : Nat} {cs : List Atom} (top : contract (.expr cs) = .ok none)
      (below : Children child (budget + 1) cs [] cs (budget + 1))
      (unequal : Atom.sameAll cs cs = false) :
      Rounds contract child (budget + 1) (.expr cs) [] (.expr cs) (budget + 1)

/-- A run on an atom and what is nested in it, `levels` levels in all. -/
def Run (contract : Atom → Except ε (Option Atom)) : (levels : Nat) → Course
  | 0 => fun budget a trace a' rest => trace = [] ∧ a' = a ∧ rest = budget
  | levels + 1 => Rounds contract (Run contract levels)

variable {contract : Atom → Except ε (Option Atom)} {child : Course}
  {levels budget rest : Nat} {a a' : Atom} {cs cs' : List Atom} {trace : Trace}

/-! ## What a run pays for -/

theorem Children.length_add (run : Children child budget cs trace cs' rest)
    (pays : ∀ {budget a trace a' rest}, child budget a trace a' rest →
      trace.length + rest = budget) : trace.length + rest = budget := by
  induction run with
  | nil => simp
  | cons head tail ih =>
      have := pays head
      simp only [List.length_append]
      omega

/-- The budget pays for every contraction, and for nothing else. -/
theorem Run.length_add (run : Run contract levels budget a trace a' rest) :
    trace.length + rest = budget := by
  induction levels generalizing budget a trace a' rest with
  | zero =>
      obtain ⟨rfl, -, rfl⟩ := run
      simp
  | succ levels ih =>
      induction run with
      | spent => rfl
      | contracted top go again =>
          simp only [List.length_cons]
          omega
      | leaf => simp
      | settled top below equal => exact below.length_add ih
      | restarted top children changed paid go again =>
          have := children.length_add ih
          simp only [List.length_append]
          omega
      | stalled => simp

theorem Children.contracted (run : Children child budget cs trace cs' rest)
    (made : ∀ {budget a trace a' rest}, child budget a trace a' rest →
      ∀ e ∈ trace, contract e.1 = .ok (some e.2)) :
    ∀ e ∈ trace, contract e.1 = .ok (some e.2) := by
  induction run with
  | nil => simp
  | cons head tail ih => exact List.forall_mem_append.mpr ⟨made head, ih⟩

/-- Every entry of the trace is a contraction. -/
theorem Run.contracted (run : Run contract levels budget a trace a' rest) :
    ∀ e ∈ trace, contract e.1 = .ok (some e.2) := by
  induction levels generalizing budget a trace a' rest with
  | zero =>
      obtain ⟨rfl, -, -⟩ := run
      simp
  | succ levels ih =>
      induction run with
      | spent => simp
      | contracted top go again => exact List.forall_mem_cons.mpr ⟨top, again⟩
      | leaf => simp
      | settled top below equal => exact below.contracted ih
      | restarted top children changed paid go again =>
          exact List.forall_mem_append.mpr ⟨children.contracted ih, again⟩
      | stalled => simp

theorem Children.eq_of_trace_nil (run : Children child budget cs trace cs' rest)
    (idle : ∀ {budget a a' rest}, child budget a [] a' rest → a' = a)
    (nothing : trace = []) : cs' = cs := by
  induction run with
  | nil => rfl
  | cons head tail ih =>
      obtain ⟨rfl, rfl⟩ := List.append_eq_nil_iff.mp nothing
      rw [idle head, ih rfl]

/-- Without a contraction nothing changes. -/
theorem Run.eq_of_trace_nil (run : Run contract levels budget a trace a' rest)
    (nothing : trace = []) : a' = a := by
  induction levels generalizing budget a trace a' rest with
  | zero => exact run.2.1
  | succ levels ih =>
      induction run with
      | contracted => cases nothing
      | restarted top children changed paid go again =>
          obtain ⟨rfl, rfl⟩ := List.append_eq_nil_iff.mp nothing
          rw [again rfl, children.eq_of_trace_nil (fun run => ih run rfl) rfl]
      | _ => rfl

/-! ## Where a run can go -/

theorem Children.good {Good : Atom → Prop} (run : Children child budget cs trace cs' rest)
    (keeps : ∀ {budget a trace a' rest}, child budget a trace a' rest → Good a → Good a')
    (goods : ∀ c ∈ cs, Good c) : ∀ c ∈ cs', Good c := by
  induction run with
  | nil => exact goods
  | cons head tail ih =>
      obtain ⟨first, others⟩ := List.forall_mem_cons.mp goods
      exact List.forall_mem_cons.mpr ⟨keeps head first, ih others⟩

/-- A run stays in a leafwise class that contractions stay in. -/
theorem Run.good {Good : Atom → Prop} (leafwise : Atom.Leafwise Good)
    (keeps : ∀ {a a'}, contract a = .ok (some a') → Good a → Good a')
    (run : Run contract levels budget a trace a' rest) (good : Good a) : Good a' := by
  induction levels generalizing budget a trace a' rest with
  | zero => exact run.2.1 ▸ good
  | succ levels ih =>
      induction run with
      | contracted top go again => exact again (keeps top good)
      | restarted top children changed paid go again =>
          exact again ((leafwise _).mpr (children.good ih ((leafwise _).mp good)))
      | _ => exact good

/-! ## Budgets -/

theorem Children.leaving (run : Children child budget cs trace cs' rest)
    (pays : ∀ {budget a trace a' rest}, child budget a trace a' rest → trace.length + rest = budget)
    (anew : ∀ {budget a trace a' rest}, child budget a trace a' rest → 0 < rest →
      ∀ rest', child (trace.length + rest') a trace a' rest')
    (spare : 0 < rest) (rest' : Nat) :
    Children child (trace.length + rest') cs trace cs' rest' := by
  induction run with
  | nil =>
      rw [List.length_nil, Nat.zero_add]
      exact .nil
  | cons head tail ih =>
      have := tail.length_add pays
      rw [List.length_append, Nat.add_assoc]
      exact .cons (anew head (by omega) _) (ih spare)

/-- A run that leaves some of its budget makes the same contractions with any budget that pays for
them, also if that leaves nothing. -/
theorem Run.leaving (run : Run contract levels budget a trace a' rest) (spare : 0 < rest)
    (rest' : Nat) : Run contract levels (trace.length + rest') a trace a' rest' := by
  induction levels generalizing budget a trace a' rest rest' with
  | zero =>
      obtain ⟨rfl, rfl, rfl⟩ := run
      exact ⟨rfl, rfl, (Nat.zero_add rest').symm⟩
  | succ levels ih =>
      induction run with
      | spent => exact absurd spare (Nat.lt_irrefl 0)
      | contracted top go again =>
          rw [List.length_cons, Nat.add_right_comm]
          exact Rounds.contracted top (again spare)
      | leaf top leaf =>
          rw [List.length_nil, Nat.zero_add]
          cases rest' with
          | zero => exact .spent
          | succ rest' => exact .leaf top leaf
      | @settled _ _ cs cs' trace top below equal =>
          have again := below.leaving Run.length_add ih spare rest'
          -- with no budget at all nothing is looked at
          cases total : trace.length + rest' with
          | zero =>
              obtain ⟨nothing, rfl⟩ := Nat.add_eq_zero_iff.mp total
              obtain rfl := List.eq_nil_of_length_eq_zero nothing
              exact .spent
          | succ budget' =>
              rw [total] at again
              exact .settled top again equal
      | @restarted budget middle _ _ _ _ below after top children changed paid go again =>
          have left := Run.length_add (show Run contract (levels + 1) _ _ _ _ _ from go)
          have made := children.length_add Run.length_add
          have anew := children.leaving Run.length_add ih (by omega) (after.length + rest')
          obtain ⟨count, counted⟩ : ∃ count, below.length = count + 1 :=
            Nat.exists_eq_add_one.mpr (by omega)
          rw [counted, Nat.add_right_comm] at anew
          rw [List.length_append, Nat.add_assoc, counted, Nat.add_right_comm]
          exact Rounds.restarted top anew changed (by omega) (again spare)
      | stalled top below unequal =>
          have again := below.leaving Run.length_add ih (Nat.succ_pos _) rest'
          rw [List.length_nil, Nat.zero_add] at again ⊢
          cases rest' with
          | zero => exact .spent
          | succ rest' => exact .stalled top again unequal

/-! ## Runs and what is computed -/

theorem exists_children (every : ∀ budget a, ∃ trace a' rest, child budget a trace a' rest)
    (budget : Nat) (cs : List Atom) :
    ∃ trace cs' rest, Children child budget cs trace cs' rest := by
  induction cs generalizing budget with
  | nil => exact ⟨_, _, _, .nil⟩
  | cons c cs ih =>
      obtain ⟨first, c', middle, head⟩ := every budget c
      obtain ⟨others, cs', rest, tail⟩ := ih middle
      exact ⟨_, _, _, .cons head tail⟩

/-- Where contraction never fails every atom has a run. -/
theorem exists_run (total : ∀ a, ∃ a'?, contract a = .ok a'?) (levels budget : Nat) (a : Atom) :
    ∃ trace a' rest, Run contract levels budget a trace a' rest := by
  induction levels generalizing budget a with
  | zero => exact ⟨[], a, budget, rfl, rfl, rfl⟩
  | succ levels ih =>
      induction budget using Nat.strongRecOn generalizing a with
      | ind budget again =>
      cases budget with
      | zero => exact ⟨_, _, _, .spent⟩
      | succ budget =>
      obtain ⟨_ | a', top⟩ := total a
      · by_cases isExpr : a.kind = .expression
        · obtain ⟨cs, rfl⟩ := Atom.kind_eq_expression.mp isExpr
          obtain ⟨below, cs', middle, children⟩ := exists_children ih (budget + 1) cs
          have paid := children.length_add Run.length_add
          cases equal : Atom.sameAll cs' cs with
          | true => exact ⟨_, _, _, .settled top children equal⟩
          | false =>
              -- with nothing paid the children are as they were, and yet they count as changed
              cases below with
              | nil =>
                  obtain rfl := children.eq_of_trace_nil (fun run => run.eq_of_trace_nil rfl) rfl
                  obtain rfl : middle = budget + 1 := by simpa using paid
                  exact ⟨_, _, _, .stalled top children equal⟩
              | cons e below =>
                  simp only [List.length_cons] at paid
                  obtain ⟨after, a', rest, go⟩ := again middle (by omega) (.expr cs')
                  exact ⟨_, _, _, .restarted top children equal (by omega) go⟩
        · exact ⟨_, _, _, .leaf top isExpr⟩
      · obtain ⟨trace, a'', rest, go⟩ := again budget (Nat.lt_succ_self _) a'
        exact ⟨_, _, _, Rounds.contracted top go⟩

variable {reduce : Nat → Atom → Except ε (Atom × Nat)}

theorem Children.children_eq (run : Children child budget cs trace cs' rest)
    (agrees : ∀ {budget a trace a' rest}, child budget a trace a' rest →
      reduce budget a = .ok (a', rest)) :
    Reduce.children reduce budget cs = .ok (cs', rest) := by
  induction run with
  | nil => rfl
  | cons head tail ih => simp [children, agrees head, ih]

/-- Where nothing is paid for the children no number of rounds changes anything. -/
theorem rounds_stalled (top : contract (.expr cs) = .ok none)
    (below : Reduce.children reduce budget cs = .ok (cs, budget)) (n : Nat) :
    rounds contract reduce n budget (.expr cs) = .ok (.expr cs, budget) := by
  induction n with
  | zero => rfl
  | succ n ih =>
      cases budget with
      | zero => rfl
      | succ budget => simp [rounds, top, below, ih]

theorem Rounds.rounds_eq (run : Rounds contract child budget a trace a' rest)
    (agrees : ∀ {budget a trace a' rest}, child budget a trace a' rest →
      reduce budget a = .ok (a', rest))
    {n : Nat} (enough : budget ≤ n) :
    rounds contract reduce n budget a = .ok (a', rest) := by
  induction n generalizing budget a trace with
  | zero =>
      obtain rfl : budget = 0 := Nat.le_zero.mp enough
      cases run
      rfl
  | succ n ih =>
      cases run with
      | spent => rfl
      | contracted top go =>
          have left := ih go (by omega)
          simpa [rounds, top] using left
      | leaf top leaf =>
          cases a' <;> first
            | exact absurd rfl leaf
            | simp [rounds, top]
      | settled top below equal =>
          have children := below.children_eq agrees
          simp [rounds, top, children, equal]
      | restarted top below changed paid go =>
          have children := below.children_eq agrees
          have left := ih go (by omega)
          simp [rounds, top, children, changed, left]
      | stalled top below unequal => exact rounds_stalled top (below.children_eq agrees) _

/-- A reduction comes out as its run does. -/
theorem Run.within_eq (run : Run contract levels budget a trace a' rest) :
    within contract levels budget a = .ok (a', rest) := by
  induction levels generalizing budget a trace a' rest with
  | zero =>
      obtain ⟨-, rfl, rfl⟩ := run
      rfl
  | succ levels ih => exact Rounds.rounds_eq run ih (Nat.le_refl budget)

/-! ## Reduction by rules -/

variable {rules : List Rule} {limits : Limits}

/-- The count returned beside a reduct is the number of contractions of the run. -/
theorem Run.reduceCounting_eq
    (run : Run (Rule.contract rules) limits.levels limits.budget a trace a' rest) :
    a.reduceCounting rules limits = .ok (a', trace.length) := by
  have paid := run.length_add
  have count : limits.budget - rest = trace.length := by omega
  simp [Atom.reduceCounting, run.within_eq, count]

theorem Run.reduce_eq
    (run : Run (Rule.contract rules) limits.levels limits.budget a trace a' rest) :
    a.reduce rules limits = .ok a' := by
  simp [Atom.reduce, run.reduceCounting_eq]

/-- Reduction knows rules only by what they do. -/
theorem reduceCounting_congr {rules' : List Rule}
    (same : List.Forall₂ (fun r r' => r.apply = r'.apply) rules rules') :
    a.reduceCounting rules limits = a.reduceCounting rules' limits := by
  rw [Atom.reduceCounting, Atom.reduceCounting, Rule.contract_congr same]

theorem exists_rule_run (decided : ∀ r ∈ rules, r.Decided) (limits : Limits) (a : Atom) :
    ∃ trace a' rest, Run (Rule.contract rules) limits.levels limits.budget a trace a' rest :=
  exists_run (Rule.contract_decided decided) _ _ a

/-! ## Reductions that may fail -/

variable {Good : Atom → Prop} {Fault : ε → Prop}

theorem children_endsIn (below : ∀ budget c, Good c → EndsIn (Good ·.1) Fault (reduce budget c))
    (budget : Nat) (goods : ∀ c ∈ cs, Good c) :
    EndsIn (∀ c ∈ ·.1, Good c) Fault (Reduce.children reduce budget cs) := by
  induction cs generalizing budget with
  | nil => exact goods
  | cons c cs ih =>
      obtain ⟨first, others⟩ := List.forall_mem_cons.mp goods
      refine (below budget c first).bind fun r good => ?_
      exact (ih r.2 others).bind fun r' goods' => List.forall_mem_cons.mpr ⟨good, goods'⟩

theorem rounds_endsIn (leafwise : Atom.Leafwise Good)
    (top : ∀ a, Good a → EndsIn (∀ a' ∈ ·, Good a') Fault (contract a))
    (below : ∀ budget c, Good c → EndsIn (Good ·.1) Fault (reduce budget c)) (n budget : Nat)
    (good : Good a) : EndsIn (Good ·.1) Fault (rounds contract reduce n budget a) := by
  induction n generalizing budget a with
  | zero => exact good
  | succ n ih =>
      cases budget with
      | zero => exact good
      | succ budget =>
          refine (top a good).bind fun a'? goods => ?_
          cases a'? with
          | some a' => exact ih budget (goods a' rfl)
          | none =>
              cases a with
              | expr cs =>
                  have children := children_endsIn below (budget + 1) ((leafwise cs).mp good)
                  refine children.bind fun r goods' => ?_
                  dsimp only
                  split
                  · exact good
                  · exact ih r.2 ((leafwise r.1).mpr goods')
              | _ => exact good

/-- Whether or not it fails a reduction stays in a leafwise class that contractions stay in, and no
fault is of its own making. -/
theorem within_endsIn (leafwise : Atom.Leafwise Good)
    (top : ∀ a, Good a → EndsIn (∀ a' ∈ ·, Good a') Fault (contract a)) (levels budget : Nat)
    (good : Good a) : EndsIn (Good ·.1) Fault (within contract levels budget a) := by
  induction levels generalizing budget a with
  | zero => exact good
  | succ levels ih => exact rounds_endsIn leafwise top (fun _ _ => ih _) budget budget good

/-- A reduction by rules stays in the class of their templates, or fails as one of them does. -/
theorem reduce_endsIn (leafwise : Atom.Leafwise Good) (templates : ∀ r ∈ rules, Good r.template)
    (limits : Limits) (good : Good a) :
    EndsIn Good (fun e => ∃ r ∈ rules, ∃ b, r.apply b = .error e) (a.reduce rules limits) := by
  have top : ∀ b, Good b → EndsIn (∀ b' ∈ ·, Good b')
      (fun e => ∃ r ∈ rules, ∃ b, r.apply b = .error e) (Rule.contract rules b) := by
    intro b good
    refine Rule.contract_endsIn (by simp) fun r member => ?_
    cases applied : r.apply b with
    | error e => exact ⟨r, member, b, applied⟩
    | ok b'? =>
        rintro b' rfl
        exact Rule.apply_good leafwise (templates r member) good applied
  have ends := within_endsIn leafwise top limits.levels limits.budget good
  have counted : EndsIn (Good ·.1) (fun e => ∃ r ∈ rules, ∃ b, r.apply b = .error e)
      (a.reduceCounting rules limits) := ends.bind fun _ good => good
  exact counted.bind fun _ good => good

end Metta.Reduce
