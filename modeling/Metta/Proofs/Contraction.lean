/-
# Metta.Proofs.Contraction -- what a rule and a rule list do at the top of an atom

`Rule.apply` runs a match and a guard; the lemmas here say when it answers and with
what.  `Rule.Contracts` says of a rule list that the first of its rules that applies to
an atom turns it into another, and `Rule.contract_eq_some_iff` that this is what
`Rule.contract` computes.

A rule list whose guards decide on all bindings (`Rule.Decided`) never fails; a rule
without a guard is such a rule.  What a list that may fail comes to is stated for both
outcomes at once (`EndsIn`).
-/
import Mathlib.Data.List.Forall2
import Metta.Rule

namespace Metta

set_option autoImplicit false

/-! ## Computations that may fail -/

section

variable {ε α β : Type}

@[simp] theorem ok_bind (x : α) (f : α → Except ε β) : (Except.ok x >>= f) = f x := rfl

@[simp] theorem error_bind (e : ε) (f : α → Except ε β) : (Except.error e >>= f) = .error e := rfl

@[simp] theorem pure_eq_ok (x : α) : (pure x : Except ε α) = .ok x := rfl

theorem bind_eq_ok {m : Except ε α} {f : α → Except ε β} {y : β} :
    m >>= f = .ok y ↔ ∃ x, m = .ok x ∧ f x = .ok y := by
  cases m <;> simp

/-- The computation answers with the one property, or fails with the other. -/
def EndsIn (P : α → Prop) (Q : ε → Prop) : Except ε α → Prop
  | .ok x => P x
  | .error e => Q e

variable {P : α → Prop} {P' : β → Prop} {Q : ε → Prop}

theorem EndsIn.bind {m : Except ε α} {f : α → Except ε β} (first : EndsIn P Q m)
    (next : ∀ x, P x → EndsIn P' Q (f x)) : EndsIn P' Q (m >>= f) := by
  cases m with
  | ok x => exact next x first
  | error e => exact first

end

/-! ## Matching -/

namespace Atom

theorem matchInto_var (b : Bindings) (data : Atom) (name : String) (constraint : Option Atom) :
    matchInto b data (.var name constraint) = b.bind name data := by
  rw [matchInto]

theorem matchInto_expr (b : Bindings) (data : Atom) (ps : List Atom) :
    matchInto b data (.expr ps) =
      match data with
      | .expr cs => matchAllInto b cs ps
      | _ => none := by
  cases data with
  | expr cs => rw [matchInto]
  | _ => rw [matchInto]; simp

/-- A pattern that is neither a variable nor an expression binds nothing. -/
theorem matchInto_leaf (b : Bindings) (data : Atom) {pattern : Atom}
    (notVar : pattern.kind ≠ .var) (notExpr : pattern.kind ≠ .expression) :
    matchInto b data pattern = if data.same pattern then some b else none := by
  cases pattern with
  | var => exact absurd rfl notVar
  | expr => exact absurd rfl notExpr
  | empty => cases data <;> simp [matchInto, same]
  | _ => rw [matchInto]

end Atom

namespace Rule

variable {r : Rule} {rules : List Rule} {a a' : Atom}

/-! ## One rule -/

/-- The guard, if there is one, accepts or refuses all bindings. -/
def Decided (r : Rule) : Prop := ∀ b, ∃ verdict, r.admits b = .ok verdict

theorem decided_of_guard_eq_none (unguarded : r.guard = none) : r.Decided :=
  fun _ => ⟨true, by rw [admits, unguarded]⟩

theorem apply_eq_some_iff : r.apply a = .ok (some a') ↔
    ∃ b, a.matchPattern r.pattern = some b ∧ r.admits b = .ok true ∧ b.apply r.template = a' := by
  unfold apply
  cases a.matchPattern r.pattern with
  | none => simp
  | some b =>
      rcases verdict : r.admits b with e | accepts
      · simp [verdict]
      · cases accepts <;> simp [verdict]

theorem Decided.apply (decided : r.Decided) (a : Atom) : ∃ a'?, r.apply a = .ok a'? := by
  unfold Rule.apply
  cases a.matchPattern r.pattern with
  | none => exact ⟨_, rfl⟩
  | some b =>
      obtain ⟨verdict, admits⟩ := decided b
      simp [admits]

theorem Decided.apply_ne_error (decided : r.Decided) (a : Atom) (e : GuardFault) :
    r.apply a ≠ .error e := by
  obtain ⟨a'?, applied⟩ := decided.apply a
  rw [applied]
  rintro ⟨⟩

/-! ## A list of rules -/

/-- The first rule of the list that applies to the atom turns it into the other. -/
def Contracts (rules : List Rule) (a a' : Atom) : Prop :=
  ∃ before r after, rules = before ++ r :: after ∧ (∀ q ∈ before, q.apply a = .ok none) ∧
    r.apply a = .ok (some a')

theorem contracts_cons {q : Rule} {qs : List Rule} : Contracts (q :: qs) a a' ↔
    q.apply a = .ok (some a') ∨ q.apply a = .ok none ∧ Contracts qs a a' := by
  constructor
  · rintro ⟨before, r, after, split, refused, applied⟩
    cases before with
    | nil =>
        cases split
        exact .inl applied
    | cons p before =>
        cases split
        exact .inr ⟨refused _ (.head _),
          before, r, after, rfl, fun q member => refused q (.tail _ member), applied⟩
  · rintro (applied | ⟨skipped, before, r, after, rfl, refused, applied⟩)
    · exact ⟨[], q, qs, rfl, by simp, applied⟩
    · exact ⟨q :: before, r, after, rfl, by simpa [skipped] using refused, applied⟩

theorem contract_eq_some_iff : contract rules a = .ok (some a') ↔ Contracts rules a a' := by
  induction rules with
  | nil => simp [contract, Contracts]
  | cons q qs ih =>
      rw [contracts_cons, ← ih]
      rcases applied : q.apply a with e | _ | a'' <;>
        simp [contract, applied]

theorem contract_eq_none_iff :
    contract rules a = .ok none ↔ ∀ r ∈ rules, r.apply a = .ok none := by
  induction rules with
  | nil => simp [contract]
  | cons q qs ih =>
      rcases applied : q.apply a with e | _ | a'' <;>
        simp [contract, applied, ih]

/-- Rules that do the same one by one do the same as lists. -/
theorem contract_congr {rules' : List Rule}
    (same : List.Forall₂ (fun r r' => r.apply = r'.apply) rules rules') :
    contract rules = contract rules' := by
  induction same with
  | nil => rfl
  | cons first others ih =>
      funext a
      rw [contract, contract, first, ih]

theorem contract_decided (decided : ∀ r ∈ rules, r.Decided) (a : Atom) :
    ∃ a'?, contract rules a = .ok a'? := by
  induction rules with
  | nil => exact ⟨_, rfl⟩
  | cons q qs ih =>
      obtain ⟨a'?, applied⟩ := (decided q (.head _)).apply a
      cases a'? with
      | some a' => exact ⟨some a', by simp [contract, applied]⟩
      | none =>
          obtain ⟨a''?, rest⟩ := ih fun r member => decided r (.tail _ member)
          exact ⟨a''?, by simp [contract, applied, rest]⟩

/-- One contraction, told from what each rule does. -/
theorem contract_endsIn {P : Option Atom → Prop} {Q : GuardFault → Prop} (none : P none)
    (each : ∀ r ∈ rules, EndsIn P Q (r.apply a)) : EndsIn P Q (contract rules a) := by
  induction rules with
  | nil => exact none
  | cons q qs ih =>
      obtain ⟨first, others⟩ := List.forall_mem_cons.mp each
      cases applied : q.apply a with
      | error e =>
          rw [applied] at first
          simpa [contract, applied] using first
      | ok a'? =>
          cases a'? with
          | none => simpa [contract, applied] using ih others
          | some a' =>
              rw [applied] at first
              simpa [contract, applied] using first

end Rule

end Metta
