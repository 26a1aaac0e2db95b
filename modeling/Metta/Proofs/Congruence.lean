/-
# Metta.Proofs.Congruence -- what equal atoms have in common

Spaces and bindings keep one of several equal atoms, and reduction drops children that
came back equal.  Nothing depends on which one is kept: on the atoms without a NaN atom
equality is an equivalence, equal atoms match equal patterns alike, and rules that are
equal contract and reduce them to equal atoms (`Atom.same_congruent`).

For reduction the two runs go side by side.  Where contractions agree on equal atoms, so
do the rounds at one atom (`Reduce.rounds_agree`): in every round both contract, or
neither does and their children come out equal with the same budget left, so that both
find their children changed or both do not.  The number of contractions is what was taken
from the budget.
-/
import Metta.Proofs.Run
import Metta.Proofs.Equality

namespace Metta

open Metta.Number

set_option autoImplicit false

/-! ## Numbers -/

namespace Scalar

/-- A whole number is compared with the exact value of a float. -/
theorem same_int_float {n : Int} {x : Float} :
    (int n).same (float x) = true ↔ pointOf? x = some (.finite n) := by
  rw [same_iff]
  simp [key?]

/-- A truth value is not compared with numbers. -/
theorem not_same_truth {b : Bool} {s : Scalar} (number : s.isNumber = true) :
    ¬ (truth b).same s = true := by
  rw [same_iff]
  rintro ⟨k, here, there⟩
  cases here
  cases s with
  | int n => cases there
  | float x => simp [key?] at there
  | text | truth => cases number

end Scalar

/-! ## Reduction -/

namespace Reduce

open Atom (Same)

variable {ε : Type} {contract contract' : Atom → Except ε (Option Atom)}
  {child child' : Nat → Atom → Except ε (Atom × Nat)} {n budget : Nat} {a a' : Atom}

/-- Equal atoms are contracted to equal atoms, or neither is contracted. -/
def ContractAlike (contract contract' : Atom → Except ε (Option Atom)) : Prop :=
  ∀ {a a'}, Same a a' →
    ∃ x x', contract a = .ok x ∧ contract' a' = .ok x' ∧ Option.Rel Same x x'

/-- Equal atoms are reduced to equal atoms, with the same budget left. -/
def Agree (reduce reduce' : Nat → Atom → Except ε (Atom × Nat)) : Prop :=
  ∀ budget {a a'}, Same a a' →
    ∃ b b' rest, reduce budget a = .ok (b, rest) ∧ reduce' budget a' = .ok (b', rest) ∧ Same b b'

theorem children_agree (agree : Agree child child') (budget : Nat) {cs cs' : List Atom}
    (equal : List.Forall₂ Same cs cs') :
    ∃ ds ds' rest, children child budget cs = .ok (ds, rest) ∧
      children child' budget cs' = .ok (ds', rest) ∧ List.Forall₂ Same ds ds' := by
  induction equal generalizing budget with
  | nil => exact ⟨[], [], budget, rfl, rfl, .nil⟩
  | cons head tail ih =>
      obtain ⟨d, d', middle, first, first', same⟩ := agree budget head
      obtain ⟨ds, ds', rest, others, others', sames⟩ := ih middle
      refine ⟨d :: ds, d' :: ds', rest, ?_, ?_, .cons same sames⟩
      · simp [children, first, others]
      · simp [children, first', others']

/-- An atom that has no children and is not contracted stays as it is. -/
theorem rounds_leaf (top : contract a = .ok none) (leaf : a.kind ≠ .expression) :
    rounds contract child (n + 1) (budget + 1) a = .ok (a, budget + 1) := by
  cases a with
  | expr => exact absurd rfl leaf
  | _ => simp [rounds, top]

theorem rounds_agree (contracts : ContractAlike contract contract') (agree : Agree child child')
    (n budget : Nat) (equal : Same a a') :
    ∃ b b' rest, rounds contract child n budget a = .ok (b, rest) ∧
      rounds contract' child' n budget a' = .ok (b', rest) ∧ Same b b' := by
  induction n generalizing budget a a' with
  | zero => exact ⟨a, a', budget, rfl, rfl, equal⟩
  | succ n ih =>
  cases budget with
  | zero => exact ⟨a, a', 0, rfl, rfl, equal⟩
  | succ budget =>
  obtain ⟨x, x', top, top', related⟩ := contracts equal
  cases related with
  | some same =>
      obtain ⟨b, b', rest, go, go', outcome⟩ := ih budget same
      exact ⟨b, b', rest, by simp [rounds, top, go], by simp [rounds, top', go'], outcome⟩
  | none =>
      by_cases isExpr : a.kind = .expression
      · obtain ⟨cs, rfl⟩ := Atom.kind_eq_expression.mp isExpr
        obtain ⟨cs', rfl⟩ := Atom.kind_eq_expression.mp (equal.kind_eq ▸ isExpr)
        obtain ⟨ds, ds', middle, below, below', sames⟩ :=
          children_agree agree (budget + 1) (Atom.same_expr.mp equal)
        -- both sides see a change, or neither does
        have seen : Atom.sameAll ds cs = Atom.sameAll ds' cs' :=
          Atom.Same.congr (Atom.same_expr.mpr sames) equal
        cases settled : Atom.sameAll ds' cs' with
        | true =>
            rw [settled] at seen
            refine ⟨_, _, middle, ?_, ?_, equal⟩
            · simp [rounds, top, below, seen]
            · simp [rounds, top', below', settled]
        | false =>
            rw [settled] at seen
            obtain ⟨b, b', rest, go, go', outcome⟩ := ih middle (Atom.same_expr.mpr sames)
            refine ⟨b, b', rest, ?_, ?_, outcome⟩
            · simp [rounds, top, below, seen, go]
            · simp [rounds, top', below', settled, go']
      · have leaf' : a'.kind ≠ .expression := equal.kind_eq ▸ isExpr
        exact ⟨a, a', budget + 1, rounds_leaf top isExpr, rounds_leaf top' leaf', equal⟩

/-- Reductions agree if contractions do, at whatever depth. -/
theorem within_agree (contracts : ContractAlike contract contract') (levels : Nat) :
    Agree (within contract levels) (within contract' levels) := by
  induction levels with
  | zero => exact fun budget a a' equal => ⟨a, a', budget, rfl, rfl, equal⟩
  | succ levels ih => exact fun budget _ _ => rounds_agree contracts ih budget budget

end Reduce

/-! ## All together -/

namespace Atom

/-- Rules that are alike reduce equal atoms to equal atoms by as many contractions. -/
theorem reduceCounting_agree {rules rules' : List Rule}
    (alike : List.Forall₂ Rule.Alike rules rules') (limits : Reduce.Limits) {a a' : Atom}
    (equal : Same a a') :
    ∃ x x' count, a.reduceCounting rules limits = .ok (x, count) ∧
      a'.reduceCounting rules' limits = .ok (x', count) ∧ Same x x' := by
  have contracts : Reduce.ContractAlike (Rule.contract rules) (Rule.contract rules') :=
    Rule.contract_alike alike
  obtain ⟨x, x', rest, reduced, reduced', outcome⟩ :=
    Reduce.within_agree contracts limits.levels limits.budget equal
  refine ⟨x, x', limits.budget - rest, ?_, ?_, outcome⟩
  · simp [reduceCounting, reduced]
  · simp [reduceCounting, reduced']

/-- **Equal atoms cannot be told apart.**  On the atoms without a NaN atom equality is an
equivalence.  It compares whole numbers with the exact values of floats, and truth values with no
number; it does not look at type constraints or at the sources of errors.  Of equal atoms, both
match equal patterns, to equal bindings, or neither does; both are contracted by rules that are
alike, to equal atoms, or neither is; and lists of rules that are alike reduce them to equal atoms
by the same number of contractions, whatever the limits. -/
theorem same_congruent :
    Equivalence (fun a b : { a : Atom // a.NaNFree } => Same a.1 b.1) ∧
    (∀ (n : Int) (x : Float) (tag tag' : String),
      Same (.literal ⟨.int n, tag⟩) (.literal ⟨.float x, tag'⟩) ↔
        pointOf? x = some (.finite n)) ∧
    (∀ (b : Bool) (s : Scalar) (tag tag' : String), s.isNumber = true →
      ¬ Same (.literal ⟨.truth b, tag⟩) (.literal ⟨s, tag'⟩)) ∧
    (∀ name constraint constraint', Same (.var name constraint) (.var name constraint')) ∧
    (∀ message source source', Same (.error message source) (.error message source')) ∧
    ∀ a a' : Atom, Same a a' →
      (∀ p p' : Atom, Same p p' →
        Option.Rel (fun b b' : Bindings => b.Alike b' ∧ b.same b' = true)
          (a.matchPattern p) (a'.matchPattern p')) ∧
      (∀ r r' : Rule, r.Alike r' →
        ∃ x x', r.apply a = .ok x ∧ r'.apply a' = .ok x' ∧ Option.Rel Same x x') ∧
      ∀ (rules rules' : List Rule) (limits : Reduce.Limits),
        List.Forall₂ Rule.Alike rules rules' →
        ∃ x x' count, a.reduceCounting rules limits = .ok (x, count) ∧
          a'.reduceCounting rules' limits = .ok (x', count) ∧ Same x x' := by
  refine ⟨⟨fun a => same_self_iff.mpr a.2, Same.symm, Same.trans⟩, fun n x _ _ => ?_,
    fun b s _ _ number => ?_, fun name _ _ => ?_, fun message _ _ => ?_, fun a a' equal =>
    ⟨fun p p' patterns => ?_, fun r r' alike => ?_, fun rules rules' limits alike => ?_⟩⟩
  · exact Scalar.same_int_float
  · exact Scalar.not_same_truth number
  · exact beq_self_eq_true name
  · exact beq_self_eq_true message
  · have matched := matchPattern_alike equal patterns
    generalize a.matchPattern p = m at matched ⊢
    generalize a'.matchPattern p' = m' at matched ⊢
    cases matched with
    | none => exact .none
    | some alike => exact .some ⟨alike, alike.same⟩
  · exact Rule.apply_alike alike.unguarded alike.unguarded' alike.pattern alike.template equal
  · exact reduceCounting_agree alike limits equal

/-- The rules differ in a type constraint and in the representation of numbers, and so do the
atoms. -/
theorem same_congruent_representations :
    let two : Atom := .ofScalar (.int 2)
    let two' : Atom := .ofScalar (.float 2)
    let f (a : Atom) : Atom := .expr [.symbol "f", a]
    let pair (a b : Atom) : Atom := .expr [.symbol "pair", a, b]
    let rules : List Rule := [
      ⟨"wrap", f (.var "x" none), pair (.var "x" none) (.symbol "end"), none, 0⟩,
      ⟨"take", pair two (.var "y" none), two, none, 0⟩]
    let rules' : List Rule := [
      ⟨"wrap", f (.var "x" (some two)), pair (.var "x" none) (.symbol "end"), none, 0⟩,
      ⟨"take", pair two' (.var "y" none), two', none, 0⟩]
    let a : Atom := .expr [f two, .error "m" none]
    let a' : Atom := .expr [f two', .error "m" (some two)]
    Same a a' ∧ List.Forall₂ Rule.Alike rules rules' ∧
      a.reduceCounting rules {} = .ok (.expr [two, .error "m" none], 2) ∧
      ∃ x', a'.reduceCounting rules' {} = .ok (x', 2) ∧
        Same (.expr [two, .error "m" none]) x' := by
  intro two two' f pair rules rules' a a'
  have equal : Same a a' := by decide
  have alike : List.Forall₂ Rule.Alike rules rules' :=
    .cons ⟨rfl, rfl, by decide, by decide⟩ (.cons ⟨rfl, rfl, by decide, by decide⟩ .nil)
  obtain ⟨-, -, -, -, -, together⟩ := same_congruent
  obtain ⟨-, -, reduces⟩ := together a a' equal
  obtain ⟨x, x', count, reduced, reduced', outcome⟩ := reduces rules rules' {} alike
  have run : a.reduceCounting rules {} = .ok (.expr [two, .error "m" none], 2) := rfl
  rw [run] at reduced
  cases reduced
  exact ⟨equal, alike, run, x', reduced', outcome⟩

end Atom

end Metta
