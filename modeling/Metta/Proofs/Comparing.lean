/-
# Metta.Proofs.Comparing -- the equality operator and atom equality

Atom equality compares numbers exactly; the operator `==` compares them as floats, and
everything else by atom equality.  It is atom equality of what becomes of the two values when
whole numbers are rounded to floats (`Comparison.answer_equal`), for floats compare equal
exactly if they are equal atoms (`Scalar.same_float`).

So the operator agrees with atom equality on every value but the whole numbers that lie
strictly between two neighbouring floats, and those beyond the largest one
(`Eval.interpret_equality`).  The least of these is `2 ^ 53 + 1`, which the operator takes for
its neighbour (`Eval.equality_rounds`).
-/
import Metta.Proofs.Points
import Metta.Proofs.Equality
import Metta.Proofs.Heads

namespace Metta

open Number

set_option autoImplicit false

/-! ## Values as the operator sees them -/

/-- Floats are equal as atoms exactly if they compare equal. -/
theorem Scalar.same_float (x y : Float) : (float x).same (float y) = (x == y) := by
  rw [Bool.eq_iff_iff, Scalar.same_iff, beq_iff_point]
  constructor
  · rintro ⟨k, left, right⟩
    obtain ⟨p, point, rfl⟩ := Option.map_eq_some_iff.mp left
    obtain ⟨q, point', same⟩ := Option.map_eq_some_iff.mp right
    cases same
    exact ⟨p, point, point'⟩
  · rintro ⟨p, point, point'⟩
    exact ⟨.number p, by simp [key?, point], by simp [key?, point']⟩

namespace Atom

open Eval

variable {a b a' b' : Atom}

/-- A whole number is rounded to the nearest float, if there is one; every other atom stays what
it is. -/
def rounded? : Atom → Option Atom
  | .literal ⟨.int n, tag⟩ => (nearestInt? n).map fun x => .literal ⟨.float x, tag⟩
  | a => some a

/-- If the atom is a whole number, some float has exactly its value. -/
def IsExact : Atom → Prop
  | .literal ⟨.int n, _⟩ => ∃ x, pointOf? x = some (.finite n)
  | _ => True

/-- Whole numbers of at most fifty-three bits are exact. -/
theorem isExact_of_le {n : Int} (small : n.natAbs ≤ 2 ^ 53) (tag : String) :
    IsExact (.literal ⟨.int n, tag⟩) :=
  exists_point_of_le small

/-- What rounding makes of a number is the float that the operator sees in it. -/
theorem rounded?_cases (a : Atom) :
    (asFloat a = .tooLarge ∧ a.rounded? = none) ∨
      (∃ x tag, asFloat a = .value x ∧ a.rounded? = some (.literal ⟨.float x, tag⟩)) ∨
      (asFloat a = .notNumber ∧ a.rounded? = some a) := by
  cases a with
  | literal l =>
      obtain ⟨value, tag⟩ := l
      cases value with
      | int n =>
          cases rounds : nearestInt? n with
          | none =>
              exact .inl ⟨by simp [asFloat, Scalar.asFloat, rounds], by simp [rounded?, rounds]⟩
          | some x =>
              exact .inr (.inl ⟨x, tag, by simp [asFloat, Scalar.asFloat, rounds],
                by simp [rounded?, rounds]⟩)
      | float x => exact .inr (.inl ⟨x, tag, rfl, rfl⟩)
      | text s | truth t => exact .inr (.inr ⟨rfl, rfl⟩)
  | _ => exact .inr (.inr ⟨rfl, rfl⟩)

/-- No number equals an atom that is no number. -/
theorem same_of_notNumber (number : asFloat a ≠ .notNumber) (other : asFloat b = .notNumber) :
    a.same b = false := by
  obtain ⟨l, rfl⟩ : ∃ l, a = .literal l := by
    cases a <;> first | exact ⟨_, rfl⟩ | exact absurd rfl number
  cases b with
  | literal k =>
      obtain ⟨u, tag⟩ := l
      obtain ⟨v, tag'⟩ := k
      show u.same v = false
      rw [Bool.eq_false_iff, ne_eq, Scalar.same_iff]
      rintro ⟨key, left, right⟩
      cases v with
      | int n =>
          simp only [asFloat, Scalar.asFloat] at other
          split at other <;> cases other
      | float x => cases other
      | text s =>
          cases right
          cases u <;> simp [Scalar.key?, asFloat, Scalar.asFloat] at left number
      | truth t =>
          cases right
          cases u <;> simp [Scalar.key?, asFloat, Scalar.asFloat] at left number
  | _ => rfl

theorem IsExact.exists_rounded (exactly : a.IsExact) :
    ∃ a', a.rounded? = some a' ∧ ∀ b, a'.same b = a.same b := by
  cases a with
  | literal l =>
      obtain ⟨value, tag⟩ := l
      cases value with
      | int n =>
          obtain ⟨y, point⟩ := exactly
          obtain ⟨x, rounds, point⟩ := nearestInt?_of_point point
          refine ⟨.literal ⟨.float x, tag⟩, by simp [rounded?, rounds], fun b => ?_⟩
          have key : (Scalar.float x).key? = (Scalar.int n).key? := by simp [Scalar.key?, point]
          cases b with
          | literal k => simp [same, Literal.same, Scalar.same, key]
          | _ => rfl
      | _ => exact ⟨_, rfl, fun b => rfl⟩
  | _ => exact ⟨_, rfl, fun b => rfl⟩

/-- Exact atoms are equal if they are after rounding. -/
theorem IsExact.same_eq (left : a.IsExact) (right : b.IsExact) :
    ∃ a' b', a.rounded? = some a' ∧ b.rounded? = some b' ∧ a'.same b' = a.same b := by
  obtain ⟨a', rounded, same⟩ := left.exists_rounded
  obtain ⟨b', rounded', same'⟩ := right.exists_rounded
  exact ⟨a', b', rounded, rounded', by rw [same, same_comm, same', same_comm]⟩

/-- Nothing is left to evaluate: leaves that are no variables, and the expression without
children. -/
def SelfEvaluating : Atom → Prop
  | .var _ _ => False
  | .expr cs => cs = []
  | _ => True

end Atom

namespace Eval

variable {settings : Settings} {self : String} {a b : Atom}

/-- **Two values compare equal if they are equal atoms once whole numbers have been rounded to
floats.** -/
theorem Comparison.answer_equal (a b : Atom) :
    equal.answer a b = match a.rounded?, b.rounded? with
      | some a', some b' => .ok (some (a'.same b'))
      | _, _ => .error .overflow := by
  unfold answer
  rcases a.rounded?_cases with ⟨seen, rounded⟩ | ⟨x, tag, seen, rounded⟩ | ⟨seen, rounded⟩ <;>
    rcases b.rounded?_cases with ⟨seen', rounded'⟩ | ⟨y, tag', seen', rounded'⟩ | ⟨seen', rounded'⟩
  all_goals simp only [seen, seen', rounded, rounded', if_true]
  -- left are two numbers, compared as floats, and a number beside something else
  case inr.inl.inr.inl =>
    have equal : equal.holds x y = (Scalar.float x).same (.float y) := (Scalar.same_float x y).symm
    rw [equal]
    rfl
  case inr.inl.inr.inr =>
    rw [Atom.same_of_notNumber (by simp [seen]) seen',
      Atom.same_of_notNumber (by simp [asFloat, Scalar.asFloat]) seen']
  case inr.inr.inr.inl =>
    rw [Atom.same_comm, Atom.same_of_notNumber (by simp [seen']) seen, Atom.same_comm,
      Atom.same_of_notNumber (by simp [asFloat, Scalar.asFloat]) seen]

/-! ## Evaluation -/

theorem exists_evaluate_self (value : a.SelfEvaluating) (reportable : Reportable settings a)
    (self : String) (levels depth : Nat) (w : World) :
    ∃ log, evaluate settings self (levels + 1) depth a w = .ok [a] { w with log } := by
  have reportable : Reportable (Context.quiet settings self depth).settings a := reportable
  obtain ⟨log, reported⟩ := exists_reported reportable w
  refine ⟨log, (bind_of_ok reported).trans ?_⟩
  cases a with
  | var name constraint => exact value.elim
  | expr cs =>
      obtain rfl : cs = [] := value
      rfl
  | _ => rfl

theorem Comparison.answers_single (c : Comparison) (a b : Atom) :
    c.answers [a] [b] = (c.answer a b).map Option.toList := by
  cases answered : c.answer a b with
  | error e => simp [answers, answered, Except.map, bind, Except.bind]
  | ok answer =>
      cases answer <;> simp [answers, answered, Except.map, bind, Except.bind, pure, Except.pure]

/-- The operator on two arguments with one value each. -/
theorem evalComparison_equal {eval : Atom → Eval (List Atom)} {form : Atom} {w w₁ w₂ : World}
    (left : eval a w = .ok [a] w₁) (right : eval b w₁ = .ok [b] w₂) :
    evalComparison eval form .equal [a, b] w = .ok [match a.rounded?, b.rounded? with
      | some a', some b' => .ofBool (a'.same b')
      | _, _ => .error "Numeric overflow" (some form)] w₂ := by
  have answers := Comparison.answers_single .equal a b
  rw [Comparison.answer_equal] at answers
  refine (bind_of_ok left).trans ((bind_of_ok right).trans ?_)
  rw [answers]
  cases a.rounded? with
  | none => rfl
  | some a' => cases b.rounded? <;> rfl

/-- **The equality operator agrees with atom equality on exact values.**  Of two values that
evaluate to themselves it gives the one answer whether they are equal atoms, unless one of them
is a whole number that no float represents exactly.  Such a number takes part as the float
nearest to it; where there is none the answer is an error that has the form as its source.  If
steps are reported and the form cannot be written, evaluation fails for that and does nothing. -/
theorem interpret_equality (depth : 1 ≤ settings.maxDepth) (left : a.SelfEvaluating)
    (right : b.SelfEvaluating) (self : String) (w : World) :
    let form : Atom := .expr [.symbol "==", a, b]
    (Reportable settings form → ∃ answer log,
      interpret settings self form w = .ok [answer] { w with log } ∧
      (a.IsExact → b.IsExact → answer = .ofBool (a.same b)) ∧
      (∀ a' b', a.rounded? = some a' → b.rounded? = some b' → answer = .ofBool (a'.same b')) ∧
      (a.rounded? = none ∨ b.rounded? = none → answer = .error "Numeric overflow" (some form))) ∧
    (¬ Reportable settings form →
      ∃ e, form.written = .error e ∧
        interpret settings self form w = .error (.unwritable e) w) := by
  intro form
  refine ⟨fun reportable => ?_,
    fun unwritable => exists_unreported_interpret (by omega) unwritable w⟩
  obtain ⟨levels, enough⟩ : ∃ levels, settings.maxDepth.toNat = levels + 1 :=
    ⟨settings.maxDepth.toNat - 1, by omega⟩
  have parts : settings.trace = true → a.isWritable = true ∧ b.isWritable = true := by
    simpa [Reportable, form, Atom.isWritable_expr, Atom.isWritable_symbol] using reportable
  obtain ⟨log, evaluated⟩ := exists_interpret self (by omega) reportable w
  obtain ⟨log₁, evaluated₁⟩ := exists_evaluate_self left (fun traced => (parts traced).1)
    self levels 1 { w with log }
  obtain ⟨log₂, evaluated₂⟩ := exists_evaluate_self right (fun traced => (parts traced).2)
    self levels 1 { w with log := log₁ }
  have compared := @evalComparison_equal a b _ form _ _ _ evaluated₁ evaluated₂
  rw [← enough] at compared
  refine ⟨_, log₂, evaluated.trans compared, fun exactly exactly' => ?_,
    fun a' b' rounded rounded' => ?_, fun large => ?_⟩
  · obtain ⟨a', b', rounded, rounded', same⟩ := exactly.same_eq exactly'
    simp only [rounded, rounded', same]
  · simp only [rounded, rounded']
  · rcases large with none | none
    · simp only [none]
    · cases a.rounded? <;> simp only [none]

/-- A whole number equals the float of the same value. -/
theorem interpret_equality_two :
    let two : Atom := .ofScalar (.int 2)
    let two' : Atom := .ofScalar (.float 2)
    let form : Atom := .expr [.symbol "==", two, two']
    ∃ log, interpret { trace := true } "home" form ⟨[], #[]⟩ = .ok [.ofBool true] ⟨[], log⟩ := by
  intro two two' form
  obtain ⟨reported, -⟩ :=
    @interpret_equality { trace := true } two two' (by decide) trivial trivial "home" ⟨[], #[]⟩
  obtain ⟨answer, log, evaluated, exactly, -⟩ := reported (by decide)
  have equal : two.same two' = true := by decide
  rw [exactly (Atom.isExact_of_le (by decide) _) trivial, equal] at evaluated
  exact ⟨log, evaluated⟩

/-- The least whole number that is no float is taken for its neighbour. -/
theorem equality_rounds :
    let number (n : Int) : Atom := .ofScalar (.int n)
    let form : Atom := .expr [.symbol "==", number (2 ^ 53), number (2 ^ 53 + 1)]
    interpret {} "home" form ⟨[], #[]⟩ = .ok [.ofBool true] ⟨[], #[]⟩ ∧
      (number (2 ^ 53)).same (number (2 ^ 53 + 1)) = false := by
  intro number form
  exact ⟨by rfl, by decide⟩

end Eval

end Metta
