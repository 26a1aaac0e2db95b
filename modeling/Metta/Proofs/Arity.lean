/-
# Metta.Proofs.Arity -- counting arguments before and during evaluation

How many arguments a head takes is said twice: in the table of the check
(`Check.fixedArity?`) and in the equations of the evaluator.  The table agrees with
`Eval.Head.takes`, except that it has no entry for `get-atoms`, of which any number of
arguments passes (`Check.arity_eq_nil_iff`).  So the check of an expression whose arguments
pass finds something exactly if evaluation answers with a complaint about their number,
unless too many stand behind `get-atoms` (`Eval.interpret_complains_iff`).

That there is no other complaint is an invariant of evaluation: an error reads like that
only if it is deserved, and no other is made (`Eval.interpret_keeps`).  One that is stored
somewhere can be handed out, so that it must not be there from the start.  In a session
that is driven by text it never is (`Session.performAll_complains_iff`).
-/
import Metta.Proofs.History
import Metta.Check

namespace Metta

set_option autoImplicit false

variable {name : String} {args : List Atom} {a : Atom}

/-! ## The check -/

namespace Check

open Eval (Form Head)

theorem arityAll_eq_nil_iff {as : List Atom} : arityAll as = [] ↔ ∀ a ∈ as, arity a = [] := by
  induction as with
  | nil => simp [arityAll]
  | cons a as ih => simp [arityAll, ih]

theorem arity_of_ne_quote (other : name ≠ "quote") :
    arity (.expr (.symbol name :: args)) = headProblems name args ++ arityAll args := by
  rw [arity]
  rintro ⟨⟩
  exact other rfl

/-- What the check asks of a head is what the evaluator asks; of `get-atoms` it knows nothing. -/
theorem arity_eq_nil_iff (counts : (Head.ofName name).counts = true)
    (arguments : ∀ a ∈ args, arity a = []) : arity (.expr (.symbol name :: args)) = [] ↔
      (Head.ofName name).takes args.length = true ∨ name = "get-atoms" := by
  have below := arityAll_eq_nil_iff.mpr arguments
  cases head : Head.ofName name with
  | form f =>
      obtain rfl := Head.name_of_ofName head
      cases f with
      | quote => simp [arity, Form.name, Head.takes, Form.takes]
      | _ =>
          rw [arity_of_ne_quote (by decide), below]
          simp [headProblems, fixedArity?, Form.name, Head.takes, Form.takes,
            Nat.lt_iff_add_one_le]
  | comparison c =>
      obtain rfl := Head.name_of_comparison head
      cases c <;> rw [arity_of_ne_quote (by decide), below] <;>
        simp [headProblems, fixedArity?, Eval.Comparison.name, Head.takes]
  | logic l =>
      cases l with
      | not =>
          obtain rfl := Head.name_of_logic head
          rw [arity_of_ne_quote (by decide), below]
          simp [headProblems, fixedArity?, Eval.Logic.name, Head.takes]
      | and | or => simp [head, Head.counts] at counts
  | arithmetic op | plain => simp [head, Head.counts] at counts

end Check

/-! ## Complaints in atoms -/

/-- The complaint of a head about the number of its arguments. -/
def complaint (name : String) (args : List Atom) (description : String) : Atom :=
  .error (name ++ " requires " ++ description) (some (.expr (.symbol name :: args)))

/-- No complaint about this expression stands in the atom. -/
def Atom.Silent (name : String) (args : List Atom) (a : Atom) : Prop :=
  a.Each fun part => ∀ description, part ≠ complaint name args description

namespace Atom

theorem silent_of_no_error (plain : a.Each fun part => part.kind ≠ .error) :
    a.Silent name args := by
  rintro part member description rfl
  exact plain _ member rfl

theorem leafwise_silent : Leafwise (Silent name args) :=
  leafwise_each (by rintro _ _ ⟨⟩)

theorem not_silent_complaint (description : String) :
    ¬ (complaint name args description).Silent name args :=
  fun silent => silent _ (.head _) description rfl

theorem sizeOf_le_of_mem_subterms {part : Atom} (member : part ∈ a.subterms) :
    sizeOf part ≤ sizeOf a := by
  induction a with
  | expr cs ih =>
      rw [subterms_expr, List.mem_cons, List.mem_flatMap] at member
      rcases member with rfl | ⟨c, child, member⟩
      · exact Nat.le_refl _
      · have smaller := List.sizeOf_lt_of_mem child
        have below := ih c child member
        simp only [expr.sizeOf_spec]
        omega
  | _ =>
      rw [subterms_leaf (by simp [kind]), List.mem_singleton] at member
      exact Nat.le_of_eq (congrArg sizeOf member)

/-- An expression is too small to have a complaint about itself in it. -/
theorem silent_self : (Atom.expr (.symbol name :: args)).Silent name args := by
  rintro part member description rfl
  have size := sizeOf_le_of_mem_subterms member
  simp [complaint] at size
  omega

/-- No complaint is made about an expression that has the right number of arguments. -/
theorem closed_silent (counts : (Eval.Head.ofName name).counts = true)
    (taken : (Eval.Head.ofName name).takes args.length = true) : Closed (Silent name args) where
  leafwise := leafwise_silent
  empty := silent_of_no_error (by decide)
  error message source deserved _ := by
    refine (each_leaf (by rintro ⟨⟩)).mpr fun description same => ?_
    injection same with message source
    have wrong := deserved name args description (Option.some.inj source) counts message
    rw [taken] at wrong
    cases wrong
  truth b := silent_of_no_error (by cases b <;> decide)
  number _ _ := silent_of_no_error ((each_leaf (by rintro ⟨⟩)).mpr (by rintro ⟨⟩))

theorem Closed.and {Good Good' : Atom → Prop} (closed : Closed Good) (closed' : Closed Good') :
    Closed fun a => Good a ∧ Good' a where
  leafwise cs := by
    show Good (.expr cs) ∧ Good' (.expr cs) ↔ _
    rw [closed.leafwise cs, closed'.leafwise cs]
    exact ⟨fun goods c member => ⟨goods.1 c member, goods.2 c member⟩,
      fun goods => ⟨fun c member => (goods c member).1, fun c member => (goods c member).2⟩⟩
  empty := ⟨closed.empty, closed'.empty⟩
  error message source deserved good :=
    ⟨closed.error message source deserved good.1, closed'.error message source deserved good.2⟩
  truth b := ⟨closed.truth b, closed'.truth b⟩
  number x finite := ⟨closed.number x finite, closed'.number x finite⟩

/-- No error is read. -/
theorem Legible.silent (legible : a.Legible) : a.Silent name args := by
  refine silent_of_no_error fun part member isError => ?_
  rcases legible part member with isExpr | readable
  · rw [isError] at isExpr
    cases isExpr
  · cases part with
    | error => cases readable
    | _ => cases isError

theorem textual_silent (counts : (Eval.Head.ofName name).counts = true)
    (taken : (Eval.Head.ofName name).takes args.length = true) :
    Textual fun a => a.Spelled ∧ a.Silent name args where
  toClosed := closed_spelled.and (closed_silent counts taken)
  read parsed a member :=
    ⟨spelled_of_parse parsed a member, (readable_of_parse parsed a member).1.silent⟩
  writable _ good := good.1.isWritable

end Atom

/-! ## Evaluation -/

namespace Eval

variable {settings : Settings} {self : String} {w : World}

/-- An expression is complained about exactly if it has the wrong number of arguments. -/
theorem complains_iff_not_takes (counts : (Head.ofName name).counts = true)
    (depth : 0 ≤ settings.maxDepth)
    (reportable : Reportable settings (.expr (.symbol name :: args)))
    (silent : (Head.ofName name).takes args.length = true →
      w.Holds (Atom.Silent name args) fun r => r.template.Silent name args) :
    (∃ description w', interpret settings self (.expr (.symbol name :: args)) w =
      .ok [complaint name args description] w') ↔ (Head.ofName name).takes args.length = false := by
  cases taken : (Head.ofName name).takes args.length with
  | false =>
      obtain ⟨log, evaluated⟩ := exists_interpret self depth reportable w
      rw [evalHead_of_not_takes counts taken] at evaluated
      exact iff_of_true ⟨_, _, evaluated⟩ rfl
  | true =>
      refine iff_of_false ?_ (by simp)
      rintro ⟨description, w', answered⟩
      have kept := interpret_keeps settings self (Atom.closed_silent counts taken) Atom.silent_self
        (silent taken)
      rw [answered] at kept
      exact Atom.not_silent_complaint description (kept.1 _ (.head _))

/-- The numbers of arguments that are wrong are those that the check finds, and those of `get-atoms`
that it does not know. -/
theorem not_takes_iff (counts : (Head.ofName name).counts = true)
    (arguments : ∀ b ∈ args, Check.arity b = []) : (Head.ofName name).takes args.length = false ↔
      Check.arity (.expr (.symbol name :: args)) ≠ [] ∨ name = "get-atoms" ∧ 1 < args.length := by
  rw [Ne, Check.arity_eq_nil_iff counts arguments]
  by_cases known : name = "get-atoms"
  · subst known
    have takes : (Head.ofName "get-atoms").takes args.length = decide (args.length ≤ 1) := rfl
    simp [takes]
  · simp [known]

/-- **The check and the evaluator count alike.**  An expression is headed by a special form, a
comparison or `not`, and its arguments pass the check of numbers of arguments.  Evaluation answers
with a complaint about the number of its own arguments exactly if the check finds something, or too
many arguments stand behind `get-atoms`, which the check does not know. -/
theorem interpret_complains_iff (settings : Settings) (self : String) (w : World)
    (counts : (Head.ofName name).counts = true) (arguments : ∀ b ∈ args, Check.arity b = [])
    (depth : 0 ≤ settings.maxDepth)
    (reportable : Reportable settings (.expr (.symbol name :: args)))
    (silent : w.Holds (Atom.Silent name args) fun r => r.template.Silent name args) :
    let form : Atom := .expr (.symbol name :: args)
    (∃ description w', interpret settings self form w = .ok [complaint name args description] w') ↔
      Check.arity form ≠ [] ∨ name = "get-atoms" ∧ 1 < args.length :=
  (complains_iff_not_takes counts depth reportable fun _ => silent).trans
    (not_takes_iff counts arguments)

/-- Evaluation comes to a complaint about another expression, which a rule has made. -/
theorem interpret_complains_iff_other :
    let f : Atom := .expr [.symbol "f"]
    let rules : List Rule := [
      ⟨"never", .expr [.symbol "g"], .symbol "a", some (.failing "no"), 0⟩,
      ⟨"short", f, .expr [.symbol "if"], none, 0⟩]
    let w : World := ⟨[⟨"home", [], rules⟩], #[]⟩
    let args : List Atom := [.var "x" none, f, .var "x" none]
    let form : Atom := .expr (.symbol "let" :: args)
    interpret {} "home" form w =
        .ok [complaint "if" [] "3 arguments: condition, then, else"] w ∧
      Check.arity form = [] ∧
      ¬ ∃ description w',
        interpret {} "home" form w = .ok [complaint "let" args description] w' := by
  intro f rules w args form
  have counts : (Head.ofName "let").counts = true := rfl
  have passes : Check.arity form = [] := rfl
  have arguments : ∀ b ∈ args, Check.arity b = [] := by decide
  have silent : w.Holds (Atom.Silent "let" args) fun r => r.template.Silent "let" args := by
    refine List.forall_mem_singleton.mpr ⟨List.forall_mem_nil _, fun r member => ?_⟩
    refine Atom.silent_of_no_error ?_
    revert r
    decide
  have exactly :=
    interpret_complains_iff {} "home" w counts arguments (by decide) (by decide) silent
  refine ⟨rfl, passes, fun complains => ?_⟩
  rcases exactly.mp complains with found | ⟨known, -⟩
  · exact found passes
  · exact absurd known (by decide)

/-- A complaint that is stored is handed out like any other atom. -/
example :
    let args : List Atom := [.symbol "&self", .var "x" none, .var "x" none]
    let w : World := ⟨[⟨"home", [complaint "match" args "more"], []⟩], #[]⟩
    let form : Atom := .expr (.symbol "match" :: args)
    Check.arity form = [] ∧
      interpret {} "home" form w = .ok [complaint "match" args "more"] w :=
  ⟨rfl, rfl⟩

/-- The check lets `get-atoms` with two arguments pass, and the evaluator does not. -/
theorem getAtoms_unchecked :
    let args : List Atom := [.symbol "&self", .symbol "x"]
    let form : Atom := .expr (.symbol "get-atoms" :: args)
    let w : World := ⟨[.named "home"], #[]⟩
    (∀ b ∈ args, Check.arity b = []) ∧ Check.arity form = [] ∧
      interpret {} "home" form w =
        .ok [complaint "get-atoms" args "at most 1 argument: space"] w := by
  refine ⟨?_, rfl, rfl⟩
  decide

end Eval

/-! ## Sessions -/

/-- In a session that is driven by text the check and the evaluator count alike, whatever has been
asked of it before. -/
theorem Session.performAll_complains_iff (settings : Settings) (rs : List Session.Request)
    (self : String) (counts : (Eval.Head.ofName name).counts = true)
    (arguments : ∀ b ∈ args, Check.arity b = []) (depth : 0 ≤ settings.maxDepth)
    (reportable : Eval.Reportable settings (.expr (.symbol name :: args))) :
    let form : Atom := .expr (.symbol name :: args)
    let w := (performAll rs (start settings)).2.world
    (∃ description w',
        Eval.interpret settings self form w = .ok [complaint name args description] w') ↔
      Check.arity form ≠ [] ∨ name = "get-atoms" ∧ 1 < args.length := by
  intro form w
  refine (Eval.complains_iff_not_takes counts depth reportable fun taken s registered => ?_).trans
    (Eval.not_takes_iff counts arguments)
  have holds := (performAll_holds (Atom.textual_silent counts taken) rs (holds_start settings)).2
  exact ⟨fun a stored => ((holds s registered).atoms a stored).2,
    fun r member => (((holds s registered).rules r member).2 _ (.tail _ (.head _))).2⟩

end Metta
