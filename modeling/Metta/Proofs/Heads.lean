/-
# Metta.Proofs.Heads -- expressions that are headed by a symbol

What the symbol at its head stands for evaluates an expression (`Eval.evalHead`), once the
step has been reported.  A report needs the written form of the expression, if steps are
reported at all (`Eval.Reportable`); it changes nothing but the log (`Eval.exists_step`).

Special forms, comparisons and negation look at the number of their arguments before
anything else (`Head.counts`).  If it is not one that they take (`Head.takes`), the answer
is an error that says so, and no argument has been evaluated (`Eval.evalHead_of_not_takes`).
Of all the errors that evaluation makes only these read like that (`Eval.Deserved`).
-/
import Metta.Eval.Evaluate
import Mathlib.Data.List.Basic

namespace Metta

set_option autoImplicit false

section Sequencing

variable {ε σ α β : Type} {m : EStateM ε σ α} {f : α → EStateM ε σ β} {s s' : σ}

theorem bind_of_ok {x : α} (ended : m s = .ok x s') : (m >>= f) s = f x s' := by
  show EStateM.bind m f s = _
  rw [EStateM.bind, ended]

theorem bind_of_error {e : ε} (ended : m s = .error e s') : (m >>= f) s = .error e s' := by
  show EStateM.bind m f s = _
  rw [EStateM.bind, ended]

/-- What answers in the end has answered in between. -/
theorem exists_of_bind_ok {y : β} {s'' : σ} (ended : (m >>= f) s = .ok y s'') :
    ∃ x s', m s = .ok x s' ∧ f x s' = .ok y s'' := by
  cases begun : m s with
  | ok x s' => exact ⟨x, s', rfl, (bind_of_ok begun).symm.trans ended⟩
  | error e s' =>
      rw [bind_of_error begun] at ended
      cases ended

/-- What fails in the end fails in one of its steps. -/
theorem of_bind_error {e : ε} {s'' : σ} (failed : (m >>= f) s = .error e s'') :
    m s = .error e s'' ∨ ∃ x s', m s = .ok x s' ∧ f x s' = .error e s'' := by
  cases begun : m s with
  | ok x s' => exact .inr ⟨x, s', rfl, (bind_of_ok begun).symm.trans failed⟩
  | error e' s' =>
      rw [bind_of_error begun] at failed
      cases failed
      exact .inl rfl

end Sequencing

namespace Eval

/-! ## Numbers of arguments -/

/-- The numbers of arguments that the form takes. -/
def Form.takes : Form → Nat → Bool
  | matching, n | binding, n | conditional, n => n == 3
  | bindings, n | rule, n | addAtom, n | removeAtom, n => n == 2
  | cases, n => 2 ≤ n
  | quote, n | unquote, n | collapse, n | superpose, n => n == 1
  | getAtoms, n => n ≤ 1

/-- The head looks at the number of its arguments before anything else. -/
def Head.counts : Head → Bool
  | form _ | comparison _ | logic .not => true
  | arithmetic _ | logic _ | plain => false

/-- The numbers of arguments that the head takes. -/
def Head.takes : Head → Nat → Bool
  | form f, n => f.takes n
  | comparison _, n => n == 2
  | logic .not, n => n == 1
  | arithmetic _, _ | logic _, _ | plain, _ => true

/-- The arguments that the head asks for. -/
def Head.requirement : Head → String
  | form f => f.requirement
  | comparison _ => "2 arguments"
  | logic .not => "1 argument"
  | arithmetic _ | logic _ | plain => ""

variable {name : String} {args : List Atom}

/-- A form is headed by the symbol that names it. -/
theorem Head.name_of_ofName {f : Form} (head : Head.ofName name = .form f) : f.name = name := by
  unfold Head.ofName at head
  split at head
  · rename_i g found
    cases head
    simpa using List.find?_some found
  · split at head <;> cases head

theorem Head.ofName_name (f : Form) : Head.ofName f.name = .form f := by
  cases f <;> rfl

theorem Head.ofName_comparison (c : Comparison) : Head.ofName c.name = .comparison c := by
  cases c <;> rfl

theorem Head.ofName_logic (l : Logic) : Head.ofName l.name = .logic l := by
  cases l <;> rfl

theorem Head.name_of_comparison {c : Comparison} (head : Head.ofName name = .comparison c) :
    c.name = name := by
  unfold Head.ofName at head
  split at head
  · cases head
  · split at head <;> cases head <;> rfl

theorem Head.name_of_logic {l : Logic} (head : Head.ofName name = .logic l) : l.name = name := by
  unfold Head.ofName at head
  split at head
  · cases head
  · split at head <;> cases head <;> rfl

variable {ctx : Context} {eval : Atom → Eval (List Atom)} {form : Atom}

theorem evalComparison_of_arity {c : Comparison} (wrong : args.length ≠ 2) :
    evalComparison eval form c args = arityFault c.name "2 arguments" form := by
  unfold evalComparison
  split
  · exact absurd rfl wrong
  · rfl

theorem evalLogic_of_arity (wrong : args.length ≠ 1) :
    evalLogic eval form .not args = arityFault "not" "1 argument" form := by
  unfold evalLogic
  split
  · exact absurd rfl wrong
  · rfl
  · contradiction
  · contradiction

theorem evalForm_of_not_takes {f : Form} (wrong : f.takes args.length = false) :
    evalForm ctx eval form f args = arityFault f.name f.requirement form := by
  unfold evalForm
  -- all equations but the last ask for a number of arguments that the form takes
  split
  all_goals first | rfl | simp [Form.takes] at wrong

/-- The shapes of the argument lists that a form takes. -/
theorem Form.args_of_takes {f : Form} (taken : f.takes args.length = true) :
    match f with
    | matching | binding | conditional => ∃ a b c, args = [a, b, c]
    | bindings | rule | addAtom | removeAtom => ∃ a b, args = [a, b]
    | cases => ∃ a b cs, args = a :: b :: cs
    | quote | unquote | collapse | superpose => ∃ a, args = [a]
    | getAtoms => args = [] ∨ ∃ a, args = [a] := by
  rcases args with _ | ⟨a, _ | ⟨b, _ | ⟨c, _ | ⟨d, rest⟩⟩⟩⟩ <;> cases f <;>
    simp [Form.takes] at taken ⊢

/-! ## One level of evaluation -/

/-- What the symbol at the head does with the arguments. -/
def evalHead (ctx : Context) (eval : Atom → Eval (List Atom)) (name : String) (args : List Atom) :
    Eval (List Atom) :=
  match Head.ofName name with
  | .form f => evalForm ctx eval (.expr (.symbol name :: args)) f args
  | .arithmetic op => evalArithmetic eval (.expr (.symbol name :: args)) op args
  | .comparison c => evalComparison eval (.expr (.symbol name :: args)) c args
  | .logic l => evalLogic eval (.expr (.symbol name :: args)) l args
  | .plain => reduceAndGoOn ctx eval (.expr (.symbol name :: args))

/-- The answer to a head with the wrong number of arguments. -/
theorem evalHead_of_not_takes (counts : (Head.ofName name).counts = true)
    (wrong : (Head.ofName name).takes args.length = false) :
    evalHead ctx eval name args =
      arityFault name (Head.ofName name).requirement (.expr (.symbol name :: args)) := by
  unfold evalHead
  cases head : Head.ofName name with
  | form f =>
      rw [head, Head.takes] at wrong
      simp only [evalForm_of_not_takes wrong, Head.name_of_ofName head, Head.requirement]
  | comparison c =>
      have wrong : args.length ≠ 2 := by simpa [head, Head.takes] using wrong
      simp only [evalComparison_of_arity wrong, Head.name_of_comparison head, Head.requirement]
  | logic l =>
      cases l with
      | not =>
          have wrong : args.length ≠ 1 := by simpa [head, Head.takes] using wrong
          simp only [evalLogic_of_arity wrong, ← Head.name_of_logic head, Head.requirement]
          rfl
      | and | or => simp [head, Head.counts] at counts
  | arithmetic op => simp [head, Head.counts] at counts
  | plain => simp [head, Head.counts] at counts

/-! ## Complaints about numbers of arguments -/

/-- The message reads like that of a head that has the wrong number of arguments. -/
def complains (message : String) : Bool :=
  (Head.ofName (String.ofList (message.toList.takeWhile (· != ' ')))).counts &&
    " requires ".toList.isPrefixOf (message.toList.dropWhile (· != ' '))

/-- If the error reads as if its source had the wrong number of arguments, it does have. -/
def Deserved (message : String) (source : Atom) : Prop :=
  ∀ name args description, source = .expr (.symbol name :: args) →
    (Head.ofName name).counts = true → message = name ++ " requires " ++ description →
    (Head.ofName name).takes args.length = false

/-- There is no blank in the name of a head that counts. -/
theorem Head.notBlank_of_counts (counts : (Head.ofName name).counts = true) :
    ∀ c ∈ name.toList, (c != ' ') = true := by
  rw [← List.all_eq_true]
  cases head : Head.ofName name with
  | form f =>
      rw [← Head.name_of_ofName head]
      cases f <;> rfl
  | comparison c =>
      rw [← Head.name_of_comparison head]
      cases c <;> rfl
  | logic l =>
      rw [← Head.name_of_logic head]
      cases l <;> rfl
  | arithmetic op | plain => simp [head, Head.counts] at counts

theorem complains_of_counts (counts : (Head.ofName name).counts = true) (description : String) :
    complains (name ++ " requires " ++ description) = true := by
  have split : (name ++ " requires " ++ description).toList =
      name.toList ++ ' ' :: ("requires ".toList ++ description.toList) := by simp
  have letters := Head.notBlank_of_counts counts
  unfold complains
  rw [split, List.takeWhile_append_of_pos letters, List.dropWhile_append_of_pos letters]
  simp [counts]

theorem complains_arithmeticFault (e : ArithmeticFault) : complains e.message = false := by
  cases e with
  | tooFew op => cases op <;> rfl
  | _ => rfl

theorem deserved_of_not_complains {message : String} (silent : complains message = false)
    (source : Atom) : Deserved message source := by
  rintro name args description - counts rfl
  rw [complains_of_counts counts] at silent
  cases silent

theorem deserved_unknownSpace (ref : String) (source : Atom) :
    Deserved ("Unknown space: " ++ ref) source := by
  refine deserved_of_not_complains ?_ source
  rw [complains, String.toList_append]
  rfl

theorem deserved_depthFault (limit : String) (source : Atom) :
    Deserved ("maximum evaluation depth exceeded: " ++ limit) source := by
  refine deserved_of_not_complains ?_ source
  rw [complains, String.toList_append]
  rfl

theorem deserved_of_not_takes {message : String}
    (wrong : (Head.ofName name).takes args.length = false) :
    Deserved message (.expr (.symbol name :: args)) := by
  rintro _ _ _ ⟨⟩ - -
  exact wrong

/-! ## Steps that are reported -/

/-- The step can be reported, if steps are. -/
def Reportable (settings : Settings) (a : Atom) : Prop :=
  settings.trace = true → a.isWritable = true

instance (settings : Settings) (a : Atom) : Decidable (Reportable settings a) :=
  inferInstanceAs (Decidable (settings.trace = true → a.isWritable = true))

/-- The report of a step that can be written changes nothing but the log. -/
theorem exists_traced {w : World} {message : Unit → Except Unwritable String}
    (written : ctx.settings.trace = true → ∃ text, message () = .ok text) :
    ∃ log, ctx.trace message w = .ok () { w with log } := by
  unfold Context.trace
  split
  · rename_i traced
    obtain ⟨text, written⟩ := written traced
    rw [written]
    exact ⟨_, rfl⟩
  · exact ⟨_, rfl⟩

theorem exists_reported {a : Atom} (reportable : Reportable ctx.settings a) (w : World) :
    ∃ log, ctx.trace (fun _ => do return "eval " ++ (← a.written)) w = .ok () { w with log } := by
  refine exists_traced fun traced => ?_
  rw [(Atom.written_eq_ok_iff _ _).mpr ⟨reportable traced, rfl⟩]
  exact ⟨_, rfl⟩

/-- One level of evaluation, where the step can be reported. -/
theorem exists_step (reportable : Reportable ctx.settings (.expr (.symbol name :: args)))
    (w : World) : ∃ log, step ctx eval (.expr (.symbol name :: args)) w =
      evalHead ctx eval name args { w with log } := by
  obtain ⟨log, reported⟩ := exists_reported reportable w
  exact ⟨log, bind_of_ok reported⟩

/-- Where the step cannot be reported, nothing happens. -/
theorem exists_unreported_step {a : Atom} (unwritable : ¬ Reportable ctx.settings a) (w : World) :
    ∃ e, a.written = .error e ∧ step ctx eval a w = .error (.unwritable e) w := by
  obtain ⟨traced, unwritable⟩ := Classical.not_imp.mp unwritable
  obtain ⟨e, failed⟩ := Atom.exists_written_error unwritable
  refine ⟨e, failed, bind_of_error ?_⟩
  unfold Context.trace
  rw [if_pos traced, failed]
  rfl

/-! ## Evaluation with its limits -/

/-- What a form is told at a depth of the evaluation under these settings. -/
abbrev Context.quiet (settings : Settings) (self : String) (depth : Nat) : Context :=
  ⟨settings, self, depth, (Handling.quiet settings).reduce⟩

variable {settings : Settings} {self : String}

theorem exists_evaluate (reportable : Reportable settings (.expr (.symbol name :: args)))
    (levels depth : Nat) (w : World) :
    ∃ log, evaluate settings self (levels + 1) depth (.expr (.symbol name :: args)) w =
      evalHead (.quiet settings self depth) (evaluate settings self levels (depth + 1)) name args
        { w with log } :=
  exists_step reportable w

theorem exists_unreported_evaluate {a : Atom} (unwritable : ¬ Reportable settings a)
    (levels depth : Nat) (w : World) : ∃ e, a.written = .error e ∧
      evaluate settings self (levels + 1) depth a w = .error (.unwritable e) w :=
  exists_unreported_step unwritable w

/-- The limits leave a level of evaluation unless the greatest depth is negative. -/
theorem levels_of_depth (depth : 0 ≤ settings.maxDepth) :
    settings.levels = settings.maxDepth.toNat + 1 := by
  unfold Settings.levels
  omega

theorem exists_interpret (self : String) (depth : 0 ≤ settings.maxDepth)
    (reportable : Reportable settings (.expr (.symbol name :: args))) (w : World) :
    ∃ log, interpret settings self (.expr (.symbol name :: args)) w =
      evalHead (.quiet settings self 0) (evaluate settings self settings.maxDepth.toNat 1) name args
        { w with log } := by
  rw [interpret, levels_of_depth depth]
  exact exists_evaluate reportable settings.maxDepth.toNat 0 w

theorem exists_unreported_interpret {a : Atom} (depth : 0 ≤ settings.maxDepth)
    (unwritable : ¬ Reportable settings a) (w : World) :
    ∃ e, a.written = .error e ∧ interpret settings self a w = .error (.unwritable e) w := by
  rw [interpret, levels_of_depth depth]
  exact exists_unreported_evaluate unwritable settings.maxDepth.toNat 0 w

/-- A negative greatest depth allows no evaluation. -/
theorem interpret_of_depth_neg (depth : settings.maxDepth < 0) (a : Atom) (w : World) :
    interpret settings self a w = .ok [depthFault settings a] w := by
  have levels : settings.levels = 0 := by
    unfold Settings.levels
    omega
  rw [interpret, levels]
  rfl

end Eval

end Metta
