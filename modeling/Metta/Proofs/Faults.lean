/-
# Metta.Proofs.Faults -- what can go wrong in a session

An evaluation ends in a fault where a guard does, and where it has to write an atom that
has no written form.  Text gives neither: the rules that a form defines have no guards,
and all atoms that come from text can be written.  So whatever a session has been through,
an operation on text fails only if the text does not parse, which is found out before
anything is done (`Session.FailsAsRead`).

What goes wrong during an evaluation is a mishap (`Eval.Mishap`): a number too large for a
float, a zero divisor, a wrong number of arguments, a space that is not there.  The form in
which it happens answers with an error atom whose source is the form.
-/
import Metta.Proofs.History

namespace Metta

set_option autoImplicit false

namespace Eval

/-! ## Numbers -/

section Numbers

variable {op : Arithmetic} {values : List Atom} {xs : List Float} {e : ArithmeticFault}

theorem Arithmetic.apply_of_tooLarge {v : Atom} (member : v ∈ values)
    (large : asFloat v = .tooLarge) : op.apply values = .error .overflow := by
  have viewed : FloatView.tooLarge ∈ values.map asFloat := List.mem_map.mpr ⟨v, member, large⟩
  have failed : floats values = .error .overflow :=
    if_pos (List.any_eq_true.mpr ⟨_, viewed, rfl⟩)
  rw [apply, failed]
  rfl

theorem Arithmetic.apply_of_fold (numbers : floats values = .ok xs)
    (failed : op.fold xs = .error e) : op.apply values = .error e := by
  rw [apply, numbers]
  show (op.fold xs >>= _) = _
  rw [failed]
  rfl

/-- The numbers that an operator needs. -/
def Arithmetic.needs : Arithmetic → Nat
  | add | multiply => 0
  | subtract => 1
  | divide => 2

theorem Arithmetic.fold_of_tooFew (fewer : xs.length < op.needs) :
    op.fold xs = .error (.tooFew op) := by
  cases op with
  | add | multiply => cases fewer
  | subtract =>
      obtain rfl : xs = [] := by simpa [needs] using fewer
      rfl
  | divide =>
      match xs, fewer with
      | [], _ | [_], _ => rfl

theorem Arithmetic.fold_of_zero {x y : Float} (member : y ∈ xs) (zero : (y == 0.0) = true) :
    divide.fold (x :: xs) = .error .divisionByZero := by
  cases xs with
  | nil => cases member
  | cons first others =>
      exact if_pos (List.any_eq_true.mpr ⟨y, member, zero⟩)

/-- Where all failures are the same, one of them is enough. -/
theorem mapM_eq_error {ε α β : Type} {f : α → Except ε β} {e : ε} {xs : List α} {x : α}
    (only : ∀ x e', f x = .error e' → e' = e) (member : x ∈ xs) (failed : f x = .error e) :
    xs.mapM f = .error e := by
  induction xs with
  | nil => cases member
  | cons x' xs ih =>
      rw [List.mapM_cons]
      cases first : f x' with
      | error e' =>
          rw [only x' e' first]
          rfl
      | ok y =>
          rcases List.mem_cons.mp member with rfl | later
          · rw [failed] at first
            cases first
          · rw [ih later]
            rfl

/-- Nothing but an overflow keeps two atoms from being compared. -/
theorem Comparison.answer_error {c : Comparison} {l r : Atom} (failed : c.answer l r = .error e) :
    e = .overflow := by
  unfold answer at failed
  split at failed
  · cases failed
    rfl
  · cases failed
    rfl
  · cases failed
  · cases failed

theorem Comparison.answer_of_tooLarge {c : Comparison} {l r : Atom}
    (large : asFloat l = .tooLarge ∨ asFloat r = .tooLarge) : c.answer l r = .error .overflow := by
  unfold answer
  rcases large with left | right
  · rw [left]
  · rw [right]
    cases asFloat l <;> rfl

/-- One number that is too large spoils the comparison of all. -/
theorem Comparison.answers_of_tooLarge {c : Comparison} {lefts rights : List Atom} {l r : Atom}
    (left : l ∈ lefts) (right : r ∈ rights)
    (large : asFloat l = .tooLarge ∨ asFloat r = .tooLarge) :
    c.answers lefts rights = .error .overflow := by
  have member : (l, r) ∈ lefts.flatMap fun l => rights.map fun r => (l, r) :=
    List.mem_flatMap.mpr ⟨l, left, List.mem_map_of_mem right⟩
  have failed : (fun p : Atom × Atom => c.answer p.1 p.2) (l, r) = .error .overflow :=
    answer_of_tooLarge large
  rw [answers, mapM_eq_error (fun p e => answer_error) member failed]
  rfl

end Numbers

/-! ## Mishaps -/

/-- The form looks up the space that its first argument refers to, if it has one. -/
def Form.looksUp : Form → Bool
  | matching | addAtom | removeAtom | getAtoms => true
  | _ => false

/-- The atom means the space evaluated against, or a registered one. -/
def Refers (w : World) (ref : Atom) : Prop :=
  ref = .symbol "&self" ∨ ∃ name, ref = .symbol ("&" ++ name) ∧ (w.space? name).isSome = true

/-- `Mishap eval form message w w'`: evaluating the form in the world `w` something goes wrong, as
the message says, when evaluating its parts has led to the world `w'`. -/
inductive Mishap (eval : Atom → Eval (List Atom)) : Atom → String → World → World → Prop
  /-- A number is too large to calculate with. -/
  | tooLarge {name : String} {op : Arithmetic} {args values : List Atom} {v : Atom} {w w' : World}
      (head : Head.ofName name = .arithmetic op) (evaluated : collect eval args w = .ok values w')
      (member : v ∈ values) (large : asFloat v = .tooLarge) :
      Mishap eval (.expr (.symbol name :: args)) "Numeric overflow" w w'
  /-- There are too few numbers to calculate with. -/
  | tooFew {name : String} {op : Arithmetic} {args values : List Atom} {xs : List Float}
      {w w' : World} (head : Head.ofName name = .arithmetic op)
      (evaluated : collect eval args w = .ok values w') (numbers : floats values = .ok xs)
      (fewer : xs.length < op.needs) :
      Mishap eval (.expr (.symbol name :: args)) (ArithmeticFault.tooFew op).message w w'
  | zeroDivisor {name : String} {args values : List Atom} {x y : Float} {xs : List Float}
      {w w' : World} (head : Head.ofName name = .arithmetic .divide)
      (evaluated : collect eval args w = .ok values w') (numbers : floats values = .ok (x :: xs))
      (member : y ∈ xs) (zero : (y == 0.0) = true) :
      Mishap eval (.expr (.symbol name :: args)) "Division by zero" w w'
  /-- A number is too large to compare. -/
  | tooLargeCompared {name : String} {c : Comparison} {left right l r : Atom}
      {lefts rights : List Atom} {w w₁ w' : World} (head : Head.ofName name = .comparison c)
      (first : eval left w = .ok lefts w₁) (second : eval right w₁ = .ok rights w')
      (inLefts : l ∈ lefts) (inRights : r ∈ rights)
      (large : asFloat l = .tooLarge ∨ asFloat r = .tooLarge) :
      Mishap eval (.expr [.symbol name, left, right]) "Numeric overflow" w w'
  | comparisonArity {name : String} {c : Comparison} {args : List Atom} {w : World}
      (head : Head.ofName name = .comparison c) (wrong : args.length ≠ 2) :
      Mishap eval (.expr (.symbol name :: args)) (c.name ++ " requires " ++ "2 arguments") w w
  | negationArity {name : String} {args : List Atom} {w : World}
      (head : Head.ofName name = .logic .not) (wrong : args.length ≠ 1) :
      Mishap eval (.expr (.symbol name :: args)) "not requires 1 argument" w w
  | formArity {name : String} {f : Form} {args : List Atom} {w : World}
      (head : Head.ofName name = .form f) (wrong : f.takes args.length = false) :
      Mishap eval (.expr (.symbol name :: args)) (f.name ++ " requires " ++ f.requirement) w w
  | unknownSpace {name : String} {f : Form} {ref : Atom} {args : List Atom} {w : World}
      (head : Head.ofName name = .form f) (looksUp : f.looksUp = true)
      (right : f.takes (args.length + 1) = true) (unknown : ¬ Refers w ref) :
      Mishap eval (.expr (.symbol name :: ref :: args)) ("Unknown space: " ++ ref.render) w w

variable {ctx : Context} {eval : Atom → Eval (List Atom)} {form : Atom} {w w' : World}

theorem evalArithmetic_of_apply {op : Arithmetic} {args values : List Atom} {e : ArithmeticFault}
    (evaluated : collect eval args w = .ok values w') (failed : op.apply values = .error e) :
    evalArithmetic eval form op args w = .ok [.error e.message (some form)] w' := by
  unfold evalArithmetic
  rw [bind_of_ok evaluated, failed]
  rfl

theorem evalComparison_of_answers {c : Comparison} {left right : Atom} {lefts rights : List Atom}
    {w₁ : World} {e : ArithmeticFault} (first : eval left w = .ok lefts w₁)
    (second : eval right w₁ = .ok rights w') (failed : c.answers lefts rights = .error e) :
    evalComparison eval form c [left, right] w = .ok [.error e.message (some form)] w' := by
  refine (bind_of_ok first).trans ?_
  rw [bind_of_ok second, failed]
  rfl

theorem resolve_of_not_refers {ref : Atom} (unknown : ¬ Refers w ref) :
    ctx.resolve ref w = .ok none w := by
  cases ref with
  | symbol ref =>
      unfold Context.resolve
      simp only
      rw [if_neg fun here => unknown (.inl (by rw [here]))]
      split
      · rename_i name chars
        have spelled : ref = "&" ++ String.ofList name := by
          rw [← String.toList_inj, chars]
          simp
        cases found : w.space? (String.ofList name) with
        | none => rfl
        | some s => exact absurd (.inr ⟨_, by rw [spelled], by rw [found]; rfl⟩) unknown
      · rfl
  | _ => rfl

theorem evalForm_of_not_refers {f : Form} {ref : Atom} {args : List Atom}
    (looksUp : f.looksUp = true) (right : f.takes (args.length + 1) = true)
    (writable : ref.isWritable = true) (unknown : ¬ Refers w ref) :
    evalForm ctx eval form f (ref :: args) w =
      .ok [.error ("Unknown space: " ++ ref.render) (some form)] w := by
  have written := (Atom.written_eq_ok_iff ref _).mpr ⟨writable, rfl⟩
  have answered : unknownSpace ref form w =
      .ok [.error ("Unknown space: " ++ ref.render) (some form)] w := by
    unfold unknownSpace
    rw [written]
    rfl
  have unresolved : ctx.resolve ref w = .ok none w := resolve_of_not_refers unknown
  cases f with
  | matching =>
      match args, right with
      | [_, _], _ => exact (bind_of_ok unresolved).trans answered
  | addAtom | removeAtom =>
      match args, right with
      | [_], _ => exact (bind_of_ok unresolved).trans answered
  | getAtoms =>
      match args, right with
      | [], _ => exact (bind_of_ok unresolved).trans answered
  | _ => cases looksUp

/-- **A mishap is answered with an error atom**, which is the only answer, and nothing but the log
has been changed before the parts of the form were evaluated. -/
theorem step_of_mishap (writable : form.isWritable = true) (w : World) :
    ∃ log, ∀ message w', Mishap eval form message { w with log } w' →
      step ctx eval form w = .ok [.error message (some form)] w' := by
  have reportable : Reportable ctx.settings form := fun _ => writable
  obtain ⟨log, reported⟩ := exists_reported reportable w
  refine ⟨log, fun message w' mishap => ?_⟩
  refine (bind_of_ok reported).trans ?_
  cases mishap with
  | tooLarge head evaluated member large =>
      simp only [head]
      exact evalArithmetic_of_apply evaluated (Arithmetic.apply_of_tooLarge member large)
  | tooFew head evaluated numbers fewer =>
      simp only [head]
      have failed := Arithmetic.apply_of_fold numbers (Arithmetic.fold_of_tooFew fewer)
      exact evalArithmetic_of_apply evaluated failed
  | zeroDivisor head evaluated numbers member zero =>
      simp only [head]
      have failed := Arithmetic.apply_of_fold numbers (Arithmetic.fold_of_zero member zero)
      exact evalArithmetic_of_apply evaluated failed
  | tooLargeCompared head first second inLefts inRights large =>
      simp only [head]
      exact evalComparison_of_answers first second
        (Comparison.answers_of_tooLarge inLefts inRights large)
  | comparisonArity head wrong =>
      simp only [head]
      rw [evalComparison_of_arity wrong]
      rfl
  | negationArity head wrong =>
      simp only [head]
      rw [evalLogic_of_arity wrong]
      rfl
  | formArity head wrong =>
      simp only [head]
      rw [evalForm_of_not_takes wrong]
      rfl
  | unknownSpace head looksUp right unknown =>
      simp only [head]
      rw [Atom.isWritable_expr, List.all_eq_true] at writable
      exact evalForm_of_not_refers looksUp right (writable _ (by simp)) unknown

end Eval

namespace Session

variable {α β : Type} {s : Session} {text : String}

/-! ## Operations that answer -/

/-- The operation answers. -/
def Answers (m : Act α) (s : Session) : Prop := ∃ x s', m s = .ok x s'

theorem answers_pure (x : α) (s : Session) : Answers (pure x) s := ⟨x, s, rfl⟩

theorem Answers.bind {m : Act α} {f : α → Act β} (first : Answers m s)
    (next : ∀ x s', Answers (f x) s') : Answers (m >>= f) s := by
  obtain ⟨x, s', ended⟩ := first
  obtain ⟨y, s'', ended'⟩ := next x s'
  exact ⟨y, s'', (bind_of_ok ended).trans ended'⟩

/-- A loop that is never left early. -/
theorem answers_forIn {f : α → PUnit → Act (ForInStep PUnit)}
    (each : ∀ x s, ∃ s', f x ⟨⟩ s = .ok (.yield ⟨⟩) s') (xs : List α) (s : Session) :
    Answers (forIn xs ⟨⟩ f) s := by
  induction xs generalizing s with
  | nil => exact answers_pure _ s
  | cons x xs ih =>
      obtain ⟨s', yielded⟩ := each x s
      obtain ⟨y, s'', ended⟩ := ih s'
      rw [List.forIn_cons]
      exact ⟨y, s'', (bind_of_ok yielded).trans ended⟩

theorem answers_useSpace (name : String) (s : Session) : Answers (useSpace name) s := by
  unfold Answers useSpace
  split <;> exact ⟨_, _, rfl⟩

/-- Evaluation that does not fail, in a world that holds only atoms of the class. -/
theorem answers_evaluating {Good : Atom → Prop} {P : α → Prop} {m : Eval α}
    (pairs : (Eval.Coupling.holding Good).Pairs P m m) (holds : Holds Good s) :
    Answers (evaluating m) s := by
  have outcomes := pairs s.world s.world ⟨rfl, holds⟩
  unfold Answers evaluating
  generalize m s.world = r at outcomes ⊢
  cases outcomes with
  | ok _ _ => exact ⟨_, _, rfl⟩
  | error _ fails => exact absurd fails id
  | stopped given => exact absurd given id

/-! ## Operations on text -/

/-- The operation answers if the text can be parsed.  Otherwise it fails with what is wrong with the
text, and leaves the session as it was. -/
def FailsAsRead (text : String) (m : Act α) (s : Session) : Prop :=
  match Atom.parse text with
  | .ok _ => Answers m s
  | .error e => m s = .error (.malformed e) s

theorem failsAsRead_parsing {f : List Atom → Act α}
    (answers : ∀ as, Atom.parse text = .ok as → Answers (f as) s) :
    FailsAsRead text (parsing text >>= f) s := by
  unfold FailsAsRead
  cases parsed : Atom.parse text with
  | ok as =>
      obtain ⟨x, s', ended⟩ := answers as parsed
      exact ⟨x, s', (bind_of_ok (parsing_of_parse parsed s)).trans ended⟩
  | error e => exact bind_of_error (parsing_of_unread parsed s)

theorem FailsAsRead.bind {m : Act α} {f : α → Act β} (read : FailsAsRead text m s)
    (next : ∀ x s', Answers (f x) s') : FailsAsRead text (m >>= f) s := by
  unfold FailsAsRead at read ⊢
  cases parsed : Atom.parse text with
  | ok as =>
      rw [parsed] at read
      exact Answers.bind read next
  | error e =>
      rw [parsed] at read
      exact bind_of_error read

/-- The operation fails only where some text cannot be parsed, and then leaves the session as it
was. -/
def OnlyMalformed (m : Act α) (s : Session) : Prop :=
  ∀ e s', m s = .error e s' → s' = s ∧ ∃ p, e = .malformed p

theorem Answers.onlyMalformed {m : Act α} (answers : Answers m s) : OnlyMalformed m s := by
  intro e s' failed
  obtain ⟨x, last, ended⟩ := answers
  cases ended.symm.trans failed

theorem FailsAsRead.onlyMalformed {m : Act α} (read : FailsAsRead text m s) :
    OnlyMalformed m s := by
  unfold FailsAsRead at read
  split at read
  · exact Answers.onlyMalformed read
  · intro e s' failed
    cases read.symm.trans failed
    exact ⟨rfl, _, rfl⟩

theorem OnlyMalformed.bind {m : Act α} {f : α → Act β} (first : OnlyMalformed m s)
    (next : ∀ x s', Answers (f x) s') : OnlyMalformed (m >>= f) s := by
  intro e s' failed
  cases ended : m s with
  | ok x middle =>
      rw [bind_of_ok ended] at failed
      obtain ⟨y, last, answered⟩ := next x middle
      cases answered.symm.trans failed
  | error e' middle =>
      rw [bind_of_error ended] at failed
      cases failed
      exact first _ _ ended

variable {Good : Atom → Prop}

theorem failsAsRead_run (textual : Atom.Textual Good) (holds : Holds Good s) (code : String) :
    FailsAsRead code (run code) s :=
  failsAsRead_parsing fun _ parsed =>
    answers_evaluating (Eval.collect_holding textual _ _ (textual.read parsed)) holds

theorem failsAsRead_eval (textual : Atom.Textual Good) (holds : Holds Good s) (code : String) :
    FailsAsRead code (eval code) s :=
  (failsAsRead_run textual holds code).bind fun _ => answers_pure _

theorem failsAsRead_add (code : String) (s : Session) : FailsAsRead code (add code) s := by
  refine failsAsRead_parsing fun as _ => ?_
  refine (answers_forIn (fun a s => ⟨_, rfl⟩) as s).bind fun _ => answers_pure _

theorem failsAsRead_query (pattern : String) (s : Session) :
    FailsAsRead pattern (query pattern) s := by
  refine failsAsRead_parsing fun as _ => ?_
  split <;> exact ⟨_, _, rfl⟩

/-- The prelude is text like any other, and is evaluated unless it has been before. -/
theorem onlyMalformed_loadPrelude (textual : Atom.Textual Good) (holds : Holds Good s) :
    OnlyMalformed loadPrelude s := by
  unfold loadPrelude
  generalize Prelude.source = code
  have got : (get : Act Session) s = .ok s s := rfl
  unfold OnlyMalformed
  rw [bind_of_ok got]
  split
  · exact (answers_pure _ s).onlyMalformed
  · exact (failsAsRead_run textual holds code).onlyMalformed.bind fun _ s => ⟨_, _, rfl⟩

theorem onlyMalformed_perform (textual : Atom.Textual Good) (holds : Holds Good s) (r : Request) :
    OnlyMalformed r.perform s := by
  have nothing : ∀ s, Answers (pure [] : Act (List Atom)) s := answers_pure _
  cases r with
  | run code => exact (failsAsRead_run textual holds code).onlyMalformed
  | eval code =>
      exact (failsAsRead_eval textual holds code).onlyMalformed.bind fun a => answers_pure a.toList
  | add code => exact (failsAsRead_add code s).onlyMalformed.bind fun _ => nothing
  | query pattern =>
      exact (failsAsRead_query pattern s).onlyMalformed.bind fun _ => answers_pure _
  | useSpace name => exact (answers_useSpace name s).onlyMalformed.bind fun _ => nothing
  | loadPrelude => exact (onlyMalformed_loadPrelude textual holds).bind fun _ => nothing

/-- **The only failure of a session is malformed text, and it changes nothing.**  Whatever has been
asked of a session in text before, an operation on a text answers if the text can be parsed, and
otherwise fails with what is wrong with it and leaves the session as it was; no other request fails
in another way.  What goes wrong during an evaluation, at whatever depth, in a form that can be
written, as all forms can that come from text, is answered with an error atom; and before the parts
of the form were evaluated nothing but the log has been changed. -/
theorem performAll_fails_as_read (settings : Settings) (rs : List Request) (text : String) :
    let s := (performAll rs (start settings)).2
    FailsAsRead text (run text) s ∧ FailsAsRead text (eval text) s ∧
    FailsAsRead text (add text) s ∧ FailsAsRead text (query text) s ∧
    (∀ r : Request, OnlyMalformed r.perform s) ∧
    ∀ (self : String) (levels depth : Nat) (form : Atom) (w : World), form.isWritable = true →
      ∃ log, ∀ message w',
        Eval.Mishap (Eval.evaluate settings self levels (depth + 1)) form message
          { w with log } w' →
        Eval.evaluate settings self (levels + 1) depth form w =
          .ok [.error message (some form)] w' := by
  have textual := Atom.textual_spelled
  obtain ⟨-, holds⟩ := performAll_holds textual rs (holds_start settings)
  exact ⟨failsAsRead_run textual holds text, failsAsRead_eval textual holds text,
    failsAsRead_add text _, failsAsRead_query text _, onlyMalformed_perform textual holds,
    fun _ _ _ _ w writable => Eval.step_of_mishap writable w⟩

/-- In a session with two spaces, a text that ends too early and a form that refers to neither. -/
theorem performAll_fails_as_read_unclosed :
    let s := (performAll [.useSpace "other"] (start {})).2
    let form : Atom := .expr [.symbol "get-atoms", .symbol "&nowhere"]
    run "(f" s = .error (.malformed ⟨.unclosed, 0⟩) s ∧
      ∃ log, Eval.evaluate {} "other" 1 0 form s.world =
        .ok [.error "Unknown space: &nowhere" (some form)] { s.world with log } := by
  intro s form
  obtain ⟨runs, -, -, -, -, mishaps⟩ := performAll_fails_as_read {} [.useSpace "other"] "(f"
  refine ⟨runs, ?_⟩
  obtain ⟨log, answered⟩ := mishaps "other" 0 0 form s.world rfl
  refine ⟨log, answered _ _ (.unknownSpace rfl rfl rfl ?_)⟩
  rintro (same | ⟨name, same, registered⟩)
  · exact absurd (Atom.symbol.inj same) (by decide)
  · have spelled : "&" ++ "nowhere" = "&" ++ name := Atom.symbol.inj same
    rw [← (String.append_right_inj "&").mp spelled] at registered
    cases registered

end Session

end Metta
