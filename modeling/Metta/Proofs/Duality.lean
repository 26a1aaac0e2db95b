/-
# Metta.Proofs.Duality -- De Morgan's laws for evaluation

A conjunction that is negated and the disjunction of the negated arguments do the same
evaluations: all arguments, in the same order, each once and at the same depth.  What they
report on the way differs.  But evaluation does not look at the log (`preserves_besideLog`), so
if the one ends the other does, both in the same way and with the same spaces
(`Eval.interpret_deMorgan`); the values of the arguments, however many there are of each, come to
the same truth value (`Logic.joins_negated`).  The two are paired for any way to handle the limits
(`pairs_deMorgan`), and so both where reductions are cut off and where they are not.

An argument need not answer.  What it has to report may have no written form
(`Eval.conjunction_unwritten`), and then both sides fail for the same reason; with a NaN in it its
evaluation may have no end.  Where everything can be written and no NaN is in it both sides answer,
for evaluation leaves neither of the two classes (`Atom.closed_writable`, `Atom.closed_nanFree`).
-/
import Metta.Proofs.Ending

namespace Metta

set_option autoImplicit false

/-! ## Atoms that can be written -/

namespace Atom

/-- The atom has a written form. -/
def Writable (a : Atom) : Prop := a.isWritable = true

instance (a : Atom) : Decidable a.Writable := inferInstanceAs (Decidable (a.isWritable = true))

theorem leafwise_writable : Leafwise Writable := by
  intro cs
  rw [Writable, isWritable_expr, List.all_eq_true]
  rfl

theorem closed_writable : Closed Writable where
  leafwise := leafwise_writable
  empty := rfl
  error _ _ _ source := source
  truth _ := rfl
  number _ _ := rfl

theorem Writable.written_ne_error {a : Atom} (writable : a.Writable) (e : Unwritable) :
    a.written ≠ .error e := by
  rw [(written_eq_ok_iff a _).mpr ⟨writable, rfl⟩]
  rintro ⟨⟩

@[simp] theorem isTruthy_ofBool (b : Bool) : (ofBool b).isTruthy = b := by
  cases b <;> rfl

/-- The atom under a negation. -/
def negation (a : Atom) : Atom := .expr [.symbol "not", a]

theorem fault?_negation (a : Atom) : a.negation.fault? = a.fault? := by
  rw [negation, fault?_headed, firstFault?_singleton]

theorem firstFault?_negation (args : List Atom) :
    firstFault? (args.map negation) = firstFault? args := by
  induction args with
  | nil => rfl
  | cons a args ih => simp only [List.map_cons, firstFault?, fault?_negation, ih]

theorem writable_of_firstFault? {a : Atom} {args : List Atom} (same : a.fault? = firstFault? args) :
    a.Writable ↔ ∀ b ∈ args, b.Writable := by
  rw [Writable, isWritable, Option.isNone_iff_eq_none, same, firstFault?_eq_none_iff]
  rfl

theorem nanFree_headed {name : String} {args : List Atom} :
    (expr (.symbol name :: args)).NaNFree ↔ ∀ a ∈ args, a.NaNFree := by
  rw [leafwise_nanFree, List.forall_mem_cons]
  exact and_iff_right ((nanFree_leaf (by simp [kind])).mpr rfl)

end Atom

namespace Eval

open Coupling

/-! ## Worlds that differ in the log -/

variable {Good : Atom → Prop} {fails : EvalFault → Prop}

/-- The worlds have the same spaces.  Rules have no guards, and what is stored is of the class. -/
def Coupling.besideLog (Good : Atom → Prop) (fails : EvalFault → Prop) : Coupling where
  rel w w' := w'.spaces = w.spaces ∧ w.Holds Good fun r => r.guard = none ∧ Good r.template
  stops _ := False
  fails := fails

theorem preserves_besideLog
    (writes : ∀ a e, Good a → a.written = .error e → fails (.unwritable e)) (home : String) :
    (Coupling.besideLog Good fails).Preserves Good home where
  space := by
    rintro w w' name ⟨same, -⟩ -
    rw [World.space?, World.space?, same]
  atoms := by
    rintro w w' name ⟨-, holds⟩ -
    exact (holds.space name).atoms
  rules := by
    rintro w w' ⟨-, holds⟩ r member
    obtain ⟨unguarded, template⟩ := (holds.space home).rules r member
    exact ⟨Rule.decided_of_guard_eq_none unguarded, template⟩
  faults := by
    intro r a e decided failed
    exact absurd failed (Rule.Decided.apply_ne_error decided a e)
  report := by
    rintro w w' r ⟨same, holds⟩
    exact ⟨same, holds⟩
  add := by
    rintro w w' name a - - good ⟨same, holds⟩
    exact ⟨by simp only [World.change, same], holds.change fun s held => held.add good⟩
  remove := by
    rintro w w' name a - - - ⟨same, holds⟩
    exact ⟨by simp only [World.change, same], holds.change fun s held => held.remove a⟩
  writes good e failed := writes _ e good failed
  addRule := by
    rintro w w' r - unguarded - template ⟨same, holds⟩
    exact ⟨by simp only [World.change, same],
      holds.change fun s held => held.addRule ⟨unguarded, template⟩⟩

section Silence

variable {α : Type} {P : α → Prop} {m m' : Eval α} {report : Eval Unit}

/-- The step changes nothing but the log. -/
def Silent (report : Eval Unit) : Prop := ∀ w, ∃ log, report w = .ok () { w with log }

theorem Silent.pairs_left (silent : Silent report)
    (pairs : (Coupling.besideLog Good fails).Pairs P m m') :
    (Coupling.besideLog Good fails).Pairs P (report >>= fun _ => m) m' := by
  intro w w' rel
  obtain ⟨log, reported⟩ := silent w
  rw [bind_of_ok reported]
  exact pairs _ _ rel

theorem Silent.pairs_right (silent : Silent report)
    (pairs : (Coupling.besideLog Good fails).Pairs P m m') :
    (Coupling.besideLog Good fails).Pairs P m (report >>= fun _ => m') := by
  intro w w' rel
  obtain ⟨log, reported⟩ := silent w'
  rw [bind_of_ok reported]
  exact pairs _ _ rel

end Silence

/-! ## Conjunctions and disjunctions -/

/-- What the values of all arguments come to. -/
def Logic.joins : Logic → List Atom → Bool
  | .or, values => values.any Atom.isTruthy
  | _, values => values.all Atom.isTruthy

def Logic.dual : Logic → Logic
  | .and => .or
  | .or => .and
  | .not => .not

/-- De Morgan's laws for lists of values. -/
theorem Logic.joins_negated {l : Logic} (junction : l ≠ .not) (values : List Atom) :
    l.dual.joins (values.map fun v => .ofBool !v.isTruthy) = !l.joins values := by
  cases l with
  | not => exact absurd rfl junction
  | and => simp [dual, joins, Function.comp_def, List.not_all_eq_any_not]
  | or => simp [dual, joins, Function.comp_def, List.not_any_eq_all_not]

theorem collect_map {α β : Type} (f : β → Eval (List Atom)) (g : α → β) (xs : List α) :
    collect f (xs.map g) = collect (fun x => f (g x)) xs := by
  induction xs with
  | nil => rfl
  | cons x xs ih => simp only [List.map_cons, collect, ih]

/-- What is done to every answer may as well be done to all of them in the end. -/
theorem collect_answers {α : Type} (f : α → Eval (List Atom)) (g : Atom → Atom) (xs : List α) :
    collect (fun x => f x >>= fun as => pure (as.map g)) xs =
      collect f xs >>= fun as => pure (as.map g) := by
  induction xs with
  | nil => rfl
  | cons x xs ih => simp only [collect, ih, bind_assoc, pure_bind, List.map_append]

variable {handling : Handling} {settings : Settings} {self : String} {args : List Atom} {l : Logic}
  {w : World}

/-- The report of a step of evaluation. -/
def reporting (settings : Settings) (self : String) (depth : Nat) (a : Atom) : Eval Unit :=
  (Context.quiet settings self depth).trace fun _ => do return "eval " ++ (← a.written)

theorem silent_reporting {a : Atom} (reportable : Reportable settings a) (depth : Nat) :
    Silent (reporting settings self depth a) := by
  have reportable : Reportable (Context.quiet settings self depth).settings a := reportable
  exact exists_reported reportable

theorem evaluateWith_negation (levels depth : Nat) (a : Atom) :
    evaluateWith handling settings self (levels + 1) depth a.negation =
      (reporting settings self depth a.negation >>= fun _ =>
        evaluateWith handling settings self levels (depth + 1) a) >>= fun as =>
          pure (as.map fun v => .ofBool !v.isTruthy) := by
  rw [bind_assoc]
  rfl

theorem evaluateWith_junction (junction : l ≠ .not) (levels depth : Nat) (args : List Atom) :
    evaluateWith handling settings self (levels + 1) depth (.expr (.symbol l.name :: args)) =
      reporting settings self depth (.expr (.symbol l.name :: args)) >>= fun _ =>
        collect (evaluateWith handling settings self levels (depth + 1)) args >>= fun values =>
          pure [.ofBool (l.joins values)] := by
  cases l with
  | not => exact absurd rfl junction
  | and | or => rfl

/-- The junction of the arguments, negated. -/
def denial (l : Logic) (args : List Atom) : Atom :=
  (Atom.expr (.symbol l.name :: args)).negation

/-- The dual junction of the negated arguments. -/
def denials (l : Logic) (args : List Atom) : Atom :=
  .expr (.symbol l.dual.name :: args.map Atom.negation)

theorem fault?_denial : (denial l args).fault? = Atom.firstFault? args :=
  (Atom.fault?_negation _).trans (Atom.fault?_headed _ args)

theorem fault?_denials : (denials l args).fault? = Atom.firstFault? args :=
  (Atom.fault?_headed _ _).trans (Atom.firstFault?_negation args)

theorem nanFree_denial : (denial l args).NaNFree ↔ ∀ a ∈ args, a.NaNFree :=
  Atom.nanFree_headed.trans (List.forall_mem_singleton.trans Atom.nanFree_headed)

variable {levels : Nat}

theorem evaluateWith_denial (enough : settings.levels = levels + 1 + 1) (junction : l ≠ .not)
    (args : List Atom) :
    evaluateWith handling settings self settings.levels 0 (denial l args) =
      reporting settings self 0 (denial l args) >>= fun _ =>
        reporting settings self 1 (.expr (.symbol l.name :: args)) >>= fun _ =>
          collect (evaluateWith handling settings self levels 2) args >>= fun values =>
            pure [.ofBool !l.joins values] := by
  rw [enough, denial, evaluateWith_negation, evaluateWith_junction junction]
  simp only [bind_assoc, pure_bind, List.map_cons, List.map_nil, Atom.isTruthy_ofBool]

/-- The same evaluations, with other reports in between. -/
theorem evaluateWith_denials (enough : settings.levels = levels + 1 + 1) (junction : l ≠ .not)
    (args : List Atom) :
    evaluateWith handling settings self settings.levels 0 (denials l args) =
      reporting settings self 0 (denials l args) >>= fun _ =>
        collect (fun a => reporting settings self 1 a.negation >>= fun _ =>
          evaluateWith handling settings self levels 2 a) args >>= fun values =>
            pure [.ofBool !l.joins values] := by
  have dual : l.dual ≠ .not := by
    cases l <;> simp [Logic.dual] at junction ⊢
  rw [enough, denials, evaluateWith_junction dual, collect_map]
  simp only [evaluateWith_negation, collect_answers]
  simp only [bind_assoc, pure_bind, Logic.joins_negated junction]

/-! ## Both sides -/

/-- From worlds that differ in the log both sides end alike, however limits are handled. -/
theorem pairs_deMorgan
    (evaluated : ∀ levels depth a, Good a → (Coupling.besideLog Good fails).Answers Good
      (evaluateWith handling settings self levels depth a)
      (evaluateWith handling settings self levels depth a))
    (depth : 1 ≤ settings.maxDepth) (junction : l ≠ .not) (goods : ∀ a ∈ args, Good a)
    (reportable : settings.trace = true → ∀ a ∈ args, a.Writable) :
    (Coupling.besideLog Good fails).Pairs (fun answer => ∃ b, answer = [.ofBool b])
      (evaluateWith handling settings self settings.levels 0 (denial l args))
      (evaluateWith handling settings self settings.levels 0 (denials l args)) := by
  obtain ⟨levels, enough⟩ : ∃ levels, settings.levels = levels + 1 + 1 :=
    ⟨settings.maxDepth.toNat - 1, by unfold Settings.levels; omega⟩
  have values : (Coupling.besideLog Good fails).Answers Good
      (collect (evaluateWith handling settings self levels 2) args)
      (collect (fun a => reporting settings self 1 a.negation >>= fun _ =>
        evaluateWith handling settings self levels 2 a) args) := by
    refine pairs_collect fun a member => ?_
    have report : Reportable settings a.negation := by
      intro traced
      rw [Atom.isWritable, Atom.fault?_negation]
      exact reportable traced a member
    exact (silent_reporting report 1).pairs_right (evaluated levels 2 a (goods a member))
  have report {a : Atom} (same : a.fault? = Atom.firstFault? args) : Reportable settings a :=
    fun traced => (Atom.writable_of_firstFault? same).mpr (reportable traced)
  rw [evaluateWith_denial enough junction, evaluateWith_denials enough junction]
  -- two reports in front of the arguments on the one side, one on the other
  refine (silent_reporting (report fault?_denial) 0).pairs_left ?_
  refine (silent_reporting (report (Atom.fault?_headed _ args)) 1).pairs_left ?_
  refine (silent_reporting (report fault?_denials) 0).pairs_right ?_
  exact values.bind fun as _ => pairs_pure ⟨_, rfl⟩

/-- Where nothing is cut off, too, both sides end alike. -/
theorem counted_deMorgan (late : GuardFault) (allowed : Nat) (depth : 1 ≤ settings.maxDepth)
    (junction : l ≠ .not) (reportable : settings.trace = true → ∀ a ∈ args, a.Writable) :
    (Coupling.besideLog (fun _ => True) fun _ => True).Pairs (fun answer => ∃ b, answer = [.ofBool b])
      (counted late allowed settings self (denial l args))
      (counted late allowed settings self (denials l args)) := by
  refine pairs_deMorgan (fun levels depth a _ => ?_) depth junction (fun _ _ => trivial) reportable
  refine evaluateWith_pairs 0 closed_all (preserves_besideLog (fun _ _ _ _ => trivial) self) rfl
    (fun s a _ _ => ?_) (fun _ _ _ => pairs_pure fun _ _ => trivial) levels depth trivial
  exact pairs_ofExcept _ _ (fun _ _ => trivial) fun _ _ => trivial

/-- The end of an evaluation that answers, or fails since something cannot be written. -/
def ending {α : Type} : Except Unwritable α → World → EStateM.Result EvalFault World α
  | .ok x, w => .ok x w
  | .error e, w => .error (.unwritable e) w

/-- Evaluations that are paired from a world end alike there, and with the same spaces. -/
theorem exists_ending {α : Type} {P : α → Prop} {m m' : Eval α}
    (pairs : (Coupling.besideLog Good fun e => ∃ u, e = .unwritable u).Pairs P m m')
    (holds : w.Holds Good fun r => r.guard = none ∧ Good r.template) :
    ∃ answer spaces log log', m w = ending answer ⟨spaces, log⟩ ∧
      m' w = ending answer ⟨spaces, log'⟩ ∧ ∀ x, answer = .ok x → P x := by
  have outcomes := pairs w w ⟨rfl, holds⟩
  generalize m w = r at outcomes ⊢
  generalize m' w = r' at outcomes ⊢
  cases outcomes with
  | @ok x v v' good rel =>
      refine ⟨.ok x, v.spaces, v.log, v'.log, rfl, ?_, ?_⟩
      · rw [← rel.1]
        rfl
      · rintro _ ⟨⟩
        exact good
  | @error e v v' rel fails =>
      obtain ⟨u, rfl⟩ := fails
      refine ⟨.error u, v.spaces, v.log, v'.log, rfl, ?_, ?_⟩
      · rw [← rel.1]
        rfl
      · rintro _ ⟨⟩
  | stopped given => exact absurd given id

/-- Evaluations that are paired and may not fail answer. -/
theorem exists_answer {α : Type} {P : α → Prop} {m m' : Eval α}
    (pairs : (Coupling.besideLog Good fun _ => False).Pairs P m m')
    (holds : w.Holds Good fun r => r.guard = none ∧ Good r.template) : ∃ x w', m w = .ok x w' := by
  have outcomes := pairs w w ⟨rfl, holds⟩
  generalize m w = r at outcomes ⊢
  generalize m' w = r' at outcomes
  cases outcomes with
  | ok => exact ⟨_, _, rfl⟩
  | error _ fails => exact absurd fails id
  | stopped given => exact absurd given id

/-- One side is late where the other is, so that one ends if the other does. -/
theorem ends_denial_iff (self : String) (depth : 1 ≤ settings.maxDepth)
    (unguarded : ∀ s ∈ w.spaces, ∀ r ∈ s.rules, r.guard = none) (junction : l ≠ .not)
    (reportable : settings.trace = true → ∀ a ∈ args, a.Writable) :
    Ends settings self (denial l args) w ↔ Ends settings self (denials l args) w := by
  have outcomes (late : GuardFault) (allowed : Nat) :=
    @counted_deMorgan _ self _ _ late allowed depth junction reportable w w
      ⟨rfl, World.holds_unguarded unguarded⟩
  refine ⟨fun ends => ends.of_late unguarded fun late allowed w' failed => ?_,
    fun ends => ends.of_late unguarded fun late allowed w' failed => ?_⟩
  all_goals
    have both := outcomes late allowed
    rw [failed] at both
  · generalize counted late allowed settings self (denial l args) w = r at both ⊢
    cases both with
    | error => exact ⟨_, rfl⟩
    | stopped given => exact absurd given id
  · generalize counted late allowed settings self (denials l args) w = r at both ⊢
    cases both with
    | error => exact ⟨_, rfl⟩
    | stopped given => exact absurd given id

/-- Both sides come to the same truth value, or fail for the same reason, and the spaces are the same
afterwards. -/
theorem exists_endings (self : String) (depth : 1 ≤ settings.maxDepth)
    (unguarded : ∀ s ∈ w.spaces, ∀ r ∈ s.rules, r.guard = none) (junction : l ≠ .not) :
    ∃ (answer : Except Unwritable Bool) (spaces : List Space) (log log' : Log),
      interpret settings self (denial l args) w =
        ending (answer.map fun b => [.ofBool b]) ⟨spaces, log⟩ ∧
      interpret settings self (denials l args) w =
        ending (answer.map fun b => [.ofBool b]) ⟨spaces, log'⟩ := by
  -- a form whose own step cannot be reported ends there, and then both do
  by_cases reportable : settings.trace = true → ∀ a ∈ args, a.Writable
  · have writes (a : Atom) (e : Unwritable) (_ : True) (_ : a.written = .error e) :
        ∃ u, EvalFault.unwritable e = .unwritable u := ⟨e, rfl⟩
    obtain ⟨results, spaces, log, log', left, right, single⟩ := exists_ending
      (pairs_deMorgan (fun levels depth _ => evaluate_pairs closed_all
        (preserves_besideLog writes self) settings levels depth) depth junction
        (fun _ _ => trivial) reportable) (World.holds_unguarded unguarded)
    cases results with
    | error u => exact ⟨.error u, spaces, log, log', left, right⟩
    | ok result =>
        obtain ⟨b, rfl⟩ := single result rfl
        exact ⟨.ok b, spaces, log, log', left, right⟩
  · have unreported {form : Atom} (same : form.fault? = Atom.firstFault? args) :
        ¬ Reportable settings form := fun report => reportable fun traced =>
      (Atom.writable_of_firstFault? same).mp (report traced)
    obtain ⟨e, written, left⟩ := exists_unreported_interpret (by omega)
      (unreported fault?_denial) w
    obtain ⟨e', written', right⟩ := exists_unreported_interpret (by omega)
      (unreported fault?_denials) w
    rw [Atom.written_eq_error_iff, fault?_denial] at written
    rw [Atom.written_eq_error_iff, fault?_denials, written] at written'
    cases written'
    exact ⟨.error e, w.spaces, w.log, w.log, left, right⟩

/-- Where everything can be written nothing fails. -/
theorem exists_answer_denial (self : String) (depth : 1 ≤ settings.maxDepth)
    (unguarded : ∀ s ∈ w.spaces, ∀ r ∈ s.rules, r.guard = none) (junction : l ≠ .not)
    (goods : ∀ a ∈ args, a.Writable) (stored : w.Holds Atom.Writable fun r => r.template.Writable) :
    ∃ results w', interpret settings self (denial l args) w = .ok results w' := by
  have writes (a : Atom) (e : Unwritable) (good : a.Writable) (failed : a.written = .error e) :
      False := good.written_ne_error e failed
  refine exists_answer (pairs_deMorgan (fun levels depth _ => evaluate_pairs Atom.closed_writable
    (preserves_besideLog writes self) settings levels depth) depth junction goods fun _ => goods)
    fun s member => ?_
  exact ⟨(stored s member).atoms,
    fun r inside => ⟨unguarded s member r inside, (stored s member).rules r inside⟩⟩

/-- **De Morgan's laws.**  A negated conjunction and the disjunction of the negated arguments, and
likewise a negated disjunction and the conjunction, end alike from every world whose rules have no
guards, if two levels of evaluation are allowed.  If the one evaluation never ends, neither does the
other.  Otherwise they come to the same single truth value, or fail since the same thing has to be
reported and cannot be written, and with the same spaces.  Where no NaN is in the arguments nor in
what is stored they end, and where all of that can be written they answer. -/
theorem interpret_deMorgan (settings : Settings) (self : String) (w : World) (args : List Atom)
    (depth : 1 ≤ settings.maxDepth) (unguarded : ∀ s ∈ w.spaces, ∀ r ∈ s.rules, r.guard = none)
    (junction : l ≠ .not) :
    (Ends settings self (denial l args) w ↔ Ends settings self (denials l args) w) ∧
    (Ends settings self (denial l args) w →
      ∃ (answer : Except Unwritable Bool) (spaces : List Space) (log log' : Log),
        interpret settings self (denial l args) w =
          ending (answer.map fun b => [.ofBool b]) ⟨spaces, log⟩ ∧
        interpret settings self (denials l args) w =
          ending (answer.map fun b => [.ofBool b]) ⟨spaces, log'⟩ ∧
        ((∀ a ∈ args, a.Writable) → (w.Holds Atom.Writable fun r => r.template.Writable) →
          ∃ b, answer = .ok b)) ∧
    ((∀ a ∈ args, a.NaNFree) → (w.Holds Atom.NaNFree fun r => r.template.NaNFree) →
      Ends settings self (denial l args) w) := by
  refine ⟨?_, fun _ => ?_, fun frees stored => ?_⟩
  · by_cases reportable : settings.trace = true → ∀ a ∈ args, a.Writable
    · exact ends_denial_iff self depth unguarded junction reportable
    · have stops {form : Atom} (same : form.fault? = Atom.firstFault? args) :
          Ends settings self form w :=
        ends_of_not_reportable (by omega) fun report => reportable fun traced =>
          (Atom.writable_of_firstFault? same).mp (report traced)
      exact iff_of_true (stops fault?_denial) (stops fault?_denials)
  · obtain ⟨answer, spaces, log, log', left, right⟩ :=
      exists_endings self depth unguarded junction
    refine ⟨answer, spaces, log, log', left, right, fun goods stored => ?_⟩
    obtain ⟨results, w', answered⟩ :=
      exists_answer_denial self depth unguarded junction goods stored
    rw [left] at answered
    cases answer with
    | error u => cases answered
    | ok b => exact ⟨b, rfl⟩
  · refine ends_of_nanFree settings self (nanFree_denial.mpr frees) fun s member => ?_
    exact ⟨(stored s member).atoms,
      fun r inside => ⟨unguarded s member r inside, (stored s member).rules r inside⟩⟩

/-- One argument has two values, and another one changes the space. -/
theorem interpret_deMorgan_effects :
    let one : Atom := .ofScalar (.int 1)
    let zero : Atom := .ofScalar (.int 0)
    let args : List Atom := [
      .expr [.symbol "superpose", .expr [one, zero]],
      .expr [.symbol "add-atom", .symbol "&self", .symbol "a"]]
    let w : World := ⟨[.named "home"], #[]⟩
    let s : Space := ⟨"home", [.symbol "a"], []⟩
    Ends { trace := true } "home" (denials .and args) w ∧
      ∃ log log', interpret { trace := true } "home" (denial .and args) w =
          .ok [.ofBool true] ⟨[s], log⟩ ∧
        interpret { trace := true } "home" (denials .and args) w =
          .ok [.ofBool true] ⟨[s], log'⟩ := by
  intro one zero args w s
  obtain ⟨log, given⟩ : ∃ log, interpret { trace := true } "home" (denial .and args) w =
      .ok [.ofBool true] ⟨[s], log⟩ := ⟨_, rfl⟩
  obtain ⟨alike, both, ends⟩ :=
    @interpret_deMorgan .and { trace := true } "home" w args (by decide) (by decide) (by decide)
  have ended := ends (by decide) (List.forall_mem_singleton.mpr (Space.holds_named "home"))
  obtain ⟨answer, spaces, _, log', left, right, -⟩ := both ended
  refine ⟨alike.mp ended, log, log', given, ?_⟩
  rw [given] at left
  cases answer with
  | error u => cases left
  | ok b =>
      cases b with
      | false => exact absurd left (by simp [ending, Except.map, Atom.ofBool])
      | true =>
          cases left
          exact right

/-- An argument that installs a rule which cannot be written keeps both sides from answering. -/
theorem conjunction_unwritten :
    let big : Atom := .literal ⟨.int (Int.pow 10 400), "Float"⟩
    let rule : Rule := ⟨"user-rule-0", .symbol "f", big, none, 0⟩
    let args : List Atom := [.expr [.symbol "=", .symbol "f", big]]
    let w : World := ⟨[.named "home"], #[]⟩
    let w' : World := ⟨[⟨"home", [], [rule]⟩], #[]⟩
    interpret {} "home" (denial .and args) w = .error (.unwritable .tooLarge) w' ∧
      interpret {} "home" (denials .and args) w = .error (.unwritable .tooLarge) w' := by
  intro big rule args w w'
  have fault : big.fault? = some .tooLarge := by decide +kernel
  -- its digits are not looked at any more
  clear_value big
  have symbol : (Atom.symbol "f").fault? = none := rfl
  have written : rule.written = .error .tooLarge := by
    simp [Rule.written, Rule.atoms, Atom.writing, Atom.firstFault?, rule, symbol, fault]
  have installed : addRule "home" rule w = .error (.unwritable .tooLarge) w' := by
    have failed : (w.space "home").ruleAdded rule = .error .tooLarge := by
      rw [Space.ruleAdded, written]
      rfl
    show EStateM.bind (writing ((w.space "home").ruleAdded rule)) report w' = _
    rw [failed]
    rfl
  have named : (⟨"user-rule-" ++ toString 0, .symbol "f", big, none, 0⟩ : Rule) = rule := rfl
  have argument : evaluate {} "home" 199 2 (.expr [.symbol "=", .symbol "f", big]) w =
      .error (.unwritable .tooLarge) w' := by
    show (addRule "home" ⟨"user-rule-" ++ toString 0, .symbol "f", big, none, 0⟩ >>=
      fun _ => pure [Atom.empty]) w = _
    rw [named]
    exact bind_of_error installed
  have collected : collect (evaluate {} "home" 199 2) args w = .error (.unwritable .tooLarge) w' :=
    bind_of_error argument
  have silence (depth : Nat) (a : Atom) : reporting {} "home" depth a = pure () := rfl
  unfold interpret evaluate
  rw [evaluateWith_denial rfl (by decide), evaluateWith_denials rfl (by decide)]
  simp only [silence, pure_bind]
  exact ⟨bind_of_error collected, bind_of_error collected⟩

end Eval

end Metta
