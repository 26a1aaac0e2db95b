/-
# Metta.Proofs.History -- sessions that are driven by text

Requests (`Session.Request`) are made of a session in text, one after the other, and one
that fails does not end the history (`Session.performAll`).

Everything in a session has come from some text: it was read, or evaluation made it of
what was read.  So a class of atoms that holds what is read and that evaluation does not
leave (`Atom.Textual`) holds all answers, stored atoms and rules (`performAll_holds`).
For evaluation this is a coupling of worlds that hold nothing else with themselves
(`Coupling.holding`), and since all atoms of the class can be written no evaluation
fails; for the operations of a session it is proved one by one, by the rules for what an
operation keeps (`Session.Keeps`).

The atoms that are spelled are such a class, and what is spelled can be read back
(`performAll_parse_written`).
-/
import Metta.Proofs.Evaluation
import Metta.Proofs.Spelled
import Metta.Session

namespace Metta

set_option autoImplicit false

variable {Good : Atom → Prop}

/-- A closed class of atoms that can be written, which everything read belongs to. -/
structure Atom.Textual (Good : Atom → Prop) : Prop extends Closed Good where
  read : ∀ {text as}, parse text = .ok as → ∀ a ∈ as, Good a
  writable : ∀ a, Good a → a.isWritable = true

theorem Atom.textual_spelled : Textual Spelled where
  toClosed := closed_spelled
  read := spelled_of_parse
  writable := Spelled.isWritable

/-- The rule has no guard, and its atoms are of the class. -/
def Rule.Within (Good : Atom → Prop) (r : Rule) : Prop := r.guard = none ∧ ∀ a ∈ r.atoms, Good a

/-! ## Evaluation -/

namespace Eval

open Coupling

/-- Worlds are equal and hold only atoms of the class.  No evaluation is given up, and none
fails. -/
def Coupling.holding (Good : Atom → Prop) : Coupling where
  rel w w' := w' = w ∧ w.Holds Good (Rule.Within Good)
  stops _ := False
  fails _ := False

theorem preserves_holding (textual : Atom.Textual Good) (home : String) :
    (Coupling.holding Good).Preserves Good home := by
  refine preserves_of_holds (fun _ _ => Iff.rfl) (fun r within => ?_)
    (fun r unguarded pattern template => ?_) (fun {a} good e failed => ?_)
    (fun {r a e} decided failed => ?_) home
  · exact ⟨Rule.decided_of_guard_eq_none within.1, within.2 r.template (by simp [Rule.atoms])⟩
  · exact ⟨unguarded, by simp [Rule.atoms, pattern, template]⟩
  · have written := (Atom.written_eq_ok_iff a _).mpr ⟨textual.writable a good, rfl⟩
    rw [written] at failed
    cases failed
  · exact absurd failed (Rule.Decided.apply_ne_error decided a e)

/-- Evaluation leaves a world that holds only atoms of the class, and answers with such atoms. -/
theorem interpret_holding (textual : Atom.Textual Good) (settings : Settings) (self : String)
    {a : Atom} (good : Good a) :
    (Coupling.holding Good).Answers Good (interpret settings self a) (interpret settings self a) :=
  interpret_pairs textual.toClosed (preserves_holding textual self) settings good

theorem collect_holding (textual : Atom.Textual Good) (settings : Settings) (self : String)
    {as : List Atom} (goods : ∀ a ∈ as, Good a) :
    (Coupling.holding Good).Answers Good (collect (interpret settings self) as)
      (collect (interpret settings self) as) :=
  pairs_collect fun a member => interpret_holding textual settings self (goods a member)

end Eval

namespace Session

variable {α β : Type} {I : Session → Prop} {P : α → Prop} {Q : β → Prop}

theorem parsing_of_parse {text : String} {as : List Atom} (parsed : Atom.parse text = .ok as)
    (s : Session) : parsing text s = .ok as s := by
  unfold parsing
  rw [parsed]

theorem parsing_of_unread {text : String} {p : ParseError} (unread : Atom.parse text = .error p)
    (s : Session) : parsing text s = .error (.malformed p) s := by
  unfold parsing
  rw [unread]

theorem run_of_parse {code : String} {as : List Atom} (parsed : Atom.parse code = .ok as)
    (s : Session) : run code s = interpretEach as s :=
  bind_of_ok (parsing_of_parse parsed s)

theorem evaluating_of_ok {m : Eval α} {s : Session} {x : α} {w : World}
    (ended : m s.world = .ok x w) : evaluating m s = .ok x { s with world := w } := by
  rw [evaluating, ended]

/-! ## What operations keep -/

/-- From every session with the one property the operation leaves such a session, whether it answers
or fails, and what it answers with has the other property. -/
def Keeps (I : Session → Prop) (P : α → Prop) (m : Act α) : Prop :=
  ∀ s, I s → match m s with
    | .ok x s' => P x ∧ I s'
    | .error _ s' => I s'

theorem keeps_pure {x : α} (holds : P x) : Keeps I P (pure x : Act α) :=
  fun _ kept => ⟨holds, kept⟩

theorem Keeps.bind {m : Act α} {f : α → Act β} (first : Keeps I P m)
    (next : ∀ x, P x → Keeps I Q (f x)) : Keeps I Q (m >>= f) := by
  intro s kept
  have outcome := first s kept
  cases ended : m s with
  | ok x s' =>
      rw [ended] at outcome
      rw [bind_of_ok ended]
      exact next x outcome.1 s' outcome.2
  | error e s' =>
      rw [ended] at outcome
      rw [bind_of_error ended]
      exact outcome

theorem keeps_get : Keeps I I (get : Act Session) := fun _ kept => ⟨kept, kept⟩

theorem keeps_modify {f : Session → Session} (keeps : ∀ s, I s → I (f s)) :
    Keeps I (fun _ => True) (modify f : Act PUnit) :=
  fun s kept => ⟨trivial, keeps s kept⟩

theorem keeps_parsing (text : String) : Keeps I (Atom.parse text = .ok ·) (parsing text) := by
  intro s kept
  unfold parsing
  cases parsed : Atom.parse text with
  | ok as => exact ⟨rfl, kept⟩
  | error e => exact kept

/-- A loop that is never left early. -/
theorem keeps_forIn {xs : List α} {f : α → PUnit → Act (ForInStep PUnit)}
    (each : ∀ x ∈ xs, Keeps I (· = .yield ⟨⟩) (f x ⟨⟩)) :
    Keeps I (fun _ => True) (forIn xs ⟨⟩ f) := by
  induction xs with
  | nil => exact keeps_pure trivial
  | cons x xs ih =>
      obtain ⟨first, others⟩ := List.forall_mem_cons.mp each
      rw [List.forIn_cons]
      refine first.bind ?_
      rintro _ rfl
      exact ih others

/-! ## What sessions hold -/

/-- The session holds only atoms of the class. -/
def Holds (Good : Atom → Prop) (s : Session) : Prop := s.world.Holds Good (Rule.Within Good)

theorem keeps_evaluating {m : Eval α} (pairs : (Eval.Coupling.holding Good).Pairs P m m) :
    Keeps (Holds Good) P (evaluating m) := by
  intro s holds
  have outcomes := pairs s.world s.world ⟨rfl, holds⟩
  unfold evaluating
  generalize m s.world = r at outcomes ⊢
  cases outcomes with
  | ok good rel => exact ⟨good, rel.2⟩
  | error rel => exact rel.2
  | stopped given => exact absurd given id

theorem keeps_useSpace (name : String) : Keeps (Holds Good) (fun _ => True) (useSpace name) := by
  intro s holds
  unfold useSpace
  cases s.world.space? name with
  | some _ => exact ⟨trivial, holds⟩
  | none =>
      refine ⟨trivial, fun space member => ?_⟩
      rcases List.mem_append.mp member with old | new
      · exact holds space old
      · rw [List.mem_singleton.mp new]
        exact Space.holds_named name

theorem keeps_addAtom {a : Atom} (good : Good a) :
    Keeps (Holds Good) (fun _ => True) (addAtom a) :=
  fun _ holds => ⟨trivial, holds.change fun _ held => held.add good⟩

theorem keeps_report (r : LogRecord) : Keeps (Holds Good) (fun _ => True) (report r) := by
  refine keeps_evaluating (Eval.Coupling.pairs_changing ?_)
  rintro w w' ⟨rfl, holds⟩
  exact ⟨rfl, holds⟩

theorem keeps_query (leafwise : Atom.Leafwise Good) (pattern : String) :
    Keeps (Holds Good) (∀ b ∈ ·, b.Within Good) (query pattern) := by
  refine (keeps_parsing pattern).bind fun as _ => ?_
  split
  · exact keeps_pure (List.forall_mem_nil _)
  · refine keeps_get.bind fun s holds => keeps_pure fun b matched => ?_
    exact leafwise.matchEach (holds.space s.current).atoms matched

theorem keeps_add (textual : Atom.Textual Good) (code : String) :
    Keeps (Holds Good) (fun _ => True) (add code) := by
  refine (keeps_parsing code).bind fun as ok => ?_
  refine (keeps_forIn fun a member => ?_).bind fun _ _ => keeps_pure trivial
  exact (keeps_addAtom (textual.read ok a member)).bind fun _ _ => keeps_pure rfl

theorem keeps_run (textual : Atom.Textual Good) (code : String) :
    Keeps (Holds Good) (∀ a ∈ ·, Good a) (run code) := by
  refine (keeps_parsing code).bind fun as ok s holds => ?_
  exact keeps_evaluating (Eval.collect_holding textual _ _ (textual.read ok)) s holds

theorem keeps_eval (textual : Atom.Textual Good) (code : String) :
    Keeps (Holds Good) (∀ a ∈ ·.toList, Good a) (eval code) := by
  refine (keeps_run textual code).bind fun as goods => keeps_pure fun a member => ?_
  exact goods a (List.mem_of_mem_head? (Option.mem_toList.mp member))

theorem keeps_loadPrelude (textual : Atom.Textual Good) :
    Keeps (Holds Good) (fun _ => True) loadPrelude := by
  have loaded : ∀ s, Holds Good s → Holds Good { s with preludeLoaded := true } :=
    fun _ holds => holds
  unfold loadPrelude
  generalize Prelude.source = code
  refine keeps_get.bind fun s _ => ?_
  split
  · exact keeps_pure trivial
  · refine (keeps_run textual code).bind fun _ _ => (keeps_modify loaded).bind fun _ _ => ?_
    exact keeps_get.bind fun _ _ => keeps_report _

/-! ## Histories -/

/-- What may be asked of a session in text. -/
inductive Request where
  | run (code : String)
  | eval (code : String)
  | add (code : String)
  | query (pattern : String)
  | useSpace (name : String)
  | loadPrelude
deriving DecidableEq, Repr

/-- Performs a request.  The answer is reduced to the atoms in it. -/
def Request.perform : Request → Act (List Atom)
  | run code => Session.run code
  | eval code => return (← Session.eval code).toList
  | add code => do
    Session.add code
    return []
  | query pattern => return (← Session.query pattern).flatMap Bindings.atoms
  | useSpace name => do
    Session.useSpace name
    return []
  | loadPrelude => do
    Session.loadPrelude
    return []

/-- Performs requests one after the other.  One that fails answers nothing, and what it changed
before it failed stays changed. -/
def performAll : List Request → Session → List Atom × Session
  | [], s => ([], s)
  | r :: rs, s =>
    match r.perform s with
    | .ok answer s' =>
      let (answers, last) := performAll rs s'
      (answer ++ answers, last)
    | .error _ s' => performAll rs s'

theorem keeps_perform (textual : Atom.Textual Good) (r : Request) :
    Keeps (Holds Good) (∀ a ∈ ·, Good a) r.perform := by
  have nothing : Keeps (Holds Good) (∀ a ∈ ·, Good a) (pure [] : Act (List Atom)) :=
    keeps_pure (List.forall_mem_nil _)
  cases r with
  | run code => exact keeps_run textual code
  | eval code => exact (keeps_eval textual code).bind fun _ goods => keeps_pure goods
  | add code => exact (keeps_add textual code).bind fun _ _ => nothing
  | query pattern =>
      refine (keeps_query textual.leafwise pattern).bind fun bs within => keeps_pure ?_
      exact List.forall_mem_flatMap.mpr within
  | useSpace name => exact (keeps_useSpace name).bind fun _ _ => nothing
  | loadPrelude => exact (keeps_loadPrelude textual).bind fun _ _ => nothing

theorem holds_start (settings : Settings) : Holds Good (start settings) := by
  intro space member
  rw [List.mem_singleton.mp member]
  exact Space.holds_named _

/-- **A history does not leave the class of atoms it started with**, neither in an answer nor in a
space. -/
theorem performAll_holds (textual : Atom.Textual Good) (rs : List Request) {s : Session}
    (holds : Holds Good s) :
    (∀ a ∈ (performAll rs s).1, Good a) ∧ Holds Good (performAll rs s).2 := by
  induction rs generalizing s with
  | nil => exact ⟨List.forall_mem_nil _, holds⟩
  | cons r rs ih =>
      have outcome := keeps_perform textual r s holds
      unfold performAll
      cases performed : r.perform s with
      | ok answer s' =>
          rw [performed] at outcome
          obtain ⟨goods, kept⟩ := ih outcome.2
          exact ⟨List.forall_mem_append.mpr ⟨outcome.1, goods⟩, kept⟩
      | error e s' =>
          rw [performed] at outcome
          exact ih outcome

/-- **What a session comes to hold or to answer with can be read back.**  Whatever is asked of a
session in text, every atom that occurs in an answer, in a space or in a rule has a written form,
and that atom is read from it, if neither `empty` nor an error stands in it and it is nested no
deeper than source text may be. -/
theorem performAll_parse_written (settings : Settings) (rs : List Request) (whole a : Atom) :
    let last := performAll rs (start settings)
    (whole ∈ last.1 ∨ ∃ space ∈ last.2.world.spaces,
      whole ∈ space.atoms ∨ ∃ r ∈ space.rules, whole ∈ r.atoms) →
    Atom.Inside a whole → (a.Each fun part => ¬ part.IsOutcome) → a.nesting ≤ 200 →
    ∃ text, a.written = .ok text ∧ Atom.parse text = .ok [a] := by
  obtain ⟨goods, holds⟩ := performAll_holds Atom.textual_spelled rs (holds_start settings)
  intro last met inside plain shallow
  have spelled : whole.Spelled := by
    rcases met with answered | ⟨space, registered, stored | ⟨r, member, part⟩⟩
    · exact goods whole answered
    · exact (holds space registered).atoms whole stored
    · exact ((holds space registered).rules r member).2 whole part
  have shallow : (a.nesting : Int) ≤ Reader.defaultLimit := Int.ofNat_le.mpr shallow
  exact ⟨a.render, spelled.parse_render inside plain shallow⟩

/-- The source of an error is read back. -/
theorem performAll_parse_written_source :
    let rs : List Request := [.useSpace "other", .run "(let f -2.5 $x)"]
    let a : Atom := .expr [.symbol "let", .symbol "f", .ofScalar (.float (-2.5)), .var "x" none]
    (performAll rs (start {})).1 = [.error "let first argument must be a variable" (some a)] ∧
      ∃ text, a.written = .ok text ∧ Atom.parse text = .ok [a] := by
  intro rs a
  have readable : a.Readable := by decide
  have written : a.render = "(let f -2.5 $x)" := by decide
  have parsed := readable.parse_render_eq
  rw [written] at parsed
  have answers : (performAll rs (start {})).1 =
      [.error "let first argument must be a variable" (some a)] := by
    simp only [rs, performAll, Request.perform, run_of_parse parsed]
    rfl
  have met : Atom.error "let first argument must be a variable" (some a) ∈
      (performAll rs (start {})).1 := by
    simp [answers]
  exact ⟨answers, performAll_parse_written {} rs _ a (.inl met) (.source .root) (by decide)
    (by decide)⟩

end Session

end Metta
