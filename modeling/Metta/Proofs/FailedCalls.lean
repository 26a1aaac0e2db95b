/-
# Metta.Proofs.FailedCalls -- what a failed call leaves behind

A call (`Host.Call`) is made of a host in text.  It fails where the text cannot be parsed,
or a rule has no pattern or no template, and by then nothing has happened in the session:
no atom, rule or space is another one, and no run has been recorded
(`Host.perform_failed`).

The counters do not all behave so.  A rule is counted when it has been defined, but a run
and a query are counted when they begin, so that a text which was never evaluated counts as
an evaluation (`Host.failed_calls_counted`).

Without guards there is one more way to fail, with an atom that has no written form but has
to be reported: a whole number that is too long, or a value under a tag that it does not fit.
Such an atom does not come from text, and the evaluation may have gone far by then.
-/
import Metta.Host
import Metta.Proofs.Ending
import Metta.Proofs.Faults
import Metta.Proofs.Priority

namespace Metta

set_option autoImplicit false

/-! ## Sessions -/

namespace Session

variable {s s' : Session} {e : Fault}

/-- No rule of any space has a guard. -/
def Unguarded (s : Session) : Prop := ∀ space ∈ s.world.spaces, ∀ r ∈ space.rules, r.guard = none

/-- Where a text was parsed nothing but an atom that cannot be written makes its evaluation fail. -/
theorem Unguarded.interpretEach_error (unguarded : s.Unguarded) {as : List Atom}
    (failed : interpretEach as s = .error e s') : ∃ u, e = .evaluation (.unwritable u) := by
  have pairs : (Eval.Coupling.unguarded fun _ => True).Answers (fun _ => True)
      (Eval.collect (Eval.interpret s.settings s.current) as)
      (Eval.collect (Eval.interpret s.settings s.current) as) :=
    Eval.Coupling.pairs_collect fun a _ =>
      Eval.interpret_pairs Eval.closed_all (Eval.preserves_unguarded s.current) s.settings trivial
  have outcomes := pairs s.world s.world ⟨rfl, World.holds_unguarded unguarded⟩
  unfold interpretEach evaluating at failed
  generalize Eval.collect _ as s.world = r at outcomes failed
  cases outcomes with
  | ok => cases failed
  | error _ fails =>
      obtain ⟨u, rfl⟩ := fails
      cases failed
      exact ⟨u, rfl⟩
  | stopped given => exact absurd given id

theorem parsing_error {text : String} (failed : parsing text s = .error e s') :
    s' = s ∧ ∃ p, e = .malformed p := by
  unfold parsing at failed
  split at failed
  · cases failed
  · cases failed
    exact ⟨rfl, _, rfl⟩

/-- A run fails before anything is evaluated, or with an atom that cannot be written. -/
theorem Unguarded.run_error (unguarded : s.Unguarded) {code : String}
    (failed : run code s = .error e s') :
    (s' = s ∧ ∃ p, e = .malformed p) ∨ ∃ u, e = .evaluation (.unwritable u) := by
  rcases of_bind_error failed with unread | ⟨as, s₁, parsed, failed⟩
  · exact .inl (parsing_error unread)
  · unfold parsing at parsed
    split at parsed <;> cases parsed
    exact .inr (unguarded.interpretEach_error failed)

end Session

/-! ## Hosts -/

namespace Host

variable {α : Type} {h h' : Host} {e : Fault}

/-- What may be asked of a host in text. -/
inductive Call where
  | run (code : String) (stamp : Stamp)
  | eval (code : String) (stamp : Stamp)
  | add (code : String)
  | query (pattern : String)
  | defineRule (name pattern template : String) (priority : Int)

namespace Call

/-- Makes the call.  What it answers does not matter here. -/
def perform : Call → HostAct Unit
  | run code stamp => do let _ ← Host.run code stamp
  | eval code stamp => do let _ ← Host.eval code stamp
  | add code => inSession (Session.add code)
  | query pattern => do let _ ← Host.query pattern
  | defineRule name pattern template priority => do
    let _ ← Host.defineRule name pattern template priority

/-- The text that the call reads first. -/
def text : Call → String
  | run code _ | eval code _ | add code => code
  | query pattern | defineRule _ pattern _ _ => pattern

/-- The host once the beginning of the call has been counted. -/
def counted : Call → Host → Host
  | run _ _, h | eval _ _, h => { h with evaluations := h.evaluations + 1 }
  | query _, h => { h with queries := h.queries + 1 }
  | add _, h | defineRule _ _ _ _, h => h

end Call

theorem inSession_of_error {act : Act α} {s' : Session} (ended : act h.session = .error e s') :
    inSession act h = .error e { h with session := s' } := by
  rw [inSession, ended]

theorem inSession_error {act : Act α} (failed : inSession act h = .error e h') :
    ∃ s', act h.session = .error e s' ∧ h' = { h with session := s' } := by
  unfold inSession at failed
  split at failed
  · cases failed
  · rename_i e' s' ended
    cases failed
    exact ⟨s', ended, rfl⟩

/-- Where the answer is dropped the failure is not. -/
theorem of_void_error {m : HostAct α} (failed : (do let _ ← m : HostAct Unit) h = .error e h') :
    m h = .error e h' := by
  rcases of_bind_error failed with failed | ⟨_, _, -, ended⟩
  · exact failed
  · cases ended

/-- A run that fails has been counted, and not recorded. -/
theorem run_error (unguarded : h.session.Unguarded) {code : String} {stamp : Stamp}
    (failed : run code stamp h = .error e h') :
    let counted : Host := { h with evaluations := h.evaluations + 1 }
    (h' = counted ∧ ∃ p, e = .malformed p) ∨
      ∃ u s', e = .evaluation (.unwritable u) ∧ h' = { counted with session := s' } ∧
        ¬ h.session.Holds Atom.Spelled := by
  unfold run at failed
  rcases of_bind_error failed with uncounted | ⟨_, h₁, counts, second⟩
  · cases uncounted
  cases counts
  rcases of_bind_error second with unrun | ⟨results, h₂, -, third⟩
  · obtain ⟨s', ended, rfl⟩ := inSession_error unrun
    rcases unguarded.run_error ended with ⟨rfl, malformed⟩ | ⟨u, rfl⟩
    · exact .inl ⟨rfl, malformed⟩
    · refine .inr ⟨u, s', rfl, rfl, fun spelled => ?_⟩
      have read := Session.failsAsRead_run Atom.textual_spelled spelled code
      obtain ⟨-, p, ⟨⟩⟩ := read.onlyMalformed _ _ ended
  rcases of_bind_error third with unrecorded | ⟨_, h₃, -, fourth⟩
  · cases unrecorded
  · cases fourth

/-- What fails in a session only where a text cannot be parsed leaves the host as it was. -/
theorem onlyMalformed_error {act : Act α} (only : Session.OnlyMalformed act h.session)
    (failed : inSession act h = .error e h') : h' = h ∧ ∃ p, e = .malformed p := by
  obtain ⟨s', ended, rfl⟩ := inSession_error failed
  obtain ⟨rfl, malformed⟩ := only e s' ended
  exact ⟨rfl, malformed⟩

/-- A query that fails has been counted. -/
theorem query_error {pattern : String} (failed : query pattern h = .error e h') :
    h' = { h with queries := h.queries + 1 } ∧ ∃ p, e = .malformed p := by
  unfold query at failed
  rcases of_bind_error failed with uncounted | ⟨_, h₁, counts, second⟩
  · cases uncounted
  cases counts
  exact onlyMalformed_error (Session.failsAsRead_query pattern _).onlyMalformed second

theorem parsing_error {text : String}
    (failed : inSession (Session.parsing text) h = .error e h') :
    h' = h ∧ ∃ p, e = .malformed p :=
  onlyMalformed_error (fun _ _ => Session.parsing_error) failed

theorem parsing_ok {text : String} {as : List Atom}
    (parsed : inSession (Session.parsing text) h = .ok as h') :
    h' = h ∧ Atom.parse text = .ok as := by
  unfold inSession Session.parsing at parsed
  cases read : Atom.parse text with
  | ok bs =>
      rw [read] at parsed
      cases parsed
      exact ⟨rfl, rfl⟩
  | error p =>
      rw [read] at parsed
      cases parsed

/-- A definition that fails changes nothing. -/
theorem defineRule_error {name pattern template : String} {priority : Int}
    (failed : defineRule name pattern template priority h = .error e h') :
    h' = h ∧ ((∃ p, e = .malformed p) ∨ e = .incompleteRule name) := by
  unfold defineRule at failed
  rcases of_bind_error failed with unread | ⟨ps, h₁, read, second⟩
  · obtain ⟨rfl, malformed⟩ := parsing_error unread
    exact ⟨rfl, .inl malformed⟩
  obtain ⟨rfl, patterns⟩ := parsing_ok read
  rcases of_bind_error second with unread | ⟨ts, h₂, read, third⟩
  · obtain ⟨rfl, malformed⟩ := parsing_error unread
    exact ⟨rfl, .inl malformed⟩
  obtain ⟨rfl, templates⟩ := parsing_ok read
  rcases ps with _ | ⟨p, ps⟩
  · cases third
    exact ⟨rfl, .inr rfl⟩
  rcases ts with _ | ⟨t, ts⟩
  · cases third
    exact ⟨rfl, .inr rfl⟩
  -- what was read can be written, so that adding the rule is reported
  let r : Rule := ⟨name, p, t, none, priority⟩
  have writable : ∀ a ∈ r.atoms, a.isWritable = true := by
    have textual := Atom.textual_spelled
    simp only [r, Rule.atoms, List.forall_mem_cons]
    refine ⟨?_, ?_, List.forall_mem_nil _⟩
    · exact textual.writable p (textual.read patterns p (.head _))
    · exact textual.writable t (textual.read templates t (.head _))
  obtain ⟨log, added⟩ := World.exists_addRule_reported writable h₂.session.current h₂.session.world
  rcases of_bind_error third with unadded | ⟨_, h₃, -, fourth⟩
  · obtain ⟨s', ended, -⟩ := inSession_error unadded
    cases ended.symm.trans (Session.evaluating_of_ok added)
  · rcases of_bind_error fourth with uncounted | ⟨_, h₄, -, fifth⟩
    · cases uncounted
    · cases fifth

/-- Whatever the host, it refuses a text that cannot be parsed. -/
theorem perform_of_unread (c : Call) {p : ParseError} (unread : Atom.parse c.text = .error p)
    (h : Host) : c.perform h = .error (.malformed p) (c.counted h) := by
  have refused := Session.parsing_of_unread unread
  have ran : ∀ stamp, run c.text stamp h =
      .error (.malformed p) { h with evaluations := h.evaluations + 1 } := by
    intro stamp
    have began : (modify fun h => { h with evaluations := h.evaluations + 1 } : HostAct Unit) h =
        .ok () { h with evaluations := h.evaluations + 1 } := rfl
    rw [run, bind_of_ok began]
    exact bind_of_error (inSession_of_error (bind_of_error (refused _)))
  cases c with
  | run code stamp => exact bind_of_error (ran stamp)
  | eval code stamp => exact bind_of_error (bind_of_error (ran stamp))
  | add code => exact inSession_of_error (bind_of_error (refused _))
  | query pattern =>
      have began : (modify fun h => { h with queries := h.queries + 1 } : HostAct Unit) h =
          .ok () { h with queries := h.queries + 1 } := rfl
      refine bind_of_error ?_
      rw [query, bind_of_ok began]
      exact inSession_of_error (bind_of_error (refused _))
  | defineRule name pattern template priority =>
      exact bind_of_error (bind_of_error (inSession_of_error (refused _)))

/-- **A call that fails leaves nothing behind but the count of its beginning.**  Of a host whose
rules have no guards let a call be made, to run or evaluate a text, to add its atoms, to query or to
define a rule.  If the text cannot be parsed, it fails.  If it fails because of a text, or because a
rule has no pattern or no template, then the host is as it was, with all its spaces, their atoms and
rules, the records of its runs and the number of rules defined, except that a run, an evaluation or
a query has been counted.  The only other failure is that of an atom which has no written form.  Then
only the session may be another one besides, and it is none that holds only what text can spell, as
a session does after any requests in text (`Session.performAll_holds`). -/
theorem perform_failed (h : Host) (unguarded : h.session.Unguarded) (c : Call) :
    (∀ p, Atom.parse c.text = .error p → c.perform h = .error (.malformed p) (c.counted h)) ∧
    ∀ e h', c.perform h = .error e h' →
      (h' = c.counted h ∧ ((∃ p, e = .malformed p) ∨ ∃ name, e = .incompleteRule name)) ∨
        ∃ u s', e = .evaluation (.unwritable u) ∧ h' = { c.counted h with session := s' } ∧
          ¬ h.session.Holds Atom.Spelled := by
  refine ⟨fun p unread => perform_of_unread c unread h, fun e h' failed => ?_⟩
  cases c with
  | run code stamp =>
      rcases run_error unguarded (of_void_error failed) with ⟨same, malformed⟩ | unwritable
      · exact .inl ⟨same, .inl malformed⟩
      · exact .inr unwritable
  | eval code stamp =>
      rcases of_bind_error (of_void_error failed) with failed | ⟨_, _, -, ended⟩
      · rcases run_error unguarded failed with ⟨same, malformed⟩ | unwritable
        · exact .inl ⟨same, .inl malformed⟩
        · exact .inr unwritable
      · cases ended
  | add code =>
      obtain ⟨same, malformed⟩ :=
        onlyMalformed_error (Session.failsAsRead_add code _).onlyMalformed failed
      exact .inl ⟨same, .inl malformed⟩
  | query pattern =>
      obtain ⟨same, malformed⟩ := query_error (of_void_error failed)
      exact .inl ⟨same, .inl malformed⟩
  | defineRule name pattern template priority =>
      obtain ⟨same, malformed | incomplete⟩ := defineRule_error (of_void_error failed)
      · exact .inl ⟨same, .inl malformed⟩
      · exact .inl ⟨same, .inr ⟨name, incomplete⟩⟩

/-- A host with one rule refuses a text that ends too early, and counts it. -/
theorem perform_failed_unclosed :
    let r : Rule := ⟨"id", .expr [.symbol "id", .var "x" none], .var "x" none, none, 0⟩
    let s : Session := ⟨{}, ⟨[⟨"default", [.symbol "a"], [r]⟩], #[]⟩, "default", false⟩
    let h : Host := { start {} with session := s, rulesDefined := 1 }
    h.session.Unguarded ∧
      ∃ h', (Call.eval "(id" {}).perform h = .error (.malformed ⟨.unclosed, 0⟩) h' ∧
        h' = { h with evaluations := 1 } := by
  intro r s h
  have unguarded : h.session.Unguarded := by simp [Session.Unguarded, h, s, r]
  have unread : Atom.parse "(id" = .error ⟨.unclosed, 0⟩ := by cbv
  obtain ⟨fails, leaves⟩ := perform_failed h unguarded (.eval "(id" {})
  have failed := fails _ unread
  refine ⟨unguarded, _, failed, ?_⟩
  rcases leaves _ _ failed with ⟨same, -⟩ | ⟨u, s', unwritable, -⟩
  · exact same
  · cases unwritable

/-- **A failed call is not undone in the counters.**  A text that was never evaluated counts as an
evaluation, and a pattern that was never matched as a query. -/
theorem failed_calls_counted :
    let h : Host := start {}
    ∃ ran queried : Host,
      (Call.run "(" {}).perform h = .error (.malformed ⟨.unclosed, 0⟩) ran ∧
      (Call.query "(").perform h = .error (.malformed ⟨.unclosed, 0⟩) queried ∧
      ran.status ≠ h.status ∧ queried.status ≠ h.status := by
  intro h
  have unread : Atom.parse "(" = .error ⟨.unclosed, 0⟩ := by cbv
  exact ⟨_, _, perform_of_unread (.run "(" {}) unread h, perform_of_unread (.query "(") unread h,
    by decide, by decide⟩

end Host

end Metta
