/-
# Metta.Host -- a session embedded in an application

A host wraps a session with a life cycle, counts what is asked of it, and keeps the
metrics of its runs.
-/
import Metta.Metrics
import Metta.Repl

namespace Metta

set_option autoImplicit false

structure Host where
  settings : Settings
  session : Session
  metrics : Metrics
  ready : Bool
  evaluations : Nat
  rulesDefined : Nat
  queries : Nat

/-- What a clock shows when a run begins, and how long the run takes. -/
structure Stamp where
  timestamp : Float := 0.0
  elapsed : Float := 0.0

/-- An operation on a host. -/
abbrev HostAct := EStateM Fault Host

namespace Host

def version : String := "0.3.0"

def start (settings : Settings) : Host :=
  { settings
    session := .start settings
    metrics := .empty Metrics.defaultWindow
    ready := false
    evaluations := 0
    rulesDefined := 0
    queries := 0 }

/-- Runs an operation in the session of the host. -/
def inSession {α : Type} (act : Act α) : HostAct α := fun h =>
  match act h.session with
  | .ok x s => .ok x { h with session := s }
  | .error e s => .error e { h with session := s }

/-! ## Life cycle -/

/-- Makes a host ready, with the prelude if the settings want it. -/
def prepare : HostAct Unit := do
  if (← get).ready then return ()
  if (← get).settings.loadPrelude then inSession Session.loadPrelude
  modify fun h => { h with ready := true }
  inSession (Session.report ⟨.info, "MeTTa integration v" ++ version ++ " initialized"⟩)

def disconnect : HostAct Unit := modify fun h => { h with ready := false }

def yesNo (b : Bool) : String := if b then "true" else "false"

/-- The state of a host in words. -/
def status (h : Host) : List (String × String) :=
  [("integration", "metta"),
   ("version", version),
   ("status", if h.ready then "ready" else "not_initialized"),
   ("stdlib_loaded", yesNo h.settings.loadPrelude),
   ("space_name", h.session.space.name),
   ("space_size", toString h.session.space.size),
   ("expressions_evaluated", toString h.evaluations),
   ("rules_defined", toString h.rulesDefined),
   ("patterns_matched", toString h.queries),
   ("max_reduction_steps", toString h.settings.maxSteps),
   ("trace_enabled", yesNo h.settings.trace)]

/-! ## Operations -/

/-- All results of a text.  The run is counted when it begins, and recorded when it succeeds. -/
def run (code : String) (stamp : Stamp := {}) : HostAct (List Atom) := do
  modify fun h => { h with evaluations := h.evaluations + 1 }
  let results ← inSession (Session.run code)
  let entry := Metrics.entry stamp.timestamp code results stamp.elapsed
  modify fun h => { h with metrics := h.metrics.record entry }
  return results

/-- The first result of a text. -/
def eval (code : String) (stamp : Stamp := {}) : HostAct (Option Atom) :=
  return (← run code stamp).head?

/-- Defines a rule from the first atoms of two texts. -/
def defineRule (name pattern template : String) (priority : Int) : HostAct Rule := do
  let patterns ← inSession (Session.parsing pattern)
  let templates ← inSession (Session.parsing template)
  match patterns, templates with
  | p :: _, t :: _ =>
    let rule : Rule := ⟨name, p, t, none, priority⟩
    inSession do Session.evaluating (Eval.addRule (← get).current rule)
    modify fun h => { h with rulesDefined := h.rulesDefined + 1 }
    return rule
  | _, _ => throw (.incompleteRule name)

/-- The matches of a pattern in the current space.  A query is counted when it begins. -/
def query (pattern : String) : HostAct (List Bindings) := do
  modify fun h => { h with queries := h.queries + 1 }
  inSession (Session.query pattern)

/-- The matches of the first atom of a text among given atoms, none if it holds no atom. -/
def matchAmong (atoms : List Atom) (pattern : String) : HostAct (List Bindings) := do
  match ← inSession (Session.parsing pattern) with
  | [] => return []
  | p :: _ => return Atom.matchEach atoms p

/-- A dialogue with the session. -/
def dialogue (input : String) : HostAct String := fun h =>
  let (out, s) := Repl.dialogue input h.session
  .ok out { h with session := s }

end Host

end Metta
