/-
# Metta.Proofs.Loading -- the rules of the prelude

The source of the prelude is read as the forms of twelve rules (`Prelude.parse_source`), and a
session that starts with the prelude holds what these forms define, in this order, and nothing
else (`Prelude.recalls_prepared`).
-/
import Metta.Proofs.Export

namespace Metta

set_option autoImplicit false

namespace Prelude

/-! ## The rules -/

/-- An expression headed by a symbol. -/
def call (name : String) (args : List Atom) : Atom := .expr (.symbol name :: args)

/-- A list in dotted form, of a first element and the others. -/
def pair (x xs : Atom) : Atom := .expr [x, .symbol ".", xs]

/-- The pattern of a list that is not empty. -/
def dotted : Atom := pair (.var "x" none) (.var "xs" none)

/-- A rule for calls of its name. -/
def rule (name : String) (args : List Atom) (template : Atom) : Rule :=
  ⟨name, call name args, template, none, 0⟩

/-- The lines of the source, each with the rule that it defines and the lines of comment before. -/
def entries : List (String × Rule) :=
  let x : Atom := .var "x" none
  let xs : Atom := .var "xs" none
  let f : Atom := .var "f" none
  let g : Atom := .var "g" none
  [("\n; Identity function\n(= (id $x) $x)", rule "id" [x] x),
   ("\n; Function composition\n(= (compose $f $g $x) ($f ($g $x)))",
    rule "compose" [f, g, x] (.expr [f, .expr [g, x]])),
   ("\n; List operations\n(= (head ($x . $xs)) $x)", rule "head" [dotted] x),
   ("(= (tail ($x . $xs)) $xs)", rule "tail" [dotted] xs),
   ("(= (cons $x $xs) ($x . $xs))", rule "cons" [x, xs] dotted),
   ("(= (nil? ()) True)", rule "nil?" [.expr []] (.symbol "True")),
   ("(= (nil? ($x . $xs)) False)", rule "nil?" [dotted] (.symbol "False")),
   ("\n; Boolean operations\n(= (bool-not True) False)",
    rule "bool-not" [.symbol "True"] (.symbol "False")),
   ("(= (bool-not False) True)", rule "bool-not" [.symbol "False"] (.symbol "True")),
   ("\n; Equality\n(= (eq $x $x) True)", rule "eq" [x, x] (.symbol "True")),
   ("\n; Type predicates\n(= (symbol? $x) (: $x Symbol))",
    rule "symbol?" [x] (call ":" [x, .symbol "Symbol"])),
   ("(= (expression? $x) (: $x Expression))",
    rule "expression?" [x] (call ":" [x, .symbol "Expression"]))]

/-- The rules of the prelude, in their order. -/
def rules : List Rule := entries.map Prod.snd

theorem source_eq : source = "\n".intercalate (entries.map Prod.fst) ++ "\n" := by
  decide +kernel

theorem parse_entries : ∀ e ∈ entries, Atom.parse e.1 = .ok [e.2.form] := by
  simp only [entries, List.forall_mem_cons]
  refine ⟨?_, ?_, ?_, ?_, ?_, ?_, ?_, ?_, ?_, ?_, ?_, ?_, List.forall_mem_nil _⟩ <;> cbv

/-- The source is read as the forms that define the rules. -/
theorem parse_source : Atom.parse source = .ok (rules.map Rule.form) := by
  rw [source_eq, Atom.parse_append_lineFeed]
  refine Atom.parse_lines ?_
  rw [rules, List.map_map, List.forall₂_map_left_iff, List.forall₂_map_right_iff,
    List.forall₂_same]
  exact parse_entries

theorem portable : ∀ r ∈ rules, r.Portable := by
  have readable : ∀ r ∈ rules, ∀ a ∈ r.atoms, a.Readable ∧ a.nesting ≤ 199 := by decide
  have unguarded : ∀ r ∈ rules, r.guard = none := by
    simp [rules, entries, rule]
  exact fun r member => ⟨unguarded r member, fun a part => (readable r member a part).1,
    fun a part => (readable r member a part).2⟩

/-- A session that has just started runs the source without a failure, and what that leaves in its
space are the rules. -/
theorem exists_run_source {settings : Settings} (depth : 0 ≤ settings.maxDepth) :
    ∃ w s, Session.run source (.start settings) =
        .ok (List.replicate rules.length .empty) { Session.start settings with world := w } ∧
      w.space? settings.spaceName = some s ∧ List.Forall₂ Rule.Recalls rules s.rules := by
  have here : (Session.start settings).world.space? settings.spaceName =
      some (.named settings.spaceName) := by
    simp [Session.start, World.space?, Space.named]
  obtain ⟨w, s, qs, collected, there, rebuilt, recalls⟩ :=
    World.exists_collect_forms depth portable here (List.forall_mem_nil _)
  refine ⟨w, s, ?_, there, ?_⟩
  · rw [Session.run_of_parse parse_source]
    exact Session.evaluating_of_ok collected
  · rw [rebuilt]
    exact recalls

end Prelude

/-- What loading the prelude leaves is what running its source leaves, and one more report. -/
theorem Session.loadPrelude_of_run {s s' : Session} {as : List Atom}
    (unloaded : s.preludeLoaded = false) (ran : run Prelude.source s = .ok as s') :
    loadPrelude s = .ok () { s' with
      preludeLoaded := true
      world := s'.world.report
        ⟨.info, "Loaded standard library into space '" ++ s'.current ++ "'"⟩ } := by
  unfold loadPrelude
  -- the condition goes first, lest the source is run to compare the two sides
  rw [bind_of_ok (show (get : Act Session) s = .ok s s from rfl), if_neg (by simp [unloaded])]
  exact bind_of_ok ran

/-- A session that starts with the prelude holds its rules and no others. -/
theorem Prelude.recalls_prepared {settings : Settings} (load : settings.loadPrelude = true)
    (depth : 0 ≤ settings.maxDepth) :
    List.Forall₂ Rule.Recalls rules (Session.prepared settings).space.rules := by
  obtain ⟨w, s, ran, there, recalls⟩ := exists_run_source depth
  have loaded := Session.loadPrelude_of_run rfl ran
  have space : (Session.prepared settings).space = s := by
    simp only [Session.prepared, load, if_true]
    rw [loaded]
    exact World.space_of_space? there
  rw [space]
  exact recalls

end Metta
