/-
# Metta.Proofs.Export -- a space that is written and read again

The source text of a space is read as its atoms and behind them the forms that define its
rules (`Space.parse_source`).  Evaluating these forms in another session rebuilds the rules
(`World.exists_collect_forms`), by one form after the other.

A form keeps the pattern and the template of a rule and nothing else.  The priorities are
lost, but not what they were for: all rules come back with the same one, so each comes
behind those before it, and the list is in the old order.  The order of the list is all
that a contraction takes from them (`Rule.contract_congr`).
-/
import Metta.Proofs.Composition
import Metta.Proofs.Priority
import Metta.Proofs.Rereading
import Metta.Proofs.RuleCheck

namespace Metta

set_option autoImplicit false

/-! ## Rules as forms -/

namespace Rule

variable {r q : Rule} {rs qs : List Rule}

/-- The form says all about the rule, and it can be read: there is no guard, and inside the
parentheses of the form there is room for the pattern and the template. -/
structure Portable (r : Rule) : Prop where
  unguarded : r.guard = none
  readable : ∀ a ∈ r.atoms, a.Readable
  shallow : ∀ a ∈ r.atoms, a.nesting ≤ 199

theorem render_form (r : Rule) : r.form.render = r.render := by
  rw [← String.toList_inj]
  simp [form, Atom.render, Atom.renderAll, render]

theorem Portable.readable_form (portable : r.Portable) : r.form.Readable := by
  have equals : (Atom.symbol "=").Readable := by decide
  have pattern : r.pattern ∈ r.atoms := by simp [atoms]
  have template : r.template ∈ r.atoms := by simp [atoms]
  constructor
  · refine (Atom.leafwise_legible _).mpr fun a member => ?_
    simp only [List.mem_cons, List.not_mem_nil, or_false] at member
    rcases member with rfl | rfl | rfl
    · exact equals.1
    · exact (portable.readable _ pattern).1
    · exact (portable.readable _ template).1
  · have left := portable.shallow _ pattern
    have right := portable.shallow _ template
    have leaf : (Atom.symbol "=").nesting = 0 := rfl
    simp only [form, Atom.nesting, Atom.nestingAll, Reader.defaultLimit] at *
    omega

/-- The line that a rule is written as is read as its form. -/
theorem Portable.parse_render (portable : r.Portable) : Atom.parse r.render = .ok [r.form] := by
  rw [← render_form]
  exact portable.readable_form.parse_render_eq

/-- Source text has no form for a NaN. -/
theorem Portable.nanFree_template (portable : r.Portable) : r.template.NaNFree :=
  Atom.nanFree_of_legible (portable.readable r.template (by simp [atoms])).1

/-- The second rule is what comes of the form of the first. -/
structure Recalls (r q : Rule) : Prop where
  pattern : q.pattern = r.pattern
  template : q.template = r.template
  unguarded : q.guard = none
  level : q.priority = 0

/-- Without a guard a rule does what its pattern and its template say. -/
theorem Recalls.apply_eq (recalls : Recalls r q) (unguarded : r.guard = none) :
    r.apply = q.apply := by
  funext a
  simp only [Rule.apply, admits, recalls.pattern, recalls.template, recalls.unguarded, unguarded]

end Rule

/-- A rule that none has a lower priority than comes behind all of them. -/
theorem Space.insertRule_of_le {r : Rule} {rs : List Rule}
    (lowest : ∀ q ∈ rs, r.priority ≤ q.priority) : insertRule r rs = rs ++ [r] := by
  induction rs with
  | nil => rfl
  | cons q qs ih =>
      obtain ⟨first, others⟩ := List.forall_mem_cons.mp lowest
      rw [insertRule, if_pos first, ih others]
      rfl

/-! ## Forms evaluated -/

namespace World

variable {w : World} {home : String} {s : Space} {settings : Settings}

/-- The form of a rule is evaluated to `empty`, and where no rule has a priority below zero, what
comes of it is the last rule. -/
theorem exists_interpret_form (depth : 0 ≤ settings.maxDepth) {r : Rule} (portable : r.Portable)
    (here : w.space? home = some s) (levels : ∀ q ∈ s.rules, 0 ≤ q.priority) :
    ∃ w' s' q, Eval.interpret settings home r.form w = .ok [.empty] w' ∧
      w'.space? home = some s' ∧ s'.rules = s.rules ++ [q] ∧ r.Recalls q := by
  have reportable : Eval.Reportable settings (.expr (.symbol "=" :: [r.pattern, r.template])) :=
    fun _ => Atom.isWritable_of_legible portable.readable_form.1
  obtain ⟨log, evaluated⟩ := Eval.exists_interpret home depth reportable w
  have there : ({ w with log } : World).space? home = some s := here
  let q : Rule := ⟨"user-rule-" ++ toString s.rules.length, r.pattern, r.template, none, 0⟩
  have writable : ∀ a ∈ q.atoms, a.isWritable = true :=
    fun a member => Atom.isWritable_of_legible (portable.readable a member).1
  obtain ⟨log', added⟩ := exists_addRule_reported writable home { w with log }
  obtain ⟨s', after, rules⟩ := exists_addRule there q
  have answers : Eval.evalHead (.quiet settings home 0)
        (Eval.evaluate settings home settings.maxDepth.toNat 1) "=" [r.pattern, r.template]
        { w with log } =
      (Eval.addRule home q >>= fun _ => pure [.empty]) { w with log } := by
    simp only [q, ← space_of_space? there]
    rfl
  refine ⟨_, s', q, evaluated.trans (answers.trans (bind_of_ok added)), after, ?_,
    ⟨rfl, rfl, rfl, rfl⟩⟩
  rw [rules]
  exact Space.insertRule_of_le levels

/-- The forms of rules are evaluated one after the other, and what comes of them stands in their
order. -/
theorem exists_collect_forms (depth : 0 ≤ settings.maxDepth) {rs : List Rule}
    (portable : ∀ r ∈ rs, r.Portable) (here : w.space? home = some s)
    (levels : ∀ q ∈ s.rules, 0 ≤ q.priority) :
    ∃ w' s' qs, Eval.collect (Eval.interpret settings home) (rs.map Rule.form) w =
        .ok (List.replicate rs.length .empty) w' ∧
      w'.space? home = some s' ∧ s'.rules = s.rules ++ qs ∧ List.Forall₂ Rule.Recalls rs qs := by
  induction rs generalizing w s with
  | nil => exact ⟨w, s, [], rfl, here, (List.append_nil _).symm, .nil⟩
  | cons r rs ih =>
      obtain ⟨first, others⟩ := List.forall_mem_cons.mp portable
      obtain ⟨w₁, s₁, q, evaluated, there, rules, recalls⟩ :=
        exists_interpret_form depth first here levels
      have level : ∀ q ∈ s₁.rules, 0 ≤ q.priority := by
        rw [rules]
        refine List.forall_mem_append.mpr ⟨levels, List.forall_mem_singleton.mpr ?_⟩
        exact recalls.level.ge
      obtain ⟨w₂, s₂, qs, collected, last, more, restored⟩ := ih others there level
      refine ⟨w₂, s₂, q :: qs, ?_, last, ?_, .cons recalls restored⟩
      · rw [List.map_cons, Eval.collect, bind_of_ok evaluated, bind_of_ok collected]
        rfl
      · rw [more, rules, List.append_assoc, List.singleton_append]

end World

/-! ## Spaces -/

namespace Space

variable {s : Space}

/-- The lines of portable rules are read as their forms. -/
theorem lines_read {rs : List Rule} (rules : ∀ r ∈ rs, r.Portable) :
    List.Forall₂ (fun line a => Atom.parse line = .ok [a]) (rs.map Rule.render)
      (rs.map Rule.form) := by
  rw [List.forall₂_map_left_iff, List.forall₂_map_right_iff, List.forall₂_same]
  exact fun r member => (rules r member).parse_render

/-- A space with readable atoms and portable rules can be written, and is read as its atoms and the
forms of its rules. -/
theorem parse_source (atoms : ∀ a ∈ s.atoms, a.Readable) (rules : ∀ r ∈ s.rules, r.Portable) :
    s.written = .ok s.source ∧ Atom.parse s.source = .ok (s.atoms ++ s.rules.map Rule.form) := by
  have writable : ∀ a ∈ s.atoms ++ s.rules.flatMap Rule.atoms, a.isWritable = true := by
    refine List.forall_mem_append.mpr ⟨fun a member => ?_, List.forall_mem_flatMap.mpr ?_⟩
    · exact Atom.isWritable_of_legible (atoms a member).1
    · exact fun r member a part =>
        Atom.isWritable_of_legible ((rules r member).readable a part).1
  have lines : List.Forall₂ (fun line a => Atom.parse line = .ok [a]) (s.atoms.map Atom.render)
      s.atoms := by
    rw [List.forall₂_map_left_iff, List.forall₂_same]
    exact fun a member => (atoms a member).parse_render_eq
  exact ⟨Atom.writing_eq_ok writable _, Atom.parse_lines (List.rel_append lines (lines_read rules))⟩

/-- Where the forms of rules have been evaluated each rule does what the old one did. -/
theorem forall₂_apply_of_recalls {s' : Space} (unguarded : ∀ r ∈ s.rules, r.guard = none)
    (recalls : List.Forall₂ Rule.Recalls s.rules s'.rules) :
    List.Forall₂ (fun r r' => r.apply = r'.apply) s.rules s'.rules :=
  ((List.forall₂_and_left s.rules s'.rules).mpr ⟨unguarded, recalls⟩).imp
    fun _ _ both => both.2.apply_eq both.1

/-- **A space can be rebuilt from its source text.**  If the atoms of a space can be read and its
rules are portable, then its source text is read as its atoms followed by the forms that define its
rules, in the order of the list.  Where the lines of the rules are run in a new session with any
settings that allow evaluation, as one text or one after the other, each answers `empty`, and in the
end the rules of the space have the patterns and templates of the old ones in the same order.
Whatever priorities the old ones had, the same is computed of every atom under every budget; a
reduction has an end in the one space if it has one in the other, and it has one where no NaN is in
the atom. -/
theorem rebuilt_from_written (s : Space) (atoms : ∀ a ∈ s.atoms, a.Readable)
    (rules : ∀ r ∈ s.rules, r.Portable) :
    (∃ text, s.written = .ok text ∧
      Atom.parse text = .ok (s.atoms ++ s.rules.map fun r =>
        .expr [.symbol "=", r.pattern, r.template])) ∧
    ∀ settings : Settings, 0 ≤ settings.maxDepth →
      let lines := s.rules.map Rule.render
      let answers := List.replicate s.rules.length Atom.empty
      ∃ last, Session.run ("\n".intercalate lines) (.start settings) = .ok answers last ∧
        Session.performAll (lines.map .run) (.start settings) = (answers, last) ∧
        (last.space.rules.map fun r => (r.pattern, r.template)) =
          (s.rules.map fun r => (r.pattern, r.template)) ∧
        ∀ maxSteps a,
          s.reduce maxSteps a = last.space.reduce maxSteps a ∧
          (∀ a', a.ReducesTo s.rules { maxSteps } a' ↔
            a.ReducesTo last.space.rules { maxSteps } a') ∧
          (a.NaNFree → ∃ a', a.ReducesTo s.rules { maxSteps } a' ∧
            s.reduce maxSteps a = .ok a' ∧ last.space.reduce maxSteps a = .ok a') := by
  refine ⟨⟨_, parse_source atoms rules⟩, ?_⟩
  intro settings depth lines answers
  have read := lines_read rules
  have whole : Atom.parse ("\n".intercalate lines) = .ok (s.rules.map Rule.form) :=
    Atom.parse_lines read
  let fresh : Session := .start settings
  have here : fresh.world.space? fresh.current = some (.named settings.spaceName) := by
    simp [fresh, Session.start, World.space?, named]
  obtain ⟨w, s', qs, collected, there, rebuilt, recalls⟩ :=
    World.exists_collect_forms depth rules here (List.forall_mem_nil _)
  let last : Session := { fresh with world := w }
  have evaluated : Session.interpretEach (s.rules.map Rule.form) fresh = .ok answers last :=
    Session.evaluating_of_ok (s := fresh) collected
  have space : last.space = s' := World.space_of_space? there
  have restored : List.Forall₂ Rule.Recalls s.rules last.space.rules := by
    rw [space, rebuilt]
    exact recalls
  refine ⟨last, (Session.run_of_parse whole fresh).trans evaluated,
    Session.performAll_lines read evaluated, ?_, fun maxSteps a => ?_⟩
  · rw [← List.forall₂_eq_eq_eq, List.forall₂_map_left_iff, List.forall₂_map_right_iff]
    exact restored.flip.imp fun _ _ back => Prod.ext back.pattern back.template
  · have same : List.Forall₂ (fun r r' => r.apply = r'.apply) s.rules last.space.rules :=
      forall₂_apply_of_recalls (fun r member => (rules r member).unguarded) restored
    have alike (a' : Atom) : a.ReducesTo s.rules { maxSteps } a' ↔
        a.ReducesTo last.space.rules { maxSteps } a' := Atom.reducesTo_congr same
    have computed : s.reduce maxSteps a = last.space.reduce maxSteps a :=
      congrArg (Prod.fst <$> ·) (Reduce.reduceCounting_congr same)
    refine ⟨computed, alike, fun free => ?_⟩
    obtain ⟨a', ends⟩ := Atom.exists_reducesTo
      (fun r member => Rule.decided_of_guard_eq_none (rules r member).unguarded)
      (fun r member => (rules r member).nanFree_template) free { maxSteps }
    exact ⟨a', ends, ends.1, ((alike a').mp ends).1⟩

/-- Two rules that only their priorities keep in order, and a text that looks like the end of a
form.  They are rebuilt where no evaluation goes below the first level and each step is reported. -/
theorem rebuilt_from_written_ranked :
    let x : Atom := .var "x" none
    let high : Rule := ⟨"high", .expr [.symbol "f", x], .expr [.symbol "g", x], none, 7⟩
    let low : Rule := ⟨"low", .expr [.symbol "f", x], .symbol "b", none, -1⟩
    let s : Space := ⟨"kb", [.ofScalar (.text ") ;")], [high, low]⟩
    (∃ text, s.written = .ok text ∧ Atom.parse text = .ok (s.atoms ++ [high.form, low.form])) ∧
      ∃ last, Session.run "(= (f $x) (g $x))\n(= (f $x) b)"
          (.start { maxDepth := 0, trace := true }) = .ok [.empty, .empty] last ∧
        (Atom.expr [.symbol "f", .symbol "a"]).ReducesTo last.space.rules { maxSteps := 100 }
          (.expr [.symbol "g", .symbol "a"]) := by
  intro x high low s
  have atoms : ∀ a ∈ s.atoms, a.Readable := by decide
  have readable : ∀ r ∈ s.rules, ∀ a ∈ r.atoms, a.Readable ∧ a.nesting ≤ 199 := by decide
  have rules : ∀ r ∈ s.rules, r.Portable := by
    refine fun r member => ⟨?_, fun a part => (readable r member a part).1,
      fun a part => (readable r member a part).2⟩
    fin_cases member <;> rfl
  obtain ⟨source, rebuilt⟩ := rebuilt_from_written s atoms rules
  obtain ⟨last, ran, -, -, reduces⟩ := rebuilt { maxDepth := 0, trace := true } (by decide)
  obtain ⟨-, alike, ends⟩ := reduces 100 (.expr [.symbol "f", .symbol "a"])
  obtain ⟨a', ended, before, -⟩ := ends (by decide)
  have reduced : s.reduce 100 (.expr [.symbol "f", .symbol "a"]) =
      .ok (.expr [.symbol "g", .symbol "a"]) := rfl
  have lines : "\n".intercalate (s.rules.map Rule.render) =
      "(= (f $x) (g $x))\n(= (f $x) b)" := by decide
  rw [lines] at ran
  rw [reduced] at before
  cases before
  exact ⟨source, last, ran, (alike _).mp ended⟩

end Space

end Metta
