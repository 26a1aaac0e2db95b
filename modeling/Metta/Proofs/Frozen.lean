/-
# Metta.Proofs.Frozen -- evaluation that cannot change a space

Only three special forms change spaces.  An atom is harmless (`Atom.Harmless`) when the
symbol of none of them occurs in it.  Evaluation takes atoms apart, puts stored atoms and
instances of templates in their place and computes heads, but it spells no symbol that
was not there; so from harmless atoms it never comes to such a form.

The spaces of a world are therefore what an evaluation of a harmless atom leaves as they
are (`interpret_harmless`).  The evaluation is coupled with itself, over worlds that hold
fixed spaces (`Coupling.frozen`).
-/
import Metta.Proofs.Evaluation

namespace Metta

set_option autoImplicit false

namespace Atom

/-- The symbol of a form that changes a space. -/
def ChangesSpace : Atom → Prop
  | .symbol name => name = "=" ∨ name = "add-atom" ∨ name = "remove-atom"
  | _ => False

instance : DecidablePred ChangesSpace
  | .symbol name =>
    inferInstanceAs (Decidable (name = "=" ∨ name = "add-atom" ∨ name = "remove-atom"))
  | .var _ _ | .literal _ | .expr _ | .empty | .error _ _ => .isFalse id

/-- The symbol of a form that changes a space occurs nowhere in the atom. -/
def Harmless (a : Atom) : Prop := a.Each fun part => ¬ ChangesSpace part

instance : DecidablePred Harmless := fun a =>
  inferInstanceAs (Decidable (a.Each fun part => ¬ ChangesSpace part))

theorem harmless_leaf {a : Atom} (leaf : a.kind ≠ .expression) : Harmless a ↔ ¬ ChangesSpace a :=
  each_leaf leaf

theorem closed_harmless : Closed Harmless where
  leafwise := leafwise_each fun _ => id
  empty := by decide
  error _ _ _ _ := (harmless_leaf (by rintro ⟨⟩)).mpr id
  truth b := by cases b <;> decide
  number _ _ := (harmless_leaf (by rintro ⟨⟩)).mpr id

end Atom

namespace Eval

open Coupling

/-- Worlds are equal and hold these spaces.  No evaluation is given up. -/
def Coupling.frozen (spaces : List Space) : Coupling where
  rel w w' := w' = w ∧ w.spaces = spaces
  stops _ := False

/-- The changes that evaluation makes to spaces all stand behind a symbol that does not occur. -/
theorem preserves_of_spaces {K : Coupling} {home : String} {w : World}
    (spaces : ∀ {v v'}, K.rel v v' → v.spaces = w.spaces ∧ v'.spaces = w.spaces)
    (report : ∀ {v v'} r, K.rel v v' → K.rel (v.report r) (v'.report r))
    (atoms : ∀ s ∈ w.spaces, ∀ a ∈ s.atoms, a.Harmless)
    (rules : ∀ r ∈ (w.space home).rules, K.admits r ∧ r.template.Harmless)
    (writes : ∀ {a : Atom}, a.Harmless → K.Writes a.written)
    (faults : ∀ {r a e}, K.admits r → r.apply a = .error e → K.fails (.guard e)) :
    K.Preserves Atom.Harmless home where
  space := by
    intro v v' name rel _
    obtain ⟨here, there⟩ := spaces rel
    rw [World.space?, World.space?, here, there]
  atoms := by
    intro v v' name rel _
    obtain ⟨here, -⟩ := spaces rel
    have holds : v.Holds Atom.Harmless fun _ => True :=
      fun s registered => ⟨atoms s (here ▸ registered), fun _ _ => trivial⟩
    exact (holds.space name).atoms
  rules := by
    intro v v' rel
    obtain ⟨here, -⟩ := spaces rel
    have homes : v.space home = w.space home := by simp only [World.space, World.space?, here]
    exact homes ▸ rules
  report := report
  add head := absurd head (by decide)
  remove head := absurd head (by decide)
  addRule head := absurd head (by decide)
  writes := writes
  faults := faults

theorem preserves_frozen {home : String} {w : World}
    (atoms : ∀ s ∈ w.spaces, ∀ a ∈ s.atoms, a.Harmless)
    (rules : ∀ r ∈ (w.space home).rules, r.Decided ∧ r.template.Harmless) :
    (Coupling.frozen w.spaces).Preserves Atom.Harmless home := by
  refine preserves_of_spaces ?_ ?_ atoms rules (fun _ _ _ => trivial) (fun _ _ => trivial)
  · rintro v v' ⟨rfl, same⟩
    exact ⟨same, same⟩
  · rintro v v' r ⟨rfl, same⟩
    exact ⟨rfl, same⟩

/-- **Without a form that changes spaces nothing changes.**  Where no symbol of such a form occurs
in the atom, in a stored atom or in a template of the space evaluated against, evaluation leaves
every space with its atoms and rules as it is, whatever the limits and whether it answers or fails,
and no symbol of such a form occurs in an answer. -/
theorem interpret_harmless (settings : Settings) (self : String) (a : Atom) (w : World)
    (unguarded : ∀ r ∈ (w.space self).rules, r.guard = none) (atom : a.Harmless)
    (templates : ∀ r ∈ (w.space self).rules, r.template.Harmless)
    (atoms : ∀ s ∈ w.spaces, ∀ b ∈ s.atoms, b.Harmless) :
    (∃ results log, interpret settings self a w = .ok results { w with log } ∧
      ∀ b ∈ results, b.Harmless) ∨
    ∃ fault log, interpret settings self a w = .error fault { w with log } := by
  have rules : ∀ r ∈ (w.space self).rules, r.Decided ∧ r.template.Harmless :=
    fun r member => ⟨Rule.decided_of_guard_eq_none (unguarded r member), templates r member⟩
  have answers := interpret_pairs Atom.closed_harmless (preserves_frozen atoms rules) settings atom
  have outcomes := answers w w ⟨rfl, rfl⟩
  generalize interpret settings self a w = r at outcomes ⊢
  cases outcomes with
  | @ok results v _ goods rel => exact .inl ⟨results, v.log, by rw [← rel.2], goods⟩
  | @error fault v _ rel => exact .inr ⟨fault, v.log, by rw [← rel.2]⟩
  | stopped given => exact absurd given id

/-- A head that a rule takes from its argument collapses the atoms of another space; that a pattern
speaks of adding atoms does no harm. -/
theorem interpret_harmless_computed_head :
    let one : Atom := .ofScalar (.int 1)
    let x : Atom := .var "x" none
    let rules : List Rule := [
      ⟨"use", .expr [.symbol "use", x], .expr [x, .expr [.symbol "get-atoms", .symbol "&other"]],
        none, 0⟩,
      ⟨"kept", .expr [.symbol "add-atom", x], x, none, 0⟩]
    let w : World := ⟨[⟨"home", [], rules⟩, ⟨"other", [one], []⟩], #[]⟩
    let a : Atom := .expr [.symbol "use", .symbol "collapse"]
    let b : Atom := .expr [.expr [one]]
    interpret {} "home" a w = .ok [b] w ∧ b.Harmless := by
  intro one x rules w a b
  have given : interpret {} "home" a w = .ok [b] w := rfl
  rcases interpret_harmless {} "home" a w (by decide) (by decide) (by decide) (by decide) with
    ⟨results, log, ends, goods⟩ | ⟨fault, log, ends⟩
  · rw [given] at ends
    injection ends with same
    exact ⟨given, goods b (by simp [← same])⟩
  · rw [given] at ends
    cases ends

end Eval

end Metta
