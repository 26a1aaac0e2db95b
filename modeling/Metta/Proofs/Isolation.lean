/-
# Metta.Proofs.Isolation -- spaces that are not referred to

An atom is local (`Atom.Local`) when no symbol in it refers to a space by its name; `&self`
may occur.  The rules of a space are told apart from its atoms by what evaluation takes
from them: of a rule only the template has to be local.

Evaluation of a local atom against a local space reaches no other space.  This is a
statement about two evaluations, in worlds that have only that space in common: they are
coupled by what the space holds at the moment (`Coupling.confined`), while the other
spaces stay on each side what they were.
-/
import Metta.Proofs.Evaluation
import Metta.Session

namespace Metta

set_option autoImplicit false

namespace Atom

/-- A symbol that refers to a space by its name. -/
def NamesSpace : Atom → Prop
  | .symbol name => name.toList.head? = some '&' ∧ name ≠ "&self"
  | _ => False

instance : DecidablePred NamesSpace
  | .symbol name => inferInstanceAs (Decidable (name.toList.head? = some '&' ∧ name ≠ "&self"))
  | .var _ _ | .literal _ | .expr _ | .empty | .error _ _ => .isFalse id

/-- No symbol in the atom refers to a space by its name. -/
def Local (a : Atom) : Prop := a.Each fun part => ¬ NamesSpace part

instance : DecidablePred Local := fun a =>
  inferInstanceAs (Decidable (a.Each fun part => ¬ NamesSpace part))

theorem local_leaf {a : Atom} (leaf : a.kind ≠ .expression) : Local a ↔ ¬ NamesSpace a :=
  each_leaf leaf

theorem closed_local : Closed Local where
  leafwise := leafwise_each fun _ => id
  empty := by decide
  error _ _ _ _ := (local_leaf (by rintro ⟨⟩)).mpr id
  truth b := by cases b <;> decide
  number _ _ := (local_leaf (by rintro ⟨⟩)).mpr id

/-- A local symbol can only mean the space evaluated against. -/
theorem eq_self_of_local {name : String} (within : Local (.symbol ("&" ++ name))) :
    name = "self" := by
  have unnamed := (local_leaf (by rintro ⟨⟩)).mp within
  refine Decidable.byContradiction fun elsewhere => unnamed ⟨by simp, fun same => elsewhere ?_⟩
  have spelled := congrArg String.toList same
  exact String.toList_inj.mp (by simpa using spelled)

end Atom

/-- Evaluation against the space finds only local atoms, and rules that always decide. -/
abbrev Space.Confined (s : Space) : Prop :=
  s.Holds Atom.Local fun r => r.Decided ∧ r.template.Local

namespace Eval

open Coupling

/-- Both worlds hold the same confined space under the name `home`, and other spaces as given. -/
structure Beside (home : String) (others others' : List Space) (w w' : World) : Prop where
  space : ∃ s : Space, w.space? home = some s ∧ w'.space? home = some s ∧ s.Confined
  others : w.others home = others
  others' : w'.others home = others'

variable {home : String} {others others' : List Space} {w w' : World}

/-- The same change of the shared space on both sides. -/
theorem Beside.change (beside : Beside home others others' w w') {f : Space → Space}
    (named : ∀ s, (f s).name = s.name) (kept : ∀ s : Space, s.Confined → (f s).Confined) :
    Beside home others others' (w.change home f) (w'.change home f) where
  space := by
    obtain ⟨s, here, there, confined⟩ := beside.space
    refine ⟨f s, ?_, ?_, kept s confined⟩
    · rw [World.space?_change_self named, here]
      rfl
    · rw [World.space?_change_self named, there]
      rfl
  others := (World.others_change named).trans beside.others
  others' := (World.others_change named).trans beside.others'

/-- Neither evaluation is given up. -/
def Coupling.beside (home : String) (others others' : List Space) : Coupling where
  rel := Beside home others others'
  stops _ := False

theorem reaches_local {name : String} (reaches : Reaches Atom.Local home name) : name = home := by
  rcases reaches with here | ⟨elsewhere, within⟩
  · exact here
  · exact absurd (Atom.eq_self_of_local within) elsewhere

theorem preserves_beside : (Coupling.beside home others others').Preserves Atom.Local home where
  space rel reaches := by
    obtain ⟨s, here, there, -⟩ := rel.space
    rw [reaches_local reaches, here, there]
  atoms rel reaches := by
    obtain ⟨s, here, -, confined⟩ := rel.space
    rw [reaches_local reaches, World.space_of_space? here]
    exact confined.atoms
  rules rel := by
    obtain ⟨s, here, -, confined⟩ := rel.space
    rw [World.space_of_space? here]
    exact confined.rules
  report _ rel := ⟨rel.space, rel.others, rel.others'⟩
  add _ reaches within rel := by
    rw [reaches_local reaches]
    exact rel.change (fun _ => Space.add_name) fun _ confined => confined.add within
  remove _ reaches _ rel := by
    rw [reaches_local reaches]
    exact rel.change (fun _ => Space.remove_name) fun _ confined => confined.remove _
  addRule _ unguarded _ within rel :=
    rel.change (fun _ => rfl) fun _ confined =>
      confined.addRule ⟨Rule.decided_of_guard_eq_none unguarded, within⟩
  writes _ _ _ := trivial
  faults _ _ := trivial

/-- Evaluation of a local atom against a confined space. -/
theorem interpret_beside (settings : Settings) {a : Atom} (within : a.Local) :
    (Coupling.beside home others others').Answers Atom.Local (interpret settings home a)
      (interpret settings home a) :=
  interpret_pairs Atom.closed_local preserves_beside settings within

end Eval

namespace Session

variable {α : Type}

/-- What an operation answers with. -/
def answer : EStateM.Result Fault Session α → Except Fault α
  | .ok x _ => .ok x
  | .error e _ => .error e

/-- The session that an operation leaves. -/
def after : EStateM.Result Fault Session α → Session
  | .ok _ s => s
  | .error _ s => s

/-- **Spaces that are not referred to do not matter.**  A local atom is evaluated against a local
space in two sessions that have this space and their settings in common.  The answers are the same,
and so is what becomes of the space; each session keeps its other spaces as they are. -/
theorem interpretIn_isolated (name : String) (a : Atom) (s s' : Session) (home : Space)
    (settings : s'.settings = s.settings) (here : s.world.space? name = some home)
    (there : s'.world.space? name = some home) (unguarded : ∀ r ∈ home.rules, r.guard = none)
    (atom : a.Local) (atoms : ∀ b ∈ home.atoms, b.Local)
    (templates : ∀ r ∈ home.rules, r.template.Local) :
    let r := interpretIn name a s
    let r' := interpretIn name a s'
    answer r' = answer r ∧
      (∃ home' : Space, (after r).world.space? name = some home' ∧
        (after r').world.space? name = some home') ∧
      (after r).world.others name = s.world.others name ∧
      (after r').world.others name = s'.world.others name := by
  have decided := fun r member => Rule.decided_of_guard_eq_none (unguarded r member)
  have confined : home.Confined :=
    ⟨atoms, fun r member => ⟨decided r member, templates r member⟩⟩
  have outcomes := Eval.interpret_beside s.settings atom s.world s'.world
    ⟨⟨home, here, there, confined⟩, rfl, rfl⟩
  simp only [interpretIn, evaluating, here, there, settings, Option.isSome_some, if_true]
  generalize Eval.interpret s.settings name a s.world = r at outcomes ⊢
  generalize Eval.interpret s.settings name a s'.world = r' at outcomes ⊢
  cases outcomes with
  | ok _ beside =>
      obtain ⟨home', here, there, -⟩ := beside.space
      exact ⟨rfl, ⟨home', here, there⟩, beside.others, beside.others'⟩
  | error beside =>
      obtain ⟨home', here, there, -⟩ := beside.space
      exact ⟨rfl, ⟨home', here, there⟩, beside.others, beside.others'⟩
  | stopped given => exact absurd given id

/-- The rule stores what it is applied to in the space it belongs to, in whatever session. -/
theorem interpretIn_isolated_store :
    let one : Atom := Atom.ofScalar (.int 1)
    let keep : Rule := ⟨"keep", .expr [.symbol "keep", .var "x" none],
      .expr [.symbol "add-atom", .symbol "&self", .var "x" none], none, 0⟩
    let home : Space := ⟨"home", [], [keep]⟩
    let other : Space := ⟨"other", [one], [{ keep with template := .symbol "dropped" }]⟩
    let s : Session := ⟨{}, ⟨[home], #[]⟩, "home", false⟩
    let s' : Session := ⟨{}, ⟨[other, home], #[]⟩, "other", false⟩
    let a : Atom := .expr [.symbol "keep", one]
    answer (interpretIn "home" a s) = .ok [.empty] ∧
      answer (interpretIn "home" a s') = .ok [.empty] ∧
      (after (interpretIn "home" a s')).world.space? "home" = some { home with atoms := [one] } ∧
      (after (interpretIn "home" a s')).world.others "home" = [other] := by
  intro one keep home other s s' a
  have isolated := interpretIn_isolated "home" a s s' home rfl rfl rfl (by decide) (by decide)
    (by decide) (by decide)
  obtain ⟨answers, ⟨home', here, there⟩, -, others⟩ := isolated
  have stored : (after (interpretIn "home" a s)).world.space? "home" =
      some { home with atoms := [one] } := rfl
  exact ⟨rfl, answers, there.trans (here.symm.trans stored), others⟩

end Session

end Metta
