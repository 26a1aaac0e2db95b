/-
# Metta.Proofs.Worlds -- what a change of one space leaves alone

A change that keeps the names of spaces is seen only through the name it was made under:
that space is changed (`World.space?_change_self`), a space of another name is not
(`World.space?_change_other`), and neither is the list of all the others
(`World.others_change`).

Beside that stand the changes that evaluation makes, with what each does to the atoms and
the rules of a space.  A property that all atoms or all rules have (`Space.Holds`) is kept
if what is added has it.
-/
import Metta.World

namespace Metta

set_option autoImplicit false

namespace Space

variable {s : Space} {a b : Atom} {r q : Rule}

@[simp] theorem add_name : (s.add a).2.name = s.name := by
  unfold add
  split <;> rfl

@[simp] theorem add_rules : (s.add a).2.rules = s.rules := by
  unfold add
  split <;> rfl

theorem mem_of_mem_add (member : b ∈ (s.add a).2.atoms) : b ∈ s.atoms ∨ b = a := by
  unfold add at member
  split at member
  · exact .inl member
  · simpa using member

@[simp] theorem remove_name : (s.remove a).2.name = s.name := by
  unfold remove
  split <;> rfl

@[simp] theorem remove_rules : (s.remove a).2.rules = s.rules := by
  unfold remove
  split <;> rfl

theorem mem_of_mem_remove (member : b ∈ (s.remove a).2.atoms) : b ∈ s.atoms := by
  unfold remove at member
  split at member
  · exact List.mem_of_mem_eraseP member
  · exact member

theorem mem_addRule : q ∈ (s.addRule r).rules ↔ q = r ∨ q ∈ s.rules := by
  rw [← List.mem_cons]
  exact (insertRule_perm r s.rules).mem_iff

/-- All atoms of the space have the one property, and all rules the other. -/
structure Holds (A : Atom → Prop) (R : Rule → Prop) (s : Space) : Prop where
  atoms : ∀ a ∈ s.atoms, A a
  rules : ∀ r ∈ s.rules, R r

variable {A : Atom → Prop} {R : Rule → Prop}

theorem holds_named (name : String) : (named name).Holds A R where
  atoms := List.forall_mem_nil _
  rules := List.forall_mem_nil _

theorem Holds.add (holds : s.Holds A R) (good : A a) : (s.add a).2.Holds A R where
  atoms b member := by
    rcases mem_of_mem_add member with old | rfl
    · exact holds.atoms b old
    · exact good
  rules := by
    rw [add_rules]
    exact holds.rules

theorem Holds.remove (holds : s.Holds A R) (a : Atom) : (s.remove a).2.Holds A R where
  atoms b member := holds.atoms b (mem_of_mem_remove member)
  rules := by
    rw [remove_rules]
    exact holds.rules

theorem Holds.addRule (holds : s.Holds A R) (good : R r) : (s.addRule r).Holds A R where
  atoms := holds.atoms
  rules q member := by
    rcases mem_addRule.mp member with rfl | old
    · exact good
    · exact holds.rules q old

end Space

namespace World

variable {w : World} {name other : String} {f : Space → Space}

/-- The registered spaces of all other names. -/
def others (w : World) (name : String) : List Space := w.spaces.filter (·.name != name)

theorem name_of_space? {s : Space} (found : w.space? name = some s) : s.name = name := by
  simpa using List.find?_some found

theorem space_of_space? {s : Space} (found : w.space? name = some s) : w.space name = s := by
  rw [space, found]
  rfl

theorem space?_change (named : ∀ s, (f s).name = s.name) : (w.change name f).space? other =
    (w.space? other).map fun s => if s.name = name then f s else s := by
  have same : ((fun s : Space => s.name == other) ∘ fun s => if s.name = name then f s else s) =
      fun s => s.name == other := by
    funext s
    simp only [Function.comp]
    split <;> simp [named]
  simp only [space?, change, List.find?_map, same]

theorem space?_change_self (named : ∀ s, (f s).name = s.name) :
    (w.change name f).space? name = (w.space? name).map f := by
  rw [space?_change named]
  refine Option.map_congr fun s found => ?_
  rw [if_pos (name_of_space? found)]

theorem space?_change_other (named : ∀ s, (f s).name = s.name) (different : other ≠ name) :
    (w.change name f).space? other = w.space? other := by
  rw [space?_change named]
  cases found : w.space? other with
  | none => rfl
  | some s => simp [name_of_space? found, different]

/-- A change that is not of rules leaves the rules of every space. -/
theorem rules_change (named : ∀ s, (f s).name = s.name) (kept : ∀ s, (f s).rules = s.rules) :
    ((w.change name f).space other).rules = (w.space other).rules := by
  simp only [space, space?_change named]
  cases w.space? other with
  | none => rfl
  | some s =>
      simp only [Option.map_some, Option.getD_some]
      split
      · exact kept s
      · rfl

/-- The rules of a space that one is added to. -/
theorem mem_rules_addRule {r q : Rule}
    (member : q ∈ ((w.change name (·.addRule r)).space name).rules) :
    q = r ∨ q ∈ (w.space name).rules := by
  unfold space at member ⊢
  rw [space?_change_self (f := (·.addRule r)) fun _ => rfl] at member
  cases found : w.space? name with
  | none =>
      rw [found] at member
      exact .inr member
  | some s =>
      rw [found] at member
      exact Space.mem_addRule.mp member

/-- All atoms of registered spaces have the one property, and all their rules the other. -/
def Holds (A : Atom → Prop) (R : Rule → Prop) (w : World) : Prop := ∀ s ∈ w.spaces, s.Holds A R

variable {A : Atom → Prop} {R : Rule → Prop}

/-- A world whose rules have no guards, of the class that every atom is of. -/
theorem holds_unguarded (unguarded : ∀ s ∈ w.spaces, ∀ r ∈ s.rules, r.guard = none) :
    w.Holds (fun _ => True) fun r => r.guard = none ∧ True :=
  fun s member => ⟨fun _ _ => trivial, fun r inside => ⟨unguarded s member r inside, trivial⟩⟩

theorem Holds.space (holds : w.Holds A R) (name : String) : (w.space name).Holds A R := by
  unfold World.space
  cases found : w.space? name with
  | none => exact Space.holds_named name
  | some s => exact holds s (List.mem_of_find?_eq_some found)

theorem Holds.change (holds : w.Holds A R)
    (keeps : ∀ s : Space, s.Holds A R → (f s).Holds A R) : (w.change name f).Holds A R := by
  intro s member
  obtain ⟨old, registered, rfl⟩ := List.mem_map.mp member
  split
  · exact keeps old (holds old registered)
  · exact holds old registered

theorem others_change (named : ∀ s, (f s).name = s.name) :
    (w.change name f).others name = w.others name := by
  unfold others change
  induction w.spaces with
  | nil => rfl
  | cons s ss ih =>
      by_cases here : s.name = name
      · simpa [here, named] using ih
      · simpa [here] using ih

end World

end Metta
