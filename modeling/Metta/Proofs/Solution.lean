/-
# Metta.Proofs.Solution -- assignments that solve bindings

Bindings can be read as equations between names and atoms.  An assignment solves them
(`Bindings.SolvedBy`) if it makes of every bound name what it makes of the atom the name
is bound to, up to equality.

An assignment that solves bindings cannot tell an atom from what applying the bindings
makes of it (`SolvedBy.same_apply`).  That is what unification lives on, which compares
atoms to which the bindings found so far have been applied.

Bindings from which no name leads back to itself (`Bindings.Acyclic`) can be chased.
Applied as often as they have names they leave no bound variable (`Acyclic.apply_chase`),
because a way from name to name is no longer than that; and what they leave is a solution
of them (`Acyclic.solvedBy_chase`).
-/
import Metta.Proofs.Matching
import Mathlib.Logic.Relation
import Mathlib.Data.List.Chain

namespace Metta

set_option autoImplicit false

namespace Bindings

open Atom (Same NaNFree)

variable {b s : Bindings} {t : String → Option Atom} {a c d : Atom} {name : String}

/-! ## Solutions -/

/-- The assignment makes of every bound name what it makes of the atom the name is bound to. -/
def SolvedBy (b : Bindings) (t : String → Option Atom) : Prop :=
  ∀ name value, b.get? name = some value →
    Same ((Atom.var name none).substitute t) (value.substitute t)

theorem solvedBy_of_entries
    (each : ∀ e ∈ b.entries, Same ((Atom.var e.1 none).substitute t) (e.2.substitute t)) :
    b.SolvedBy t :=
  fun name value found => each (name, value) (mem_entries_of_get? found)

theorem Extends.solvedBy (extended : b.Extends s) (solved : s.SolvedBy t) : b.SolvedBy t :=
  fun name value found => solved name value (extended name value found)

/-- An assignment makes equal atoms of equal ones, unless it brings a NaN in. -/
theorem same_substitute (equal : Same c d) (free : (d.substitute t).NaNFree) :
    Same (c.substitute t) (d.substitute t) := by
  refine equal.substitute fun name inside => ?_
  cases given : t name with
  | none => exact .none
  | some value =>
      have values := (Atom.nanFree_substitute.mp free).2
      exact .some (Atom.same_self_iff.mpr (values name inside value given))

/-- What an assignment makes of a name does not depend on the type constraint beside it. -/
theorem same_substitute_var {constraint constraint' : Option Atom}
    (free : ((Atom.var name constraint).substitute t).NaNFree) :
    Same ((Atom.var name constraint).substitute t) ((Atom.var name constraint').substitute t) :=
  (same_substitute (by simp [Same, Atom.same]) free).symm

/-- An assignment that solves bindings cannot see whether they were applied. -/
theorem SolvedBy.same_apply (solved : b.SolvedBy t) (free : (a.substitute t).NaNFree) :
    Same (a.substitute t) ((b.apply a).substitute t) := by
  unfold Bindings.apply
  induction a with
  | var name constraint =>
      rw [Atom.substitute.eq_1 b.get?]
      cases found : b.get? name with
      | none => exact Atom.same_self_iff.mpr free
      | some value => exact (same_substitute_var free).trans (solved name value found)
  | expr cs ih =>
      simp only [Atom.substitute, Atom.substituteAll_eq_map, List.map_map] at free ⊢
      rw [Atom.leafwise_nanFree, List.forall_mem_map] at free
      rw [Atom.same_expr, List.forall₂_map_left_iff, List.forall₂_map_right_iff,
        List.forall₂_same]
      exact fun c member => ih c member (free c member)
  | _ => exact Atom.same_self_iff.mpr free

theorem SolvedBy.bind {value : Atom} (solved : b.SolvedBy t)
    (equal : Same ((Atom.var name none).substitute t) (value.substitute t))
    (bound : b.bind name value = some s) : s.SolvedBy t := by
  rcases bind_eq_some bound with ⟨-, -, -, rfl⟩ | ⟨-, entries⟩
  · exact solved
  · intro x old found
    rw [get?_append entries] at found
    cases known : b.get? x with
    | some earlier =>
        rw [known] at found
        exact solved x old (known.trans found)
    | none =>
        rw [known, Option.none_or] at found
        split at found
        · rename_i same
          cases found
          exact same ▸ equal
        · cases found

/-! ## Names that lead to names -/

/-- The name is bound to an atom in which the other stands. -/
def Mentions (s : Bindings) (name other : String) : Prop :=
  ∃ value, s.get? name = some value ∧ other ∈ value.varNames

/-- No name leads back to itself, from atom to atom. -/
def Acyclic (s : Bindings) : Prop := ∀ name, ¬ Relation.TransGen s.Mentions name name

/-- Where no variable is bound nothing changes. -/
theorem apply_eq_self (free : ∀ name ∈ a.varNames, s.get? name = none) : s.apply a = a := by
  unfold Bindings.apply
  induction a with
  | var name constraint =>
      rw [Atom.substitute, free name (by simp [Atom.varNames_var])]
      rfl
  | expr cs ih =>
      have each : ∀ c ∈ cs, c.substitute s.get? = id c := fun c member =>
        ih c member fun name inside => free name (Atom.mem_varNames_expr.mpr ⟨c, member, inside⟩)
      rw [Atom.substitute, Atom.substituteAll_eq_map, List.map_congr_left each, List.map_id]
  | _ => rfl

/-- A variable stands in an atom after an application if it stood there before and is free, or if
another that stood there mentions it. -/
theorem mem_varNames_apply : name ∈ (s.apply a).varNames ↔
    (name ∈ a.varNames ∧ s.get? name = none) ∨ ∃ via ∈ a.varNames, s.Mentions via name := by
  unfold Bindings.apply
  induction a with
  | var via constraint =>
      simp only [Atom.substitute, Atom.varNames_var, List.mem_singleton, exists_eq_left, Mentions]
      cases found : s.get? via with
      | none =>
          rw [Option.getD_none, Atom.varNames_var, List.mem_singleton]
          constructor
          · rintro rfl
            exact .inl ⟨rfl, found⟩
          · rintro (⟨same, -⟩ | ⟨_, ⟨⟩, -⟩)
            exact same
      | some value =>
          rw [Option.getD_some]
          constructor
          · exact fun inside => .inr ⟨value, rfl, inside⟩
          · rintro (⟨rfl, free⟩ | ⟨_, ⟨⟩, inside⟩)
            · rw [found] at free
              cases free
            · exact inside
  | expr cs ih =>
      simp only [Atom.substitute, Atom.substituteAll_eq_map, Atom.mem_varNames_expr, List.mem_map,
        exists_exists_and_eq_and]
      constructor
      · rintro ⟨c, member, inside⟩
        rcases (ih c member).mp inside with ⟨stood, free⟩ | ⟨via, stood, mentions⟩
        · exact .inl ⟨⟨c, member, stood⟩, free⟩
        · exact .inr ⟨via, ⟨c, member, stood⟩, mentions⟩
      · rintro (⟨⟨c, member, stood⟩, free⟩ | ⟨via, ⟨c, member, stood⟩, mentions⟩)
        · exact ⟨c, member, (ih c member).mpr (.inl ⟨stood, free⟩)⟩
        · exact ⟨c, member, (ih c member).mpr (.inr ⟨via, stood, mentions⟩)⟩
  | _ =>
      rw [Atom.substitute, Atom.varNames_leaf (by simp [Atom.kind]) (by simp [Atom.kind])]
      simp

/-- A bound variable that is there after so many applications is the end of a way of as many
steps, from a variable that was there before. -/
theorem exists_way (n : Nat) (bound : name ∈ s.names) (inside : name ∈ (s.apply^[n] a).varNames) :
    ∃ first way, way.length = n ∧ (first :: way).IsChain s.Mentions ∧ first :: way ⊆ s.names ∧
      first ∈ a.varNames := by
  induction n generalizing a with
  | zero => exact ⟨name, [], rfl, by simp, by simpa using bound, inside⟩
  | succ n ih =>
      rw [Function.iterate_succ_apply] at inside
      obtain ⟨first, way, length, chain, names, start⟩ := ih inside
      obtain ⟨value, found⟩ := mem_names.mp (names (.head _))
      rcases mem_varNames_apply.mp start with ⟨-, free⟩ | ⟨via, stood, mentions⟩
      · rw [free] at found
        cases found
      · obtain ⟨value, found, -⟩ := id mentions
        refine ⟨via, first :: way, by simp [length], List.isChain_cons_cons.mpr ⟨mentions, chain⟩,
          List.cons_subset.mpr ⟨mem_names.mpr ⟨value, found⟩, names⟩, stood⟩

/-- A way goes through no name twice, unless there is a circle. -/
theorem Acyclic.nodup (acyclic : s.Acyclic) {way : List String} (chain : way.IsChain s.Mentions) :
    way.Nodup := by
  have later : way.Pairwise (Relation.TransGen s.Mentions) :=
    (chain.imp fun _ _ => Relation.TransGen.single).pairwise
  refine later.imp ?_
  rintro name other leads rfl
  exact acyclic name leads

/-- Where every variable has a smaller rank than the name it is reached from there is no circle. -/
theorem acyclic_of_rank (rank : String → Nat)
    (falls : ∀ e ∈ s.entries, ∀ other ∈ e.2.varNames, rank other < rank e.1) : s.Acyclic := by
  have falls_once : ∀ {name other}, s.Mentions name other → rank other < rank name := by
    rintro name other ⟨value, found, inside⟩
    exact falls (name, value) (mem_entries_of_get? found) other inside
  have falls_along : ∀ {name other}, Relation.TransGen s.Mentions name other →
      rank other < rank name := by
    intro name other leads
    induction leads with
    | single mentions => exact falls_once mentions
    | tail _ mentions ih => exact (falls_once mentions).trans ih
  intro name circle
  exact Nat.lt_irrefl _ (falls_along circle)

/-- No value has a variable that is bound. -/
def Resolved (s : Bindings) : Prop :=
  s.Within fun value => ∀ name ∈ value.varNames, s.get? name = none

instance (s : Bindings) : Decidable s.Resolved :=
  inferInstanceAs (Decidable (s.Within fun value => ∀ name ∈ value.varNames, s.get? name = none))

/-- Resolved bindings are their own solution. -/
theorem Resolved.solvedBy (resolved : s.Resolved) (within : s.Within NaNFree) :
    s.SolvedBy s.get? := by
  intro name value found
  have still : s.apply value = value := apply_eq_self (resolved.get? found)
  rw [Atom.substitute, found, Option.getD_some]
  show Same value (s.apply value)
  rw [still]
  exact Atom.same_self_iff.mpr (within.get? found)

/-! ## Chasing -/

/-- Applies bindings as often as they have names. -/
def chase (s : Bindings) (a : Atom) : Atom := s.apply^[s.size] a

/-- **Chasing comes to an end.**  What is left has no bound variable. -/
theorem Acyclic.apply_chase (acyclic : s.Acyclic) (a : Atom) : s.apply (s.chase a) = s.chase a := by
  refine apply_eq_self fun name inside => ?_
  by_contra bound
  have known : name ∈ s.names :=
    mem_names.mpr (Option.ne_none_iff_exists'.mp bound)
  obtain ⟨first, way, length, chain, names, -⟩ := exists_way s.size known inside
  have short := (acyclic.nodup chain).length_le_of_subset names
  simp only [List.length_cons, length, Bindings.names, List.length_map, size] at short
  omega

theorem iterate_apply_expr (n : Nat) (cs : List Atom) :
    s.apply^[n] (.expr cs) = .expr (cs.map s.apply^[n]) := by
  induction n generalizing cs with
  | zero => simp
  | succ n ih =>
      have once : s.apply (.expr cs) = .expr (cs.map s.apply) := by
        simp only [Bindings.apply, Atom.substitute, Atom.substituteAll_eq_map]
        rfl
      rw [Function.iterate_succ_apply, once, ih, List.map_map]
      rfl

/-- Bindings without a NaN are alike themselves. -/
theorem Within.alike (within : s.Within NaNFree) : s.Alike s :=
  List.forall₂_same.mpr fun _ member =>
    ⟨rfl, Atom.same_self_iff.mpr (within _ (List.mem_map_of_mem member))⟩

theorem same_iterate_apply (alike : s.Alike s) (n : Nat) (equal : Same c d) :
    Same (s.apply^[n] c) (s.apply^[n] d) := by
  induction n generalizing c d with
  | zero => exact equal
  | succ n ih => exact ih (alike.apply equal)

/-- To chase an atom is to put what its variables are chased to in their places. -/
theorem same_substitute_chase (within : s.Within NaNFree) (free : a.NaNFree) :
    Same (a.substitute fun name => some (s.chase (.var name none))) (s.chase a) := by
  unfold chase
  induction a with
  | var name constraint =>
      exact same_iterate_apply within.alike _ (by simp [Same, Atom.same])
  | expr cs ih =>
      rw [Atom.leafwise_nanFree] at free
      rw [iterate_apply_expr, Atom.substitute, Atom.substituteAll_eq_map, Atom.same_expr,
        List.forall₂_map_left_iff, List.forall₂_map_right_iff, List.forall₂_same]
      exact fun c member => ih c member (free c member)
  | _ =>
      rw [Function.iterate_fixed rfl]
      exact Atom.same_self_iff.mpr free

/-- **What bindings are chased to solves them.** -/
theorem Acyclic.solvedBy_chase (acyclic : s.Acyclic) (within : s.Within NaNFree) :
    s.SolvedBy fun name => some (s.chase (.var name none)) := by
  intro name value found
  have once : s.apply (.var name none) = value := by
    simp [Bindings.apply, Atom.substitute, found]
  have step : s.chase value = s.chase (.var name none) :=
    calc s.chase value = s.apply^[s.size] (s.apply (.var name none)) := by rw [once]; rfl
      _ = s.apply (s.chase (.var name none)) := by
        rw [← Function.iterate_succ_apply, Function.iterate_succ_apply']
        rfl
      _ = s.chase (.var name none) := acyclic.apply_chase _
  have chased := same_substitute_chase within (within.get? found)
  rw [step] at chased
  exact chased.symm

end Bindings

end Metta
