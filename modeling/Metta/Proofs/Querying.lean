/-
# Metta.Proofs.Querying -- what a space answers when it is asked

A stored atom without a NaN matches a pattern exactly if it is an instance of it
(`Atom.isSome_matchPattern_iff`), and applied to the pattern the bindings of the match give
it back.  So the atoms that a query names are the instances of the pattern among those that
are stored, in the order in which they came, and its bindings belong to them one by one.
The form that asks for the pattern as a template answers with the same atoms.

A pattern without variables has no instance but itself: matching it is comparing, and
asking for it is asking whether an equal atom is stored, of which there is at most one.
All of these ways to look at a space agree (`Space.query_agrees`).
-/
import Metta.Proofs.Heads
import Metta.Proofs.Merging
import Metta.Proofs.Solution

namespace Metta

set_option autoImplicit false

/-! ## Instances -/

namespace Atom

variable {a p : Atom} {σ σ' : String → Option Atom}

/-- Only what stands for the variables of an atom matters. -/
theorem substitute_congr (alike : ∀ name ∈ a.varNames, σ name = σ' name) :
    a.substitute σ = a.substitute σ' := by
  induction a with
  | var name constraint =>
      rw [substitute, substitute, alike name (by simp [varNames_var])]
  | expr cs ih =>
      rw [substitute, substitute, substituteAll_eq_map, substituteAll_eq_map]
      congr 1
      refine List.map_congr_left ?_
      intro c member
      refine ih c member ?_
      intro name inside
      exact alike name (mem_varNames_expr.mpr ⟨c, member, inside⟩)
  | _ => rfl

/-- The atom is equal to the pattern with some atom in the place of each variable. -/
def IsInstance (a p : Atom) : Prop :=
  ∃ σ : String → Atom, Same (p.substitute fun name => some (σ name)) a

/-- **To match is to be an instance.** -/
theorem isSome_matchPattern_iff (free : a.NaNFree) :
    (a.matchPattern p).isSome = true ↔ a.IsInstance p := by
  rw [Option.isSome_iff_exists]
  constructor
  · rintro ⟨s, matched⟩
    have sound := matched_of_matchInto matched
    have equal : Same (s.apply p) a := sound.equal free s (.refl s)
    refine ⟨fun name => (s.get? name).getD .empty, ?_⟩
    have bound : ∀ name ∈ p.varNames, some ((s.get? name).getD .empty) = s.get? name := by
      intro name inside
      obtain ⟨value, found⟩ := Bindings.mem_names.mp ((sound.names name).mpr (.inr inside))
      rw [found, Option.getD_some]
    rw [substitute_congr bound]
    exact equal
  · rintro ⟨σ, equal⟩
    have nothing : AgreesOn (fun _ => True) (fun name => some (σ name)) .empty := by
      rintro name - value ⟨⟩
    obtain ⟨s, matched, -⟩ :=
      matchInto_of_assignment nothing (fun _ _ => ⟨trivial, rfl⟩) equal
    exact ⟨s, matched⟩

/-- To match a pattern without variables is to compare. -/
theorem matchPattern_ground (ground : p.Ground) :
    a.matchPattern p = if p.same a then some .empty else none := by
  rw [matchPattern, matchInto_ground ground, same_comm]

end Atom

/-! ## Queries -/

namespace Space

open Atom (Same NaNFree)

variable {s : Space} {p : Atom}

/-- The bindings of a query belong to its atoms one by one. -/
theorem query_matches (s : Space) (p : Atom) :
    List.Forall₂ (fun b a => a.matchPattern p = some b) (s.query p) (s.queryAtoms p) := by
  unfold query queryAtoms Atom.matchEach
  induction s.atoms with
  | nil => exact .nil
  | cons a as ih =>
      cases matched : a.matchPattern p with
      | none => simpa [matched] using ih
      | some b => simpa [matched] using ih

/-- Applied to the pattern they give these atoms back. -/
theorem query_apply (free : ∀ a ∈ s.atoms, a.NaNFree) (p : Atom) :
    List.Forall₂ (fun b a => Same (b.apply p) a) (s.query p) (s.queryAtoms p) := by
  have sound : ∀ b a, a.NaNFree → a.matchPattern p = some b → Same (b.apply p) a := by
    intro b a free matched
    exact (Atom.matched_of_matchInto matched).equal free b (.refl b)
  have stored : ∀ a ∈ s.queryAtoms p, a.NaNFree := by
    intro a member
    exact free a (List.mem_of_mem_filter member)
  have paired := query_matches s p
  generalize s.query p = bs at paired ⊢
  generalize s.queryAtoms p = as at paired stored ⊢
  induction paired with
  | nil => exact .nil
  | cons head tail ih =>
      obtain ⟨first, others⟩ := List.forall_mem_cons.mp stored
      exact .cons (sound _ _ first head) (ih others)

theorem mem_queryAtoms (free : ∀ a ∈ s.atoms, a.NaNFree) {a : Atom} (stored : a ∈ s.atoms) :
    a ∈ s.queryAtoms p ↔ a.IsInstance p := by
  rw [queryAtoms, List.mem_filter, Atom.isSome_matchPattern_iff (free a stored)]
  exact and_iff_right stored

/-- Among atoms of which no two are equal at most one is equal to the pattern. -/
theorem matchEach_ground {as : List Atom} (distinct : as.Pairwise fun a b => ¬ Same a b)
    (ground : p.Ground) :
    Atom.matchEach as p = if as.any p.same then [.empty] else [] := by
  unfold Atom.matchEach
  induction distinct with
  | nil => rfl
  | @cons a as others _ ih =>
      rw [List.filterMap_cons, List.any_cons, Atom.matchPattern_ground ground, ih]
      cases equal : p.same a with
      | false => simp
      | true =>
          have alone : as.any p.same = false := by
            rw [List.any_eq_false]
            intro b member also
            have first : Same a p := Same.symm equal
            exact others b member (first.trans also)
          simp [alone]

theorem query_ground (distinct : s.atoms.Pairwise fun a b => ¬ Same a b) (ground : p.Ground) :
    s.query p = if s.contains p then [.empty] else [] :=
  matchEach_ground distinct ground

end Space

/-! ## The form that asks -/

namespace Eval

/-- The form that asks for the atoms that match a pattern, by the pattern itself. -/
def asking (p : Atom) : Atom := .expr [.symbol "match", .symbol "&self", p, p]

variable {settings : Settings} {self : String} {p : Atom}

theorem exists_interpret_asking (depth : 0 ≤ settings.maxDepth)
    (reportable : Reportable settings (asking p)) (w : World) :
    ∃ log, interpret settings self (asking p) w =
      .ok (orEmpty (((w.space self).query p).map (·.apply p))) { w with log } := by
  obtain ⟨log, evaluated⟩ := exists_interpret self depth reportable w
  exact ⟨log, evaluated⟩

/-- Answers that belong to atoms one by one, and the answer where there are none. -/
theorem orEmpty_forall₂ {R : Atom → Atom → Prop} {results as : List Atom}
    (paired : List.Forall₂ R results as) :
    (as = [] → orEmpty results = [.empty]) ∧ (as ≠ [] → List.Forall₂ R (orEmpty results) as) := by
  cases paired with
  | nil => exact ⟨fun _ => rfl, absurd rfl⟩
  | cons head tail =>
      refine ⟨?_, fun _ => .cons head tail⟩
      rintro ⟨⟩

end Eval

namespace Space

open Atom (Same)

variable {s : Space}

/-- **All ways to look at a space agree.**  The space holds no NaN, and no two equal atoms, which no
space does that is filled by adding atoms (`Space.Recounts.distinct`).  The bindings and the atoms
of a query belong to each other one by one, and applied to the pattern the bindings make an atom
equal to the atom.  The atoms are the instances of the pattern among those that are stored, in the
order of these.  The form that asks for the pattern by the pattern answers with atoms equal to them,
or with `empty` if there are none; only where steps are reported and it cannot be written it fails
for that, and does nothing.  For a pattern without variables the space contains it exactly if the
query finds something, and that is one time nothing to bind. -/
theorem query_agrees (free : ∀ a ∈ s.atoms, a.NaNFree)
    (distinct : s.atoms.Pairwise fun a b => ¬ Same a b) (p : Atom) :
    List.Forall₂ (fun b a => Same (b.apply p) a) (s.query p) (s.queryAtoms p) ∧
    (s.queryAtoms p).Sublist s.atoms ∧
    (∀ a ∈ s.atoms, a ∈ s.queryAtoms p ↔ a.IsInstance p) ∧
    (∀ (settings : Settings) (self : String) (w : World), w.space self = s →
      0 ≤ settings.maxDepth →
      (Eval.Reportable settings (Eval.asking p) → ∃ results log,
        Eval.interpret settings self (Eval.asking p) w = .ok results { w with log } ∧
        (s.queryAtoms p = [] → results = [.empty]) ∧
        (s.queryAtoms p ≠ [] → List.Forall₂ Same results (s.queryAtoms p))) ∧
      (¬ Eval.Reportable settings (Eval.asking p) → ∃ e, (Eval.asking p).written = .error e ∧
        Eval.interpret settings self (Eval.asking p) w = .error (.unwritable e) w)) ∧
    (p.Ground →
      (s.contains p = true ↔ s.query p ≠ []) ∧ (s.query p ≠ [] → s.query p = [.empty])) := by
  have applied := query_apply free p
  refine ⟨applied, List.filter_sublist, fun a stored => mem_queryAtoms free stored, ?_, ?_⟩
  · rintro settings self w rfl depth
    have answers : List.Forall₂ Same (((w.space self).query p).map (·.apply p))
        ((w.space self).queryAtoms p) := List.forall₂_map_left_iff.mpr applied
    refine ⟨?_, fun unwritable => Eval.exists_unreported_interpret depth unwritable w⟩
    intro reportable
    obtain ⟨log, answered⟩ := Eval.exists_interpret_asking depth reportable w
    exact ⟨_, log, answered, Eval.orEmpty_forall₂ answers⟩
  · intro ground
    rw [query_ground distinct ground]
    cases s.contains p <;> simp

/-- `2.0` and an expression that repeats `2` match a pattern that repeats a variable or has none. -/
theorem query_agrees_numbers :
    let two : Atom := .ofScalar (.int 2)
    let two' : Atom := .ofScalar (.float 2)
    let pair (a b : Atom) : Atom := .expr [a, b]
    let x : Atom := .var "x" none
    let s : Space := ⟨"home", [pair two two', .symbol "a", pair two x, two'], []⟩
    let w : World := ⟨[s], #[]⟩
    (∀ a ∈ s.atoms, a.NaNFree) ∧ s.atoms.Pairwise (fun a b => ¬ Same a b) ∧
      s.queryAtoms (pair x x) = [pair two two'] ∧
      (∃ results log, Eval.interpret {} "home" (Eval.asking (pair x x)) w =
          .ok results { w with log } ∧ List.Forall₂ Same results [pair two two']) ∧
      s.contains two = true ∧ s.query two = [.empty] := by
  intro two two' pair x s w
  have free : ∀ a ∈ s.atoms, a.NaNFree := by decide
  have distinct : s.atoms.Pairwise fun a b => ¬ Same a b := by decide
  have found : s.queryAtoms (pair x x) = [pair two two'] := rfl
  obtain ⟨-, -, -, asked, -⟩ := query_agrees free distinct (pair x x)
  obtain ⟨-, -, -, -, compared⟩ := query_agrees free distinct two
  obtain ⟨results, log, answered, -, answers⟩ :=
    (asked {} "home" w rfl (by decide)).1 (by decide)
  have contained : s.contains two = true := by decide
  obtain ⟨agree, single⟩ := compared (by decide)
  rw [found] at answers
  exact ⟨free, distinct, found, ⟨results, log, answered, answers (by simp)⟩, contained,
    single (agree.mp contained)⟩

/-- Where steps are reported, asking for a whole number that is tagged to be written as a float and
is too large for one fails instead of answering that there is none. -/
theorem query_unreported :
    let big : Atom := .literal ⟨.int (Int.pow 10 400), "Float"⟩
    let w : World := ⟨[.named "home"], #[]⟩
    (w.space "home").queryAtoms big = [] ∧
      Eval.interpret { trace := true } "home" (Eval.asking big) w =
        .error (.unwritable .tooLarge) w := by
  intro big w
  have unwritable : ¬ Eval.Reportable { trace := true } (Eval.asking big) := by decide +kernel
  have written : (Eval.asking big).written = .error .tooLarge := by decide +kernel
  obtain ⟨e, failed, ended⟩ :=
    @Eval.exists_unreported_interpret { trace := true } "home" _ (by decide) unwritable w
  rw [written] at failed
  cases failed
  exact ⟨rfl, ended⟩

end Space

end Metta
