/-
# Metta.Proofs.Matching -- matching is exact

A successful match only adds names, and the names it adds are those of the pattern's
variables.  Under the bindings it returns, and under any that extend them, the pattern is
equal to the data (`Matched`).

The other way round, an assignment of atoms to names that makes the pattern equal to the
data leaves no choice to the match: it finds bindings equal to the assignment
(`matchInto_of_assignment`).  Nothing keeps the data from having variables, of whatever
names: these are compared and copied, and never looked up.

Both are inductions over the pattern, with the children matched from left to right.
-/
import Metta.Proofs.Equality

namespace Metta

set_option autoImplicit false

/-! ## Names -/

namespace Bindings

variable {b b' b'' : Bindings} {name : String} {value : Atom}

theorem mem_names : name ∈ b.names ↔ ∃ value, b.get? name = some value := by
  constructor
  · intro member
    cases found : b.get? name with
    | some value => exact ⟨value, rfl⟩
    | none => exact absurd member (notMem_names_of_get?_eq_none found)
  · rintro ⟨value, found⟩
    exact List.mem_map_of_mem (mem_entries_of_get? found)

/-- Every name bound by the first is bound to the same atom by the second. -/
def Extends (b b' : Bindings) : Prop :=
  ∀ name value, b.get? name = some value → b'.get? name = some value

theorem Extends.refl (b : Bindings) : b.Extends b := fun _ _ => id

theorem Extends.trans (first : b.Extends b') (second : b'.Extends b'') : b.Extends b'' :=
  fun name value found => second name value (first name value found)

theorem get?_append (entries : b'.entries = b.entries ++ [(name, value)]) (x : String) :
    b'.get? x = (b.get? x).or (if x = name then some value else none) := by
  simp only [get?, entries, List.lookup_append, List.lookup_cons, List.lookup_nil]
  by_cases h : x = name
  · simp [h]
  · have : (x == name) = false := by simpa using h
    simp [h, this]

theorem extends_bind (bound : b.bind name value = some b') : b.Extends b' := by
  rcases bind_eq_some bound with ⟨_, -, -, rfl⟩ | ⟨-, entries⟩
  · exact .refl _
  · intro x old found
    rw [get?_append entries, found]
    rfl

/-- Afterwards the name is bound, to an atom that equals itself if the given one does. -/
theorem get?_bind (bound : b.bind name value = some b') :
    ∃ kept, b'.get? name = some kept ∧ (Atom.Same value value → Atom.Same kept value) := by
  rcases bind_eq_some bound with ⟨old, found, equal, rfl⟩ | ⟨free, entries⟩
  · exact ⟨old, found, fun _ => equal⟩
  · exact ⟨value, by rw [get?_append entries, free]; simp, id⟩

theorem mem_names_bind (bound : b.bind name value = some b') {x : String} :
    x ∈ b'.names ↔ x ∈ b.names ∨ x = name := by
  rcases bind_eq_some bound with ⟨old, found, -, rfl⟩ | ⟨-, entries⟩
  · have here : name ∈ b'.names := mem_names.mpr ⟨old, found⟩
    exact ⟨.inl, fun known => known.elim id fun same => same ▸ here⟩
  · simp [names, entries]

end Bindings

namespace Atom

open Bindings (Extends)

/-! ## Soundness -/

/-- What a match of the pattern with the data makes of bindings. -/
structure Matched (b : Bindings) (data pattern : Atom) (s : Bindings) : Prop where
  kept : b.Extends s
  names : ∀ name, name ∈ s.names ↔ name ∈ b.names ∨ name ∈ pattern.varNames
  equal : data.NaNFree → ∀ s', s.Extends s' → Same (s'.apply pattern) data

variable {b s : Bindings} {data pattern : Atom} {cs ps : List Atom}

theorem matchAllInto_nil : matchAllInto b cs [] = some s ↔ cs = [] ∧ s = b := by
  cases cs <;> simp [matchAllInto, eq_comm]

theorem matchAllInto_cons {p : Atom} : matchAllInto b cs (p :: ps) = some s ↔
    ∃ c cs' b', cs = c :: cs' ∧ matchInto b c p = some b' ∧ matchAllInto b' cs' ps = some s := by
  cases cs with
  | nil => simp [matchAllInto]
  | cons c cs => simp [matchAllInto, Option.bind_eq_some_iff]

/-- Children that are matched one after the other, the patterns being those of an expression. -/
theorem matched_expr
    (each : ∀ p ∈ ps, ∀ b c s, matchInto b c p = some s → Matched b c p s)
    (matched : matchAllInto b cs ps = some s) : Matched b (.expr cs) (.expr ps) s := by
  induction ps generalizing b cs with
  | nil =>
      obtain ⟨rfl, rfl⟩ := matchAllInto_nil.mp matched
      exact {
        kept := .refl _
        names := fun _ => by simp [mem_varNames_expr]
        equal := fun _ _ _ => same_expr.mpr .nil }
  | cons p ps ih =>
      obtain ⟨c, cs', b', rfl, here, there⟩ := matchAllInto_cons.mp matched
      have first := each p (.head _) b c b' here
      have others := ih (fun q member => each q (.tail _ member)) there
      refine ⟨first.kept.trans others.kept, fun name => ?_, fun nanFree s' more => ?_⟩
      · rw [others.names, first.names, mem_varNames_expr, mem_varNames_expr, or_assoc]
        simp
      · have parts := (leafwise_nanFree _).mp nanFree
        have rest : NaNFree (.expr cs') :=
          (leafwise_nanFree _).mpr fun d member => parts d (.tail _ member)
        have head := first.equal (parts c (.head _)) s' (others.kept.trans more)
        have tail := others.equal rest s' more
        simp only [Bindings.apply, substitute, substituteAll_eq_map] at head tail ⊢
        exact same_expr.mpr (.cons head (same_expr.mp tail))

/-- **A match is sound**, and stays so under all further bindings. -/
theorem matched_of_matchInto (matched : matchInto b data pattern = some s) :
    Matched b data pattern s := by
  induction pattern generalizing b data s with
  | var name constraint =>
      rw [matchInto_var] at matched
      refine ⟨Bindings.extends_bind matched, fun x => ?_, fun nanFree s' more => ?_⟩
      · rw [Bindings.mem_names_bind matched, varNames_var, List.mem_singleton]
      · obtain ⟨kept, found, equal⟩ := Bindings.get?_bind matched
        rw [Bindings.apply, substitute, more name kept found]
        exact equal (same_self_iff.mpr nanFree)
  | expr ps ih =>
      rw [matchInto_expr] at matched
      split at matched
      · exact matched_expr (fun p member _ _ _ => ih p member) matched
      · cases matched
  | _ =>
      rw [matchInto_leaf _ _ (by simp [kind]) (by simp [kind])] at matched
      split at matched
      · rename_i equal
        cases matched
        refine ⟨.refl _, fun x => ?_, fun _ _ _ => Same.symm equal⟩
        rw [varNames_leaf (by simp [kind]) (by simp [kind])]
        simp
      · cases matched

theorem matchAllInto_ground
    (each : ∀ p ∈ ps, ∀ b c, matchInto b c p = if c.same p then some b else none) :
    matchAllInto b cs ps = if sameAll cs ps then some b else none := by
  induction ps generalizing b cs with
  | nil => cases cs <;> rfl
  | cons p ps ih =>
      obtain ⟨here, there⟩ := List.forall_mem_cons.mp each
      cases cs with
      | nil => rfl
      | cons c cs =>
          rw [matchAllInto, sameAll, here]
          cases c.same p with
          | false => rfl
          | true => exact ih there

/-- Where nothing can be bound, to match is to compare. -/
theorem matchInto_ground (ground : pattern.Ground) :
    matchInto b data pattern = if data.same pattern then some b else none := by
  induction pattern generalizing b data with
  | var name constraint => cases ground
  | expr ps ih =>
      rw [leafwise_ground] at ground
      rw [matchInto_expr]
      cases data with
      | expr cs => exact matchAllInto_ground fun p member b c => ih p member (ground p member)
      | _ => rfl
  | _ => exact matchInto_leaf _ _ (by simp [kind]) (by simp [kind])

/-! ## Completeness -/

/-- Of the names in question those that are bound are bound to what the assignment gives them, up
to equality. -/
def AgreesOn (inQuestion : String → Prop) (t : String → Option Atom) (b : Bindings) : Prop :=
  ∀ name, inQuestion name → ∀ value, b.get? name = some value →
    ∃ assigned, t name = some assigned ∧ Same value assigned

variable {inQuestion : String → Prop} {t : String → Option Atom}

/-- Binding a name to what is equal to its assigned atom succeeds and keeps agreement. -/
theorem AgreesOn.bind {name : String} {assigned : Atom} (agrees : AgreesOn inQuestion t b)
    (named : inQuestion name) (given : t name = some assigned) (equal : Same assigned data) :
    ∃ s, b.bind name data = some s ∧ AgreesOn inQuestion t s := by
  cases found : b.get? name with
  | some old =>
      obtain ⟨assigned', given', same⟩ := agrees name named old found
      rw [given, Option.some.injEq] at given'
      subst given'
      have equals : old.same data = true := same.trans equal
      exact ⟨b, by rw [Bindings.bind_of_get?_some found, if_pos equals], agrees⟩
  | none =>
      obtain ⟨s, binds, entries⟩ := Bindings.bind_of_get?_none found data
      refine ⟨s, binds, fun x here value bound => ?_⟩
      rw [Bindings.get?_append entries] at bound
      cases known : b.get? x with
      | some old =>
          rw [known] at bound
          exact agrees x here value (known.trans bound)
      | none =>
          rw [known, Option.none_or] at bound
          split at bound
          · rename_i same
            cases bound
            exact ⟨assigned, same ▸ given, equal.symm⟩
          · cases bound

/-- **A match is complete.**  Where an assignment makes the pattern equal to the data, bindings that
agree with it are extended, and still agree. -/
theorem matchInto_of_assignment (agrees : AgreesOn inQuestion t b)
    (named : ∀ name ∈ pattern.varNames, inQuestion name ∧ (t name).isSome)
    (equal : Same (pattern.substitute t) data) :
    ∃ s, matchInto b data pattern = some s ∧ AgreesOn inQuestion t s := by
  induction pattern generalizing b data with
  | var name constraint =>
      obtain ⟨here, some⟩ := named name (by simp [varNames_var])
      obtain ⟨assigned, given⟩ := Option.isSome_iff_exists.mp some
      rw [substitute, given] at equal
      rw [matchInto_var]
      exact agrees.bind here given equal
  | expr ps ih =>
      rw [substitute, substituteAll_eq_map] at equal
      obtain ⟨cs, rfl⟩ := kind_eq_expression.mp (equal.kind_eq ▸ rfl : data.kind = .expression)
      rw [same_expr, List.forall₂_map_left_iff] at equal
      rw [matchInto_expr]
      simp only [mem_varNames_expr] at named
      -- agreement is what the children hand on from one to the next
      induction equal generalizing b with
      | nil => exact ⟨b, rfl, agrees⟩
      | @cons p c ps cs head tail again =>
          obtain ⟨b', first, agrees'⟩ :=
            ih p (.head _) agrees (fun name inside => named name ⟨p, .head _, inside⟩) head
          have named' : ∀ name, (∃ q ∈ ps, name ∈ q.varNames) →
              inQuestion name ∧ (t name).isSome := by
            rintro name ⟨q, member, inside⟩
            exact named name ⟨q, .tail _ member, inside⟩
          obtain ⟨s, others, agrees''⟩ :=
            again (fun q member => ih q (.tail _ member)) agrees' named'
          exact ⟨s, matchAllInto_cons.mpr ⟨c, cs, b', rfl, first, others⟩, agrees''⟩
  | _ =>
      rw [matchInto_leaf _ _ (by simp [kind]) (by simp [kind])]
      exact ⟨b, if_pos equal.symm, agrees⟩

/-! ## Both together -/

/-- **Matching is sound, complete and exact.**  Bindings returned make the pattern equal to the
data, leave what was bound as it was, and bind beside that the names of the pattern and no others.
They are returned, and equal to the assignment, whenever some assignment to the names of the pattern
makes the pattern equal to the data and agrees with what is bound already. -/
theorem matchInto_exact (b : Bindings) {data : Atom} (nanFree : data.NaNFree) (pattern : Atom) :
    (∀ s, matchInto b data pattern = some s →
      Same (s.apply pattern) data ∧ (∀ name ∈ b.names, s.get? name = b.get? name) ∧
        ∀ name, name ∈ s.names ↔ name ∈ b.names ∨ name ∈ pattern.varNames) ∧
    ∀ t : String → Option Atom, (∀ name ∈ pattern.varNames, (t name).isSome) →
      (∀ name ∈ pattern.varNames, ∀ value, b.get? name = some value →
        ∃ assigned, t name = some assigned ∧ Same value assigned) →
      Same (pattern.substitute t) data →
      ∃ s, matchInto b data pattern = some s ∧ ∀ name ∈ pattern.varNames,
        ∃ value assigned, s.get? name = some value ∧ t name = some assigned ∧
          Same value assigned := by
  constructor
  · intro s found
    have matched := matched_of_matchInto found
    refine ⟨matched.equal nanFree s (.refl s), fun name known => ?_, matched.names⟩
    obtain ⟨value, bound⟩ := Bindings.mem_names.mp known
    rw [matched.kept name value bound, bound]
  · intro t given agrees equal
    have agreesOn : AgreesOn (· ∈ pattern.varNames) t b := agrees
    obtain ⟨s, found, agrees'⟩ :=
      matchInto_of_assignment agreesOn (fun name inside => ⟨inside, given name inside⟩) equal
    refine ⟨s, found, fun name inside => ?_⟩
    have known := ((matched_of_matchInto found).names name).mpr (.inr inside)
    obtain ⟨value, bound⟩ := Bindings.mem_names.mp known
    obtain ⟨assigned, assigns, same⟩ := agrees' name inside value bound
    exact ⟨value, assigned, bound, assigns, same⟩

/-- The data has a variable of the pattern's, the pattern repeats one, and the other is bound
beforehand, to a whole number that the data has as a float. -/
theorem matchInto_exact_shared_names :
    let x : Atom := .var "x" none
    let y : Atom := .var "y" none
    let two : Atom := .ofScalar (.int 2)
    let data : Atom := .expr [y, y, .ofScalar (.float 2)]
    let pattern : Atom := .expr [x, x, y]
    let b : Bindings := ⟨[("y", two)], by decide⟩
    data.NaNFree ∧ ∃ s, matchInto b data pattern = some s ∧ Same (s.apply pattern) data ∧
      (∃ value, s.get? "x" = some value ∧ Same value y) ∧ s.get? "y" = some two := by
  intro x y two data pattern b
  have nanFree : data.NaNFree := by decide
  obtain ⟨sound, complete⟩ := matchInto_exact b nanFree pattern
  let t : String → Option Atom := fun name => if name = "x" then some y else some two
  have agrees : ∀ name ∈ pattern.varNames, ∀ value, b.get? name = some value →
      ∃ assigned, t name = some assigned ∧ Same value assigned := by
    intro name _ value bound
    by_cases named : name = "y"
    · subst named
      cases bound
      exact ⟨two, rfl, by decide⟩
    · have free : b.get? name = none := by
        simp [b, Bindings.get?, List.lookup_cons, beq_eq_false_iff_ne.mpr named]
      rw [free] at bound
      cases bound
  obtain ⟨s, found, assigned⟩ := complete t (by decide) agrees (by decide)
  obtain ⟨equal, kept, -⟩ := sound s found
  obtain ⟨value, _, bound, ⟨⟩, same⟩ := assigned "x" (by decide)
  exact ⟨nanFree, s, found, equal, ⟨value, bound, same⟩, kept "y" (by decide)⟩

end Atom

end Metta
