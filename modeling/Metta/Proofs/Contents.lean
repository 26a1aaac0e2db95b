/-
# Metta.Proofs.Contents -- what a space holds after a history

Atoms are added to a space, removed, and all cleared away, in some order
(`Space.replay`).  What the space holds in the end can be told from the history alone,
without following the space through it.

An atom equal to `a` was added for good at some time (`Space.Adds`) if nothing equal to
it has been taken away since.  The space contains `a` if there is such a time; it holds
what was added at the first such time (`Space.FirstAdds`), and its atoms stand in the
order of these times (`Space.replay_contents`).

The proof is by induction on the history, the last event coming last: an event that takes
atoms away drops their times, and an addition puts the present time at the end unless
there is an earlier one (`Space.Recounts`).
-/
import Metta.Proofs.Equality
import Metta.Proofs.Worlds
import Mathlib.Data.List.Induction
import Mathlib.Data.Nat.Find

namespace Metta.Space

open Atom (Same NaNFree)

set_option autoImplicit false

/-! ## Histories -/

/-- What is done to the atoms of a space. -/
inductive Event where
  | add (a : Atom)
  | remove (a : Atom)
  | clear

namespace Event

def perform : Event → Space → Space
  | add a, s => (s.add a).2
  | remove a, s => (s.remove a).2
  | clear, s => s.clear

/-- The atom that is added or removed. -/
def atoms : Event → List Atom
  | add a | remove a => [a]
  | clear => []

/-- Whatever equals the atom is taken away. -/
def TakesAway (a : Atom) : Event → Prop
  | add _ => False
  | remove b => Same b a
  | clear => True

end Event

/-- The space after a history, the earliest event first. -/
def replay (h : List Event) (s : Space) : Space := h.foldl (fun s e => e.perform s) s

variable {h : List Event} {e : Event} {s : Space} {a b c : Atom} {time : Nat}

theorem replay_append_single : replay (h ++ [e]) s = e.perform (replay h s) := by
  simp [replay]

/-- At the time `b`, which equals `a`, was added, and nothing equal to `a` has been taken away
since. -/
structure Adds (h : List Event) (a : Atom) (time : Nat) (b : Atom) : Prop where
  added : h[time]? = some (.add b)
  equal : Same b a
  since : ∀ later e, time < later → h[later]? = some e → ¬ e.TakesAway a

/-- What was added for good first of all that equals `a`. -/
def FirstAdds (h : List Event) (a : Atom) (time : Nat) (b : Atom) : Prop :=
  Adds h a time b ∧ ∀ earlier c, earlier < time → ¬ Adds h a earlier c

theorem Adds.lt_length (adds : Adds h a time b) : time < h.length :=
  (List.getElem?_eq_some_iff.mp adds.added).1

theorem takesAway_congr (equal : Same a b) : e.TakesAway a ↔ e.TakesAway b := by
  cases e with
  | remove c => exact ⟨fun same => same.trans equal, fun same => same.trans equal.symm⟩
  | add | clear => exact Iff.rfl

/-- Which of several equal atoms is asked for does not matter. -/
theorem adds_congr (equal : Same a b) : Adds h a time c ↔ Adds h b time c := by
  constructor
  · rintro ⟨added, same, since⟩
    refine ⟨added, same.trans equal, fun later e after there => ?_⟩
    rw [← takesAway_congr equal]
    exact since later e after there
  · rintro ⟨added, same, since⟩
    refine ⟨added, same.trans equal.symm, fun later e after there => ?_⟩
    rw [takesAway_congr equal]
    exact since later e after there

theorem firstAdds_congr (equal : Same a b) : FirstAdds h a time c ↔ FirstAdds h b time c := by
  simp only [FirstAdds, adds_congr equal]

/-- If there is a time at which an atom was added for good, there is a first one. -/
theorem Adds.exists_first (adds : Adds h a time b) : ∃ first c, FirstAdds h a first c := by
  classical
  have some : ∃ first c, Adds h a first c := ⟨time, b, adds⟩
  obtain ⟨c, first⟩ := Nat.find_spec some
  exact ⟨_, c, first, fun earlier d before there => Nat.find_min some before ⟨d, there⟩⟩

/-! ## One more event -/

theorem not_adds_nil : ¬ Adds [] a time b := fun adds => by cases adds.added

theorem adds_append_single : Adds (h ++ [e]) a time b ↔
    Adds h a time b ∧ ¬ e.TakesAway a ∨ time = h.length ∧ e = .add b ∧ Same b a := by
  constructor
  · rintro ⟨added, equal, since⟩
    by_cases before : time < h.length
    · rw [List.getElem?_append_left before] at added
      refine .inl ⟨⟨added, equal, fun later d after there => ?_⟩, ?_⟩
      · have inside := (List.getElem?_eq_some_iff.mp there).1
        exact since later d after ((List.getElem?_append_left inside).trans there)
      · exact since h.length e before List.getElem?_concat_length
    · have here : time = h.length := by
        have := (List.getElem?_eq_some_iff.mp added).1
        rw [List.length_append, List.length_singleton] at this
        omega
      rw [here, List.getElem?_concat_length, Option.some.injEq] at added
      exact .inr ⟨here, added, equal⟩
  · rintro (⟨adds, stays⟩ | ⟨rfl, rfl, equal⟩)
    · have before := adds.lt_length
      refine ⟨(List.getElem?_append_left before).trans adds.added, adds.equal, ?_⟩
      intro later d after there
      by_cases inside : later < h.length
      · rw [List.getElem?_append_left inside] at there
        exact adds.since later d after there
      · rw [List.getElem?_append_right (Nat.le_of_not_lt inside), List.getElem?_singleton] at there
        split at there <;> cases there
        exact stays
    · refine ⟨List.getElem?_concat_length, equal, fun later d after there => ?_⟩
      rw [List.getElem?_eq_none (by rw [List.length_append]; exact after)] at there
      cases there

/-- An event that adds nothing. -/
theorem firstAdds_append_taking (taking : ∀ c, e ≠ .add c) :
    FirstAdds (h ++ [e]) a time b ↔ FirstAdds h a time b ∧ ¬ e.TakesAway a := by
  simp only [FirstAdds, adds_append_single, taking, false_and, and_false, or_false]
  constructor
  · rintro ⟨⟨adds, stays⟩, first⟩
    exact ⟨⟨adds, fun earlier c before there => first earlier c before ⟨there, stays⟩⟩, stays⟩
  · rintro ⟨⟨adds, first⟩, stays⟩
    exact ⟨⟨adds, stays⟩, fun earlier c before there => first earlier c before there.1⟩

/-- An addition counts at the present time unless there is an earlier one that counts. -/
theorem firstAdds_append_add : FirstAdds (h ++ [.add c]) a time b ↔
    FirstAdds h a time b ∨
      time = h.length ∧ b = c ∧ Same b a ∧ ∀ earlier d, ¬ Adds h a earlier d := by
  have keeps : ∀ {a}, ¬ (Event.add c).TakesAway a := id
  simp only [FirstAdds, adds_append_single, keeps, not_false_eq_true, and_true, Event.add.injEq]
  constructor
  · rintro ⟨adds | ⟨rfl, rfl, equal⟩, first⟩
    · exact .inl ⟨adds, fun earlier d before there => first earlier d before (.inl there)⟩
    · exact .inr ⟨rfl, rfl, equal, fun earlier d there =>
        first earlier d there.lt_length (.inl there)⟩
  · rintro (⟨adds, first⟩ | ⟨rfl, rfl, equal, none⟩)
    · refine ⟨.inl adds, ?_⟩
      rintro earlier d before (there | ⟨rfl, -, -⟩)
      · exact first earlier d before there
      · exact absurd adds.lt_length (Nat.lt_asymm before)
    · refine ⟨.inr ⟨rfl, rfl, equal⟩, ?_⟩
      rintro earlier d before (there | ⟨rfl, -, -⟩)
      · exact none earlier d there
      · exact absurd before (Nat.lt_irrefl _)

/-! ## Times and atoms -/

/-- The times at which the history adds an atom for good and first, in their order, each with that
atom. -/
structure Recounts (h : List Event) (stamped : List (Nat × Atom)) : Prop where
  ordered : stamped.Pairwise fun p q => p.1 < q.1
  exact : ∀ time a, (time, a) ∈ stamped ↔ FirstAdds h a time a

variable {stamped : List (Nat × Atom)}

/-- No two of the atoms are equal: the later one would not be the first. -/
theorem Recounts.distinct (recounts : Recounts h stamped) :
    (stamped.map Prod.snd).Pairwise fun a b => ¬ Same a b := by
  rw [List.pairwise_map]
  refine recounts.ordered.imp_of_mem ?_
  rintro ⟨i, a⟩ ⟨j, b⟩ here there before equal
  have first := (recounts.exact i a).mp here
  have later := (recounts.exact j b).mp there
  exact later.2 i a before ((adds_congr equal).mp first.1)

theorem Recounts.any_iff (recounts : Recounts h stamped) :
    (stamped.map Prod.snd).any a.same = true ↔ ∃ time b, Adds h a time b := by
  rw [List.any_map, List.any_eq_true]
  constructor
  · rintro ⟨⟨time, b⟩, member, equal⟩
    have adds := ((recounts.exact time b).mp member).1
    exact ⟨time, b, (adds_congr (Same.symm equal)).mp adds⟩
  · rintro ⟨time, b, adds⟩
    obtain ⟨first, c, firsts⟩ := adds.exists_first
    have equal : Same a c := firsts.1.equal.symm
    exact ⟨(first, c), (recounts.exact first c).mpr ((firstAdds_congr equal).mp firsts), equal⟩

/-! ## What the events do -/

theorem add_atoms : (s.add a).2.atoms = if s.contains a then s.atoms else s.atoms ++ [a] := by
  unfold add
  split <;> simp [*]

/-- Where no two atoms are equal there is only one to take away. -/
theorem eraseP_same {as : List Atom} (distinct : as.Pairwise fun b c => ¬ Same b c) :
    as.eraseP a.same = as.filter fun b => !a.same b := by
  induction distinct with
  | nil => rfl
  | @cons b bs others _ ih =>
      rw [List.eraseP_cons, List.filter_cons]
      cases equal : a.same b with
      | false => simp [ih]
      | true =>
          have stay : ∀ c ∈ bs, (!a.same c) = true := by
            intro c member
            rw [Bool.not_eq_true', Bool.eq_false_iff]
            exact fun also => others c member (Same.trans (Same.symm equal) also)
          simp [List.filter_eq_self.mpr stay]

theorem remove_atoms : (s.remove a).2.atoms = s.atoms.eraseP a.same := by
  unfold remove
  split
  · rfl
  · rename_i absent
    refine (List.eraseP_of_forall_not fun b member equal => ?_).symm
    exact absent (List.any_eq_true.mpr ⟨b, member, equal⟩)

/-- One more event is recounted too. -/
theorem Recounts.perform (recounts : Recounts h stamped) (atoms : stamped.map Prod.snd = s.atoms)
    (free : ∀ a ∈ e.atoms, a.NaNFree) :
    ∃ stamped', Recounts (h ++ [e]) stamped' ∧ stamped'.map Prod.snd = (e.perform s).atoms := by
  cases e with
  | add c =>
      have contains : s.contains c = true ↔ ∃ time b, Adds h c time b := by
        rw [contains, ← atoms]
        exact recounts.any_iff
      rw [Event.perform, add_atoms]
      cases known : s.contains c with
      | true =>
          refine ⟨stamped, ⟨recounts.ordered, fun time a => ?_⟩, atoms⟩
          rw [recounts.exact, firstAdds_append_add]
          refine (or_iff_left ?_).symm
          rintro ⟨-, rfl, -, none⟩
          obtain ⟨earlier, b, adds⟩ := contains.mp known
          exact none earlier b adds
      | false =>
          have none : ∀ earlier d, ¬ Adds h c earlier d := by
            intro earlier d adds
            rw [contains.mpr ⟨earlier, d, adds⟩] at known
            cases known
          refine ⟨stamped ++ [(h.length, c)], ⟨?_, fun time a => ?_⟩, by simp [atoms]⟩
          · refine List.pairwise_append.mpr ⟨recounts.ordered, List.pairwise_singleton _ _, ?_⟩
            rintro ⟨time, a⟩ member q last
            rw [List.mem_singleton.mp last]
            exact ((recounts.exact time a).mp member).1.lt_length
          · rw [List.mem_append, recounts.exact, firstAdds_append_add, List.mem_singleton,
              Prod.mk.injEq]
            refine or_congr_right ⟨?_, ?_⟩
            · rintro ⟨rfl, rfl⟩
              exact ⟨rfl, rfl, Atom.same_self_iff.mpr (free a (.head _)), none⟩
            · rintro ⟨rfl, rfl, -, -⟩
              exact ⟨rfl, rfl⟩
  | remove c =>
      refine ⟨stamped.filter fun p => !c.same p.2,
        ⟨recounts.ordered.filter _, fun time a => ?_⟩, ?_⟩
      · rw [firstAdds_append_taking (by rintro _ ⟨⟩), List.mem_filter, recounts.exact,
          Bool.not_eq_true', Bool.eq_false_iff]
        exact Iff.rfl
      · rw [Event.perform, remove_atoms, ← atoms, eraseP_same recounts.distinct, List.filter_map]
        rfl
  | clear =>
      refine ⟨[], ⟨.nil, fun time a => ?_⟩, rfl⟩
      rw [firstAdds_append_taking (by rintro _ ⟨⟩)]
      simp [Event.TakesAway]

/-- A space that starts empty is recounted by its history. -/
theorem exists_recounts (fresh : s.atoms = []) (h : List Event)
    (free : ∀ e ∈ h, ∀ a ∈ e.atoms, a.NaNFree) :
    ∃ stamped, Recounts h stamped ∧ stamped.map Prod.snd = (replay h s).atoms := by
  induction h using List.reverseRecOn with
  | nil => exact ⟨[], ⟨.nil, fun time a => by simp [FirstAdds, not_adds_nil]⟩, fresh.symm⟩
  | append_singleton h e ih =>
      obtain ⟨earlier, last⟩ := List.forall_mem_append.mp free
      obtain ⟨stamped, recounts, atoms⟩ := ih earlier
      rw [replay_append_single]
      exact recounts.perform atoms (last e (.head _))

/-! ## Single events -/

theorem add_changes : (s.add a).1 = true ↔ (s.add a).2.atoms ≠ s.atoms := by
  rw [add_atoms]
  unfold add
  split <;> simp [*]

theorem add_failed (failed : (s.add a).1 = false) : (s.add a).2 = s := by
  unfold add at failed ⊢
  split at failed
  · rw [if_pos ‹_›]
  · cases failed

theorem remove_changes : (s.remove a).1 = true ↔ (s.remove a).2.atoms ≠ s.atoms := by
  unfold remove
  split
  · rename_i present
    obtain ⟨b, member, equal⟩ := List.any_eq_true.mp present
    have shorter := List.length_eraseP_of_mem member equal
    have longer := List.length_pos_of_mem member
    refine iff_of_true rfl fun unchanged => ?_
    have unchanged : s.atoms.eraseP a.same = s.atoms := unchanged
    rw [unchanged] at shorter
    omega
  · simp

theorem remove_failed (failed : (s.remove a).1 = false) : (s.remove a).2 = s := by
  unfold remove at failed ⊢
  split at failed
  · cases failed
  · rw [if_neg ‹_›]

/-- Removing an atom that has just come in, or one that equals it, undoes that. -/
theorem remove_add (equal : Same a b) (added : (s.add a).1 = true) :
    (s.add a).2.remove b = (true, s) := by
  have absent : ¬ s.contains a = true := by
    intro present
    simp [add, present] at added
  have none : ∀ c ∈ s.atoms, ¬ b.same c = true := by
    intro c member also
    exact absent (List.any_eq_true.mpr ⟨c, member, Same.trans equal also⟩)
  have last : b.same a = true := Same.symm equal
  have grown : (s.add a).2 = { s with atoms := s.atoms ++ [a] } := by
    unfold add
    rw [if_neg absent]
  have present : Space.contains { s with atoms := s.atoms ++ [a] } b = true :=
    List.any_eq_true.mpr ⟨a, by simp, last⟩
  rw [grown, remove, if_pos present]
  simp [List.eraseP_append_right _ none, last]

/-! ## Main result -/

/-- **A space holds what its history says.**  A space that was empty, after any history of atoms
without a NaN, holds no two equal atoms.  It contains an atom exactly if, at some time, an equal one
was added and no equal one has been taken away since.  The atom that stands for it is the one added
at the first such time, and all atoms stand in the order of these times.  Adding and removing say
whether they changed the collection, and when they did not they changed nothing; removing what has
just been added brings the space back. -/
theorem replay_contents (fresh : s.atoms = []) (h : List Event)
    (free : ∀ e ∈ h, ∀ a ∈ e.atoms, a.NaNFree) :
    (replay h s).atoms.Pairwise (fun a b => ¬ Same a b) ∧
    (∀ a, (replay h s).contains a = true ↔ ∃ time b, Adds h a time b) ∧
    (∀ a, ∀ b ∈ (replay h s).atoms, Same a b → ∃ time, FirstAdds h a time b) ∧
    (∃ stamped : List (Nat × Atom), stamped.map Prod.snd = (replay h s).atoms ∧
      stamped.Pairwise (fun p q => p.1 < q.1) ∧
      ∀ time a, (time, a) ∈ stamped ↔ FirstAdds h a time a) ∧
    ∀ a, let s' := replay h s
      ((s'.add a).1 = true ↔ (s'.add a).2.atoms ≠ s'.atoms) ∧
      ((s'.add a).1 = false → (s'.add a).2 = s') ∧
      ((s'.remove a).1 = true ↔ (s'.remove a).2.atoms ≠ s'.atoms) ∧
      ((s'.remove a).1 = false → (s'.remove a).2 = s') ∧
      ∀ b, Same a b → (s'.add a).1 = true → (s'.add a).2.remove b = (true, s') := by
  obtain ⟨stamped, recounts, atoms⟩ := exists_recounts fresh h free
  refine ⟨atoms ▸ recounts.distinct, fun a => ?_, fun a b stored equal => ?_,
    ⟨stamped, atoms, recounts.ordered, recounts.exact⟩, fun a => ?_⟩
  · rw [contains, ← atoms]
    exact recounts.any_iff
  · rw [← atoms] at stored
    obtain ⟨⟨time, b⟩, member, rfl⟩ := List.mem_map.mp stored
    exact ⟨time, (firstAdds_congr equal.symm).mp ((recounts.exact time b).mp member)⟩
  · exact ⟨add_changes, add_failed, remove_changes, remove_failed, fun _ => remove_add⟩

/-- `2` comes first and is removed as `2.0`, which then comes in behind the symbol. -/
theorem replay_contents_again :
    let two : Atom := .ofScalar (.int 2)
    let two' : Atom := .ofScalar (.float 2)
    let x : Atom := .symbol "x"
    let h : List Event := [.add two, .add x, .add two', .remove two', .add two', .add two]
    (replay h (named "home")).atoms = [x, two'] ∧ (∃ time, FirstAdds h two time two') ∧
      ∀ time, FirstAdds h two time two' → time = 4 := by
  intro two two' x h
  have free : ∀ e ∈ h, ∀ a ∈ e.atoms, a.NaNFree := by decide
  obtain ⟨-, -, stands, -, -⟩ := replay_contents (s := named "home") rfl h free
  have stored : (replay h (named "home")).atoms = [x, two'] := rfl
  refine ⟨stored, stands two two' (by simp [stored]) (by decide), ?_⟩
  rintro time ⟨⟨added, -, since⟩, -⟩
  have removed : ¬ time < 3 := fun before =>
    since 3 _ before rfl (show Same two' two by decide)
  have inside := (List.getElem?_eq_some_iff.mp added).1
  simp only [h, List.length_cons, List.length_nil] at inside
  obtain rfl | rfl | rfl : time = 3 ∨ time = 4 ∨ time = 5 := by omega
  · cases added
  · rfl
  · simp [h, two, two', Atom.ofScalar, Literal.ofScalar] at added

end Metta.Space
