/-
# Metta.Proofs.Merging -- bindings that are merged

Bindings can be merged exactly if they bind no name to unequal atoms
(`Bindings.Compatible`).  Then the entries of the first stay as they are, and those of the
second whose names are new follow in their order (`Bindings.merge_eq_some_iff`).  So
merging is associative, the order of the entries included (`Bindings.merge_assoc`).  A list
of bindings can be merged exactly if any two of its members can
(`Bindings.exists_mergeAll_iff`), and every name is bound to the atom of the first member
that binds it; hence the order in which they are merged shows in the order of the names
and in nothing else (`Bindings.mergeAll_perm`).  For two, that is the law of commutativity;
together these laws make merging a partial semilattice (`Bindings.merge_semilattice`).

A match hands its bindings on from child to child.  That comes to the same as matching
every child on its own and merging the results (`Atom.matchInto_merges`).
-/
import Mathlib.Data.List.Pairwise
import Mathlib.Data.List.Perm.Subperm
import Metta.Proofs.Matching

namespace Metta

set_option autoImplicit false

namespace Bindings

open Atom (Same NaNFree)

variable {b s t m m' : Bindings} {name : String} {value : Atom} {ss ss' : List Bindings}

theorem eq_of_entries (entries : b.entries = s.entries) : b = s := by
  cases b
  cases s
  cases entries
  rfl

theorem has_eq_false : b.has name = false ↔ b.get? name = none := by
  rw [has, Option.isSome_eq_false_iff, Option.isNone_iff_eq_none]

/-! ## Merging two -/

/-- A name that both bind is bound to equal atoms. -/
def Compatible (b s : Bindings) : Prop :=
  ∀ name value value', b.get? name = some value → s.get? name = some value' → Same value value'

theorem Compatible.symm (compatible : b.Compatible s) : s.Compatible b := by
  intro name value value' here there
  exact (compatible name value' value there here).symm

instance : Std.Symm Compatible := ⟨fun _ _ => Compatible.symm⟩

/-- Entries that are bound one after the other, no two of them with the same name. -/
theorem foldlM_bind_eq_some_iff {entries : List (String × Atom)}
    (nodup : (entries.map Prod.fst).Nodup) :
    entries.foldlM (fun merged e => merged.bind e.1 e.2) b = some m ↔
      (∀ e ∈ entries, ∀ value, b.get? e.1 = some value → Same value e.2) ∧
        m.entries = b.entries ++ entries.filter fun e => !b.has e.1 := by
  induction entries generalizing b with
  | nil =>
      simp only [List.foldlM_nil, Option.pure_def, Option.some.injEq, List.not_mem_nil,
        false_implies, implies_true, true_and, List.filter_nil, List.append_nil]
      constructor
      · rintro rfl
        rfl
      · intro entries
        exact (eq_of_entries entries).symm
  | cons e entries ih =>
      obtain ⟨name, value⟩ := e
      obtain ⟨fresh, nodup⟩ : name ∉ entries.map Prod.fst ∧ _ := List.nodup_cons.mp nodup
      rw [List.foldlM_cons, List.forall_mem_cons, List.filter_cons]
      cases found : b.get? name with
      | some old =>
          have bound : b.has name = true := by simp [has, found]
          rw [bind_of_get?_some found]
          by_cases equal : old.same value = true
          · simp [equal, Same, bound, ih nodup]
          · simp [equal, Same]
      | none =>
          obtain ⟨b', binds, entries'⟩ := bind_of_get?_none found value
          -- the names to come are bound as they were
          have others : ∀ e ∈ entries, b'.get? e.1 = b.get? e.1 := by
            intro e member
            have different : e.1 ≠ name := by
              intro same
              exact fresh (List.mem_map.mpr ⟨e, member, same⟩)
            rw [get?_append entries', if_neg different, Option.or_none]
          have free : b.has name = false := has_eq_false.mpr found
          have kept :
              (entries.filter fun e => !b'.has e.1) = entries.filter fun e => !b.has e.1 := by
            refine List.filter_congr ?_
            intro e member
            rw [has, has, others e member]
          rw [binds]
          simp only [Option.bind_eq_bind, Option.bind_some, ih nodup, kept, entries', free,
            Bool.not_false, if_true, List.append_assoc, List.singleton_append, reduceCtorEq,
            false_implies, implies_true, true_and]
          refine and_congr_left ?_
          intro _
          refine forall₂_congr ?_
          intro e member
          rw [others e member]

/-- **What a merge makes, and when it does.**  The entries of the second whose names are new follow
those of the first. -/
theorem merge_eq_some_iff : b.merge s = some m ↔
    b.Compatible s ∧ m.entries = b.entries ++ s.entries.filter fun e => !b.has e.1 := by
  rw [merge, foldlM_bind_eq_some_iff s.nodup]
  refine and_congr_left ?_
  intro _
  constructor
  · intro agree name value value' here there
    exact agree (name, value') (mem_entries_of_get? there) value here
  · rintro compatible ⟨name, value'⟩ member value here
    exact compatible name value value' here (get?_of_mem_entries member)

theorem exists_merge_iff : (∃ m, b.merge s = some m) ↔ b.Compatible s := by
  constructor
  · rintro ⟨m, merged⟩
    exact (merge_eq_some_iff.mp merged).1
  · intro compatible
    let entries := b.entries ++ s.entries.filter fun e => !b.has e.1
    have nodup : (entries.map Prod.fst).Nodup := by
      rw [List.map_append, List.nodup_append]
      refine ⟨b.nodup, s.nodup.sublist (List.filter_sublist.map _), ?_⟩
      intro name here other there same
      obtain ⟨e, member, rfl⟩ := List.mem_map.mp there
      obtain ⟨value, found⟩ := mem_names.mp here
      have free := (List.mem_filter.mp member).2
      simp [has, ← same, found] at free
    exact ⟨⟨entries, nodup⟩, merge_eq_some_iff.mpr ⟨compatible, rfl⟩⟩

theorem lookup_filter {p : String → Bool} (entries : List (String × Atom)) :
    (entries.filter fun e => p e.1).lookup name =
      if p name then entries.lookup name else none := by
  induction entries with
  | nil => simp
  | cons e entries ih =>
      obtain ⟨x, value⟩ := e
      by_cases here : name = x
      · subst here
        cases kept : p name with
        | true => simp [kept]
        | false => simpa [kept] using ih
      · have other : (name == x) = false := by simpa using here
        rw [List.lookup_cons, other, ← ih, List.filter_cons]
        split
        · rw [List.lookup_cons, other]
        · rfl

theorem get?_merge (merged : b.merge s = some m) (name : String) :
    m.get? name = (b.get? name).or (s.get? name) := by
  obtain ⟨-, entries⟩ := merge_eq_some_iff.mp merged
  rw [get?, entries, List.lookup_append, lookup_filter (p := fun x => !b.has x)]
  cases found : b.get? name with
  | some value =>
      rw [get?] at found
      simp [found]
  | none =>
      have free : b.has name = false := has_eq_false.mpr found
      rw [get?] at found
      simp [free, found, get?]

/-- What agrees with both agrees with the merge, and the other way round. -/
theorem compatible_merge (merged : b.merge s = some m) :
    m.Compatible t ↔ b.Compatible t ∧ s.Compatible t := by
  have compatible := (merge_eq_some_iff.mp merged).1
  constructor
  · intro whole
    have first : b.Compatible t := by
      intro name value value' here there
      refine whole name value value' ?_ there
      rw [get?_merge merged, here, Option.some_or]
    refine ⟨first, ?_⟩
    intro name value value' here there
    cases found : b.get? name with
    | none =>
        refine whole name value value' ?_ there
        rw [get?_merge merged, found, Option.none_or, here]
    | some old =>
        exact (compatible name old value found here).symm.trans (first name old value' found there)
  · rintro ⟨first, second⟩ name value value' here there
    rw [get?_merge merged] at here
    rcases Option.or_eq_some_iff.mp here with found | ⟨-, found⟩
    · exact first name value value' found there
    · exact second name value value' found there

theorem has_merge (merged : b.merge s = some m) (name : String) :
    m.has name = (b.has name || s.has name) := by
  rw [has, get?_merge merged, Option.isSome_or]
  rfl

/-- Merging three is merging any two of them, to the left and to the right alike. -/
def Joins (b s t m : Bindings) : Prop :=
  (b.Compatible s ∧ b.Compatible t ∧ s.Compatible t) ∧
    m.entries = b.entries ++ s.entries.filter (fun e => !b.has e.1) ++
      t.entries.filter fun e => !b.has e.1 && !s.has e.1

theorem merge_left_iff : (b.merge s).bind (·.merge t) = some m ↔ b.Joins s t m := by
  rw [Option.bind_eq_some_iff]
  constructor
  · rintro ⟨n, first, second⟩
    obtain ⟨compatible, entries⟩ := merge_eq_some_iff.mp first
    obtain ⟨both, entries'⟩ := merge_eq_some_iff.mp second
    refine ⟨⟨compatible, (compatible_merge first).mp both⟩, ?_⟩
    simpa only [entries, has_merge first, Bool.not_or] using entries'
  · rintro ⟨⟨compatible, both⟩, entries⟩
    obtain ⟨n, first⟩ := exists_merge_iff.mpr compatible
    refine ⟨n, first, merge_eq_some_iff.mpr ⟨(compatible_merge first).mpr both, ?_⟩⟩
    simpa only [(merge_eq_some_iff.mp first).2, has_merge first, Bool.not_or] using entries

theorem merge_right_iff : (s.merge t).bind b.merge = some m ↔ b.Joins s t m := by
  have split {n : Bindings}
      (entries : n.entries = s.entries ++ t.entries.filter fun e => !s.has e.1) :
      b.entries ++ n.entries.filter (fun e => !b.has e.1) =
        b.entries ++ s.entries.filter (fun e => !b.has e.1) ++
          t.entries.filter fun e => !b.has e.1 && !s.has e.1 := by
    rw [entries, List.filter_append, List.filter_filter, List.append_assoc]
  rw [Option.bind_eq_some_iff]
  constructor
  · rintro ⟨n, inner, outer⟩
    obtain ⟨compatible, entries⟩ := merge_eq_some_iff.mp inner
    obtain ⟨both, entries'⟩ := merge_eq_some_iff.mp outer
    obtain ⟨left, right⟩ := (compatible_merge inner).mp both.symm
    refine ⟨⟨left.symm, right.symm, compatible⟩, ?_⟩
    rw [entries', split entries]
  · rintro ⟨⟨left, right, compatible⟩, entries⟩
    obtain ⟨n, inner⟩ := exists_merge_iff.mpr compatible
    have both := (compatible_merge inner).mpr ⟨left.symm, right.symm⟩
    refine ⟨n, inner, merge_eq_some_iff.mpr ⟨both.symm, ?_⟩⟩
    rw [entries, split (merge_eq_some_iff.mp inner).2]

/-- Merging is associative, and so is the order of the names. -/
theorem merge_assoc (b s t : Bindings) :
    (b.merge s).bind (·.merge t) = (s.merge t).bind b.merge := by
  refine Option.ext ?_
  intro m
  rw [merge_left_iff, merge_right_iff]

/-! ## Merging many -/

/-- The bindings of a list, merged from left to right. -/
def mergeAll (ss : List Bindings) : Option Bindings := ss.foldlM merge empty

/-- To merge several bindings into others is to merge them among each other first. -/
theorem foldlM_merge (b : Bindings) (ss : List Bindings) :
    ss.foldlM merge b = (mergeAll ss).bind b.merge := by
  suffices general : ∀ s : Bindings,
      (b.merge s).bind (ss.foldlM merge) = (ss.foldlM merge s).bind b.merge by
    exact general empty
  induction ss with
  | nil =>
      intro s
      simp
  | cons t ss ih =>
      intro s
      calc (b.merge s).bind (fun m => (m.merge t).bind (ss.foldlM merge))
          = ((b.merge s).bind (·.merge t)).bind (ss.foldlM merge) := (Option.bind_assoc _ _ _).symm
        _ = ((s.merge t).bind b.merge).bind (ss.foldlM merge) := by rw [merge_assoc]
        _ = (s.merge t).bind (fun n => (b.merge n).bind (ss.foldlM merge)) :=
            Option.bind_assoc _ _ _
        _ = (s.merge t).bind (fun n => (ss.foldlM merge n).bind b.merge) := by simp only [ih]
        _ = ((s.merge t).bind (ss.foldlM merge)).bind b.merge := (Option.bind_assoc _ _ _).symm

/-- Merging one more is merging that first: what goes with all the others goes with both. -/
theorem pairwise_merge (merged : b.merge s = some m) :
    (m :: ss).Pairwise Compatible ↔ (b :: s :: ss).Pairwise Compatible := by
  have compatible := (merge_eq_some_iff.mp merged).1
  simp only [List.pairwise_cons, List.forall_mem_cons, compatible_merge merged]
  constructor
  · rintro ⟨both, rest⟩
    exact ⟨⟨compatible, fun t member => (both t member).1⟩, fun t member => (both t member).2, rest⟩
  · rintro ⟨⟨-, first⟩, second, rest⟩
    exact ⟨fun t member => ⟨first t member, second t member⟩, rest⟩

theorem exists_foldlM_merge_iff :
    (∃ m, ss.foldlM merge b = some m) ↔ (b :: ss).Pairwise Compatible := by
  induction ss generalizing b with
  | nil => exact iff_of_true ⟨b, rfl⟩ (List.pairwise_singleton _ _)
  | cons s ss ih =>
      rw [List.foldlM_cons]
      cases merged : b.merge s with
      | some m => exact ih.trans (pairwise_merge merged)
      | none =>
          refine iff_of_false ?_ ?_
          · rintro ⟨m, ⟨⟩⟩
          · intro agree
            have compatible : b.Compatible s := List.rel_of_pairwise_cons agree (.head _)
            obtain ⟨m, joined⟩ := exists_merge_iff.mpr compatible
            rw [merged] at joined
            cases joined

/-- Every name is bound to what the first member that binds it has for it. -/
theorem get?_foldlM_merge (merged : ss.foldlM merge b = some m) (name : String) :
    m.get? name = (b :: ss).findSome? (·.get? name) := by
  induction ss generalizing b with
  | nil =>
      cases merged
      simp
  | cons s ss ih =>
      rw [List.foldlM_cons] at merged
      obtain ⟨b', first, others⟩ := Option.bind_eq_some_iff.mp merged
      rw [ih others]
      simp only [List.findSome?_cons, get?_merge first]
      cases b.get? name <;> rfl

/-- **Bindings can be merged exactly if any two of them can.** -/
theorem exists_mergeAll_iff : (∃ m, mergeAll ss = some m) ↔ ss.Pairwise Compatible := by
  have alone : ∀ s ∈ ss, empty.Compatible s := by
    rintro s - name value value' ⟨⟩
  rw [mergeAll, exists_foldlM_merge_iff, List.pairwise_cons]
  exact and_iff_right alone

theorem get?_mergeAll (merged : mergeAll ss = some m) (name : String) :
    m.get? name = ss.findSome? (·.get? name) :=
  get?_foldlM_merge merged name

/-! ## The order does not matter -/

/-- Bindings are equal if every name is bound to equal atoms by both, or to nothing by both. -/
theorem same_iff : b.same s = true ↔ ∀ name, Option.Rel Same (b.get? name) (s.get? name) := by
  simp only [Bindings.same, Bool.and_eq_true, beq_iff_eq, List.all_eq_true]
  constructor
  · rintro ⟨sizes, each⟩ name
    have known : ∀ x ∈ b.names, x ∈ s.names := by
      intro x member
      obtain ⟨value, found⟩ := mem_names.mp member
      have equal := each (x, value) (mem_entries_of_get? found)
      cases found' : s.get? x with
      | some value' => exact mem_names.mpr ⟨value', found'⟩
      | none => simp [found'] at equal
    -- as many names, so the same ones
    have perm : b.names.Perm s.names := by
      refine (List.subperm_of_subset b.nodup known).perm_of_length_le ?_
      simpa [names, size] using Nat.le_of_eq sizes.symm
    cases found : b.get? name with
    | some value =>
        have equal := each (name, value) (mem_entries_of_get? found)
        cases found' : s.get? name with
        | some value' =>
            rw [found'] at equal
            exact .some equal
        | none => simp [found'] at equal
    | none =>
        cases found' : s.get? name with
        | some value' =>
            have member := perm.mem_iff.mpr (mem_names.mpr ⟨value', found'⟩)
            exact absurd member (notMem_names_of_get?_eq_none found)
        | none => exact .none
  · intro each
    have same : ∀ name, name ∈ b.names ↔ name ∈ s.names := by
      intro name
      rw [mem_names, mem_names]
      have here := each name
      generalize b.get? name = value at here ⊢
      generalize s.get? name = value' at here ⊢
      cases here <;> simp
    have perm : b.names.Perm s.names := (List.perm_ext_iff_of_nodup b.nodup s.nodup).mpr same
    refine ⟨by simpa [names, size] using perm.length_eq, ?_⟩
    rintro ⟨name, value⟩ member
    have here := each name
    rw [get?_of_mem_entries member] at here
    generalize s.get? name = value' at here ⊢
    cases here with
    | some equal => exact equal

/-- Bindings without a NaN agree with themselves. -/
theorem compatible_self (free : b.Within NaNFree) : b.Compatible b := by
  intro name value value' here there
  rw [here, Option.some.injEq] at there
  subst there
  exact Atom.same_self_iff.mpr (free.get? here)

/-- Where all members agree it does not matter which one is asked first. -/
theorem rel_findSome? (members : ∀ s, s ∈ ss ↔ s ∈ ss')
    (agree : ∀ s ∈ ss, ∀ t ∈ ss, s.Compatible t) (name : String) :
    Option.Rel Same (ss.findSome? (·.get? name)) (ss'.findSome? (·.get? name)) := by
  cases found : ss.findSome? (·.get? name) with
  | none =>
      have nothing : ss'.findSome? (·.get? name) = none := by
        rw [List.findSome?_eq_none_iff] at found ⊢
        exact fun s member => found s ((members s).mpr member)
      rw [nothing]
      exact .none
  | some value =>
      obtain ⟨s, here, binds⟩ := List.exists_of_findSome?_eq_some found
      cases found' : ss'.findSome? (·.get? name) with
      | none =>
          have unbound := List.findSome?_eq_none_iff.mp found' s ((members s).mp here)
          rw [binds] at unbound
          cases unbound
      | some value' =>
          obtain ⟨t, there, binds'⟩ := List.exists_of_findSome?_eq_some found'
          exact .some (agree s here t ((members t).mpr there) name value value' binds binds')

/-- **In whatever order bindings without a NaN are merged**, it succeeds alike, and makes equal
bindings. -/
theorem mergeAll_perm (perm : ss.Perm ss') (free : ∀ s ∈ ss, s.Within NaNFree) :
    Option.Rel (fun m m' => m.same m' = true) (mergeAll ss) (mergeAll ss') := by
  have pairwise : ss.Pairwise Compatible ↔ ss'.Pairwise Compatible :=
    perm.pairwise_iff fun compatible => compatible.symm
  cases merged : mergeAll ss with
  | none =>
      cases merged' : mergeAll ss' with
      | none => exact .none
      | some m' =>
          have agree := pairwise.mpr (exists_mergeAll_iff.mp ⟨m', merged'⟩)
          obtain ⟨m, joined⟩ := exists_mergeAll_iff.mpr agree
          rw [merged] at joined
          cases joined
  | some m =>
      have agree := exists_mergeAll_iff.mp ⟨m, merged⟩
      obtain ⟨m', merged'⟩ := exists_mergeAll_iff.mpr (pairwise.mp agree)
      have all : ∀ s ∈ ss, ∀ t ∈ ss, s.Compatible t := by
        intro s here t there
        exact agree.forall_of_forall (fun s member => compatible_self (free s member)) here there
      rw [merged']
      refine .some (same_iff.mpr ?_)
      intro name
      rw [get?_mergeAll merged, get?_mergeAll merged']
      exact rel_findSome? (fun s => perm.mem_iff) all name

/-! ## The laws of merging -/

theorem empty_merge (b : Bindings) : empty.merge b = some b := by
  refine merge_eq_some_iff.mpr ⟨?_, ?_⟩
  · rintro name value value' ⟨⟩
  · exact (List.filter_eq_self.mpr fun _ _ => rfl).symm

/-- Bindings without a NaN that are merged into themselves add nothing. -/
theorem merge_self (free : b.Within NaNFree) : b.merge b = some b := by
  refine merge_eq_some_iff.mpr ⟨compatible_self free, ?_⟩
  have known : ∀ e ∈ b.entries, ¬ (!b.has e.1) = true := by
    rintro ⟨name, value⟩ member
    simp [has, get?_of_mem_entries member]
  rw [List.filter_eq_nil_iff.mpr known, List.append_nil]

/-- Two bindings without a NaN merge in either order, to equal bindings, or in neither. -/
theorem merge_comm (free : b.Within NaNFree) (free' : s.Within NaNFree) :
    Option.Rel (fun m m' => m.same m' = true) (b.merge s) (s.merge b) := by
  have pair (b s : Bindings) : mergeAll [b, s] = b.merge s := by
    rw [mergeAll, List.foldlM_cons, empty_merge]
    exact bind_pure (b.merge s)
  have frees : ∀ t ∈ [b, s], t.Within NaNFree := by
    simp [free, free']
  rw [← pair b s, ← pair s b]
  exact mergeAll_perm (.swap s b []) frees

/-- **Under merging bindings without a NaN are a partial semilattice**, up to equality.  Two can be
merged exactly if every name that both bind has equal values.  In either order they make equal
bindings, or none.  Of three it makes no difference which two are merged first, neither to whether
it succeeds nor to what is made.  Bindings merged with themselves are themselves.  The operands are
values, taken over as they are: the entries of the first, and behind them those of the second whose
names are new. -/
theorem merge_semilattice (b s t : Bindings) (free : b.Within NaNFree) (free' : s.Within NaNFree) :
    ((∃ m, b.merge s = some m) ↔ ∀ name value value',
      b.get? name = some value → s.get? name = some value' → Same value value') ∧
    Option.Rel (fun m m' => m.same m' = true) (b.merge s) (s.merge b) ∧
    (b.merge s).bind (·.merge t) = (s.merge t).bind b.merge ∧
    b.merge b = some b ∧
    ∀ m, b.merge s = some m →
      m.entries = b.entries ++ s.entries.filter fun e => !b.has e.1 := by
  refine ⟨exists_merge_iff, merge_comm free free', merge_assoc b s t, merge_self free, ?_⟩
  intro m merged
  exact (merge_eq_some_iff.mp merged).2

/-- A name bound to `2` and to `2.0`, and a conflict between the first and the third that the second
does not have: the first two can be merged, in either order, but not all three. -/
theorem merge_semilattice_conflict :
    let b : Bindings := ⟨[("x", .ofScalar (.int 2)), ("z", .symbol "a")], by decide⟩
    let s : Bindings := ⟨[("y", .empty), ("x", .ofScalar (.float 2))], by decide⟩
    let t : Bindings := ⟨[("z", .symbol "b")], by decide⟩
    b.Within NaNFree ∧ s.Within NaNFree ∧
      (b.merge s).map entries =
        some [("x", .ofScalar (.int 2)), ("z", .symbol "a"), ("y", .empty)] ∧
      Option.Rel (fun m m' => m.same m' = true) (b.merge s) (s.merge b) ∧
      (s.merge t).isSome = true ∧ (b.merge s).bind (·.merge t) = none ∧
      (s.merge t).bind b.merge = none ∧ b.merge b = some b := by
  intro b s t
  have free : b.Within NaNFree := by decide
  have free' : s.Within NaNFree := by decide
  obtain ⟨-, commutes, associates, idempotent, -⟩ := merge_semilattice b s t free free'
  have conflict : (b.merge s).bind (·.merge t) = none := rfl
  exact ⟨free, free', rfl, commutes, rfl, conflict, associates.symm.trans conflict, idempotent⟩

end Bindings

namespace Atom

variable {b : Bindings} {data pattern : Atom} {cs ps : List Atom}

/-! ## Matching -/

/-- The matches of children with as many patterns, each on its own. -/
def matchChildren : (data patterns : List Atom) → Option (List Bindings)
  | [], [] => some []
  | c :: cs, p :: ps =>
    (c.matchPattern p).bind fun s => (matchChildren cs ps).map fun ss => s :: ss
  | _, _ => none

/-- Children matched one after the other, where for each that comes to matching it on its own and
merging. -/
theorem matchAllInto_eq_foldlM
    (each : ∀ p ∈ ps, ∀ b c, matchInto b c p = (c.matchPattern p).bind b.merge) :
    matchAllInto b cs ps = (matchChildren cs ps).bind (·.foldlM Bindings.merge b) := by
  induction ps generalizing b cs with
  | nil => cases cs <;> rfl
  | cons p ps ih =>
      obtain ⟨first, others⟩ := List.forall_mem_cons.mp each
      cases cs with
      | nil => rfl
      | cons c cs =>
          rw [matchAllInto, matchChildren, first]
          simp only [ih others]
          -- whether the merge or a later match fails first makes no difference
          cases c.matchPattern p with
          | none => rfl
          | some s =>
              cases matchChildren cs ps with
              | none => simp
              | some ss => rfl

/-- **To match into bindings is to match on its own and to merge.** -/
theorem matchInto_eq_merge (b : Bindings) (data pattern : Atom) :
    matchInto b data pattern = (data.matchPattern pattern).bind b.merge := by
  induction pattern generalizing b data with
  | var name constraint =>
      have unbound : Bindings.empty.get? name = none := rfl
      obtain ⟨s, binds, entries⟩ := Bindings.bind_of_get?_none unbound data
      have single : s.entries = [(name, data)] := entries
      rw [matchPattern, matchInto_var, matchInto_var, binds, Option.bind_some, Bindings.merge,
        single, List.foldlM_cons]
      cases b.bind name data <;> rfl
  | expr ps ih =>
      rw [matchPattern, matchInto_expr, matchInto_expr]
      split
      · have each : ∀ p ∈ ps, ∀ b c, matchInto b c p = (c.matchPattern p).bind b.merge :=
          fun p member b c => ih p member b c
        rw [matchAllInto_eq_foldlM each, matchAllInto_eq_foldlM each, Option.bind_assoc]
        exact congrArg _ (funext fun ss => Bindings.foldlM_merge b ss)
      · rfl
  | _ =>
      rw [matchPattern, matchInto_leaf _ _ (by simp [kind]) (by simp [kind]),
        matchInto_leaf _ _ (by simp [kind]) (by simp [kind])]
      split <;> rfl

/-- The matches of children hold nothing but pieces of the children. -/
theorem matchChildren_within {Good : Atom → Prop} (leafwise : Leafwise Good) {ss : List Bindings}
    (goods : ∀ c ∈ cs, Good c) (matched : matchChildren cs ps = some ss) :
    ∀ s ∈ ss, s.Within Good := by
  induction ps generalizing cs ss with
  | nil =>
      cases cs with
      | nil =>
          cases matched
          exact List.forall_mem_nil _
      | cons => cases matched
  | cons p ps ih =>
      cases cs with
      | nil => cases matched
      | cons c cs =>
          obtain ⟨here, there⟩ := List.forall_mem_cons.mp goods
          obtain ⟨s, first, others⟩ := Option.bind_eq_some_iff.mp matched
          obtain ⟨ss, rest, rfl⟩ := Option.map_eq_some_iff.mp others
          exact List.forall_mem_cons.mpr ⟨leafwise.matchPattern here first, ih there rest⟩

/-- **To match is to match the parts and to merge.**  Bindings are extended by a match exactly if
what the match makes on its own can be merged into them, and the result is that merge, with the same
atoms under the same names in the same order.  The match of an expression is the merge of the
matches of its children from left to right.  In any other order they can be merged just as well, and
make equal bindings. -/
theorem matchInto_merges :
    (∀ (b : Bindings) (data pattern : Atom),
      matchInto b data pattern = (data.matchPattern pattern).bind b.merge) ∧
    (∀ cs ps : List Atom,
      (Atom.expr cs).matchPattern (.expr ps) = (matchChildren cs ps).bind Bindings.mergeAll) ∧
    ∀ (cs ps : List Atom) (ss ss' : List Bindings), (Atom.expr cs).NaNFree →
      matchChildren cs ps = some ss → ss.Perm ss' →
      Option.Rel (fun m m' => m.same m' = true) (Bindings.mergeAll ss) (Bindings.mergeAll ss') := by
  refine ⟨matchInto_eq_merge, ?_, ?_⟩
  · intro cs ps
    rw [matchPattern, matchInto]
    exact matchAllInto_eq_foldlM fun p _ b c => matchInto_eq_merge b c p
  · intro cs ps ss ss' free matched perm
    have frees := (leafwise_nanFree cs).mp free
    exact Bindings.mergeAll_perm perm (matchChildren_within leafwise_nanFree frees matched)

/-- `2` and `2.0` for one name, the other name last: merged from the right, that name comes first
and `2.0` is kept. -/
theorem matchInto_merges_reversed :
    let two : Atom := .ofScalar (.int 2)
    let two' : Atom := .ofScalar (.float 2)
    let cs : List Atom := [two, two', .symbol "a"]
    let ps : List Atom := [.var "x" none, .var "x" none, .var "y" none]
    let single (name : String) (a : Atom) : Bindings := Bindings.empty.set name a
    let ss : List Bindings := [single "x" two, single "x" two', single "y" (.symbol "a")]
    (Atom.expr cs).NaNFree ∧ matchChildren cs ps = some ss ∧ ss.Perm ss.reverse ∧
      (Bindings.mergeAll ss).map Bindings.entries = some [("x", two), ("y", .symbol "a")] ∧
      (Bindings.mergeAll ss.reverse).map Bindings.entries =
        some [("y", .symbol "a"), ("x", two')] ∧
      Option.Rel (fun m m' => m.same m' = true) (Bindings.mergeAll ss)
        (Bindings.mergeAll ss.reverse) := by
  intro two two' cs ps single ss
  have free : (Atom.expr cs).NaNFree := by decide
  have matched : matchChildren cs ps = some ss := rfl
  have perm : ss.Perm ss.reverse := (List.reverse_perm ss).symm
  refine ⟨free, matched, perm, rfl, rfl, ?_⟩
  exact matchInto_merges.2.2 cs ps ss ss.reverse free matched perm

end Atom

end Metta
