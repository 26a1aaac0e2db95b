/-
# Metta.Proofs.Equality -- atom equality and what cannot see through it

Atom equality is symmetric and transitive, and it is reflexive exactly on the atoms
without a NaN (`Atom.same_self_iff`): a NaN is the one literal that has no key.

Matching, binding and contraction respect it.  Equal atoms match equal patterns to
bindings that are alike, that is, with the same names in the same order bound to equal
atoms (`Atom.matchInto_alike`), and a rule contracts both to equal atoms or neither
(`Rule.apply_alike`).
-/
import Metta.Proofs.Contraction
import Metta.Proofs.Closure
import Mathlib.Data.List.Forall2

namespace Metta

set_option autoImplicit false

/-! ## Literals -/

namespace Scalar

theorem same_iff {u v : Scalar} :
    u.same v = true ↔ ∃ k, u.key? = some k ∧ v.key? = some k := by
  unfold same
  cases u.key? with
  | none => simp
  | some k => cases v.key? <;> simp [@eq_comm _ k]

theorem same_comm (u v : Scalar) : u.same v = v.same u := by
  rw [Bool.eq_iff_iff, same_iff, same_iff]
  exact exists_congr fun k => and_comm

theorem same_trans {u v w : Scalar} (first : u.same v = true) (second : v.same w = true) :
    u.same w = true := by
  obtain ⟨k, uk, vk⟩ := same_iff.mp first
  obtain ⟨l, vl, wl⟩ := same_iff.mp second
  rw [vk, Option.some.injEq] at vl
  exact same_iff.mpr ⟨k, uk, vl ▸ wl⟩

theorem same_self_iff (u : Scalar) : u.same u = true ↔ u.key?.isSome = true := by
  rw [same_iff, Option.isSome_iff_exists]
  simp

end Scalar

/-! ## Atoms -/

namespace Atom

/-- Equal as atoms. -/
def Same (a b : Atom) : Prop := a.same b = true

instance (a b : Atom) : Decidable (Same a b) := inferInstanceAs (Decidable (a.same b = true))

theorem sameAll_iff {as bs : List Atom} :
    sameAll as bs = true ↔ List.Forall₂ Same as bs := by
  induction as generalizing bs with
  | nil => cases bs <;> simp [sameAll]
  | cons a as ih => cases bs <;> simp [sameAll, Same, ih]

theorem same_expr {as bs : List Atom} : Same (.expr as) (.expr bs) ↔ List.Forall₂ Same as bs := by
  rw [← sameAll_iff]
  exact Iff.rfl

theorem Same.symm {a b : Atom} (equal : Same a b) : Same b a := by
  induction a generalizing b with
  | literal l =>
      cases b with
      | literal k => exact (Scalar.same_comm k.value l.value).trans equal
      | _ => cases equal
  | expr cs ih =>
      cases b with
      | expr ds =>
          rw [same_expr] at equal ⊢
          induction equal with
          | nil => exact .nil
          | cons head tail again =>
              exact .cons (ih _ (.head _) head) (again fun c member => ih c (.tail _ member))
      | _ => cases equal
  | _ => cases b <;> simp_all [Same, same]

theorem same_comm (a b : Atom) : a.same b = b.same a :=
  Bool.eq_iff_iff.mpr ⟨Same.symm, Same.symm⟩

theorem Same.trans {a b c : Atom} (first : Same a b) (second : Same b c) : Same a c := by
  induction b generalizing a c with
  | literal l =>
      cases a with
      | literal k =>
          cases c with
          | literal m => exact Scalar.same_trans first second
          | _ => cases second
      | _ => cases first
  | expr cs ih =>
      cases a with
      | expr as =>
          cases c with
          | expr ds =>
              rw [same_expr] at first second ⊢
              induction first generalizing ds with
              | nil => exact second
              | cons head tail again =>
                  cases second with
                  | cons head' tail' =>
                      exact .cons (ih _ (.head _) head head')
                        (again (fun c member => ih c (.tail _ member)) _ tail')
          | _ => cases second
      | _ => cases first
  | _ => cases a <;> cases c <;> simp_all [Same, same]

theorem Same.congr {a a' b b' : Atom} (left : Same a a') (right : Same b b') :
    a.same b = a'.same b' := by
  rw [Bool.eq_iff_iff]
  exact ⟨fun h => (left.symm.trans h).trans right, fun h => (left.trans h).trans right.symm⟩

/-- What equal atoms share is shared by lists that are equal child by child. -/
theorem forall_mem_of_same {P : Atom → Prop} {cs ds : List Atom} (equal : List.Forall₂ Same cs ds)
    (moves : ∀ c d, Same c d → P c → P d) (all : ∀ c ∈ cs, P c) : ∀ d ∈ ds, P d := by
  induction equal with
  | nil => exact all
  | cons head tail ih =>
      obtain ⟨first, others⟩ := List.forall_mem_cons.mp all
      exact List.forall_mem_cons.mpr ⟨moves _ _ head first, ih others⟩

theorem Same.kind_eq {a b : Atom} (equal : Same a b) : a.kind = b.kind := by
  cases a <;> cases b <;> first | rfl | cases equal

/-- A literal without a value to compare by. -/
def isNaN : Atom → Bool
  | .literal l => l.value.key?.isNone
  | _ => false

/-- No NaN stands in the atom. -/
def NaNFree (a : Atom) : Prop := a.Each fun s => s.isNaN = false

instance (a : Atom) : Decidable a.NaNFree :=
  inferInstanceAs (Decidable (a.Each fun s => s.isNaN = false))

theorem leafwise_nanFree : Leafwise NaNFree := leafwise_each fun _ => rfl

theorem nanFree_leaf {a : Atom} (leaf : a.kind ≠ .expression) : a.NaNFree ↔ a.isNaN = false :=
  each_leaf leaf

/-- An atom equals itself unless a NaN stands in it. -/
theorem same_self_iff {a : Atom} : Same a a ↔ a.NaNFree := by
  induction a with
  | expr cs ih =>
      rw [same_expr, List.forall₂_same, leafwise_nanFree]
      exact forall_congr' fun c => forall_congr' (ih c)
  | literal l =>
      rw [nanFree_leaf (by simp [kind]), isNaN, Option.isNone_eq_false_iff]
      exact Scalar.same_self_iff l.value
  | _ => exact iff_of_true (by simp [Same, same]) ((nanFree_leaf (by simp [kind])).mpr rfl)

theorem sameAll_self_iff {cs : List Atom} : sameAll cs cs = true ↔ (expr cs).NaNFree := by
  rw [sameAll_iff, ← same_expr, same_self_iff]

/-! ## Substitution -/

variable {σ σ' : String → Option Atom} {a a' : Atom}

/-- Equal atoms put in the place of the same variables of equal atoms make them equal atoms. -/
theorem Same.substitute (equal : Same a a')
    (alike : ∀ name ∈ a'.varNames, Option.Rel Same (σ name) (σ' name)) :
    Same (a.substitute σ) (a'.substitute σ') := by
  induction a generalizing a' with
  | var name constraint =>
      cases a' with
      | var name' constraint' =>
          obtain rfl : name = name' := by simpa [Same, same] using equal
          simp only [Atom.substitute]
          have here := alike name (by simp [varNames_var])
          generalize σ name = value at here ⊢
          generalize σ' name = value' at here ⊢
          cases here with
          | none => exact equal
          | some values => exact values
      | _ => cases equal
  | expr cs ih =>
      cases a' with
      | expr ds =>
          simp only [Atom.substitute, substituteAll_eq_map]
          simp only [mem_varNames_expr] at alike
          rw [same_expr] at equal ⊢
          induction equal with
          | nil => exact .nil
          | cons head tail again =>
              refine .cons (ih _ (.head _) head fun name inside => ?_)
                (again (fun c member => ih c (.tail _ member)) fun name inside => ?_)
              · exact alike name ⟨_, .head _, inside⟩
              · obtain ⟨d, member, inside⟩ := inside
                exact alike name ⟨d, .tail _ member, inside⟩
      | _ => cases equal
  | _ => cases a' <;> first | exact equal | cases equal

/-- A NaN comes into an atom by substitution only with the atoms that are put in. -/
theorem nanFree_substitute : (a.substitute σ).NaNFree ↔
    a.NaNFree ∧ ∀ name ∈ a.varNames, ∀ value, σ name = some value → value.NaNFree := by
  induction a with
  | var name constraint =>
      have itself : (Atom.var name constraint).NaNFree := (nanFree_leaf (by simp [kind])).mpr rfl
      rw [Atom.substitute, varNames_var]
      cases found : σ name with
      | none => simp [itself, found]
      | some value => simp [itself, found]
  | expr cs ih =>
      simp only [Atom.substitute, substituteAll_eq_map, leafwise_nanFree _, List.forall_mem_map,
        mem_varNames_expr]
      constructor
      · intro free
        refine ⟨fun c member => ((ih c member).mp (free c member)).1, ?_⟩
        rintro name ⟨c, member, inside⟩
        exact ((ih c member).mp (free c member)).2 name inside
      · rintro ⟨free, values⟩ c member
        exact (ih c member).mpr ⟨free c member, fun name inside => values name ⟨c, member, inside⟩⟩
  | _ =>
      rw [Atom.substitute, varNames_leaf (by simp [kind]) (by simp [kind])]
      simp

end Atom

/-! ## Bindings -/

namespace Bindings

/-- The same names in the same order, bound to equal atoms. -/
def Alike (b b' : Bindings) : Prop :=
  List.Forall₂ (fun e e' => e.1 = e'.1 ∧ Atom.Same e.2 e'.2) b.entries b'.entries

theorem alike_empty : empty.Alike empty := .nil

/-- Every entry is what its name is bound to. -/
theorem get?_of_mem_entries {b : Bindings} {name : String} {value : Atom}
    (member : (name, value) ∈ b.entries) : b.get? name = some value := by
  obtain ⟨before, after, entries⟩ := List.append_of_mem member
  refine List.lookup_eq_some_iff.mpr ⟨before, after, entries, fun e earlier => ?_⟩
  have nodup := b.nodup
  rw [entries, List.map_append, List.nodup_append] at nodup
  have apart := nodup.2.2 e.1 (List.mem_map_of_mem earlier) name (by simp)
  simpa using Ne.symm apart

variable {b b' : Bindings} {value value' : Atom}

theorem lookup_alike {es es' : List (String × Atom)}
    (alike : List.Forall₂ (fun e e' => e.1 = e'.1 ∧ Atom.Same e.2 e'.2) es es') (name : String) :
    Option.Rel Atom.Same (es.lookup name) (es'.lookup name) := by
  induction alike with
  | nil => exact .none
  | @cons e e' es es' head tail ih =>
      obtain ⟨n, old⟩ := e
      obtain ⟨n', old'⟩ := e'
      obtain ⟨rfl, equal⟩ : n = n' ∧ Atom.Same old old' := head
      rw [List.lookup_cons, List.lookup_cons]
      cases name == n with
      | true => exact .some equal
      | false => exact ih

theorem Alike.get? (alike : b.Alike b') (name : String) :
    Option.Rel Atom.Same (b.get? name) (b'.get? name) :=
  lookup_alike alike name

theorem Alike.bind (alike : b.Alike b') (name : String) (equal : Atom.Same value value') :
    Option.Rel Alike (b.bind name value) (b'.bind name value') := by
  have here := alike.get? name
  cases found : b.get? name with
  | none =>
      cases found' : b'.get? name with
      | some old' => rw [found, found'] at here; cases here
      | none =>
          obtain ⟨c, binds, entries⟩ := bind_of_get?_none found value
          obtain ⟨c', binds', entries'⟩ := bind_of_get?_none found' value'
          rw [binds, binds']
          refine .some ?_
          rw [Alike, entries, entries']
          exact List.rel_append alike (.cons ⟨rfl, equal⟩ .nil)
  | some old =>
      cases found' : b'.get? name with
      | none => rw [found, found'] at here; cases here
      | some old' =>
          rw [found, found'] at here
          obtain ⟨olds⟩ := here
          rw [bind_of_get?_some found, bind_of_get?_some found', olds.congr equal]
          split
          · exact .some alike
          · exact .none

/-- Bindings that are alike are equal. -/
theorem Alike.same (alike : b.Alike b') : b.same b' = true := by
  have sizes : b.size = b'.size := List.Forall₂.length_eq alike
  simp only [Bindings.same, sizes, beq_self_eq_true, Bool.true_and, List.all_eq_true]
  rintro ⟨name, value⟩ member
  have related := alike.get? name
  rw [get?_of_mem_entries member] at related
  generalize b'.get? name = found at related ⊢
  cases related with
  | some values => exact values

theorem Alike.apply (alike : b.Alike b') {a a' : Atom} (equal : Atom.Same a a') :
    Atom.Same (b.apply a) (b'.apply a') :=
  equal.substitute fun name _ => alike.get? name

end Bindings

/-! ## Matching and contraction -/

namespace Atom

theorem matchInto_leaf_alike {b b' : Bindings} (alike : b.Alike b')
    {data data' pattern pattern' : Atom} (equal : Same data data')
    (patterns : Same pattern pattern') (notVar : pattern.kind ≠ .var)
    (notExpr : pattern.kind ≠ .expression) :
    Option.Rel Bindings.Alike (matchInto b data pattern) (matchInto b' data' pattern') := by
  rw [matchInto_leaf _ _ notVar notExpr,
    matchInto_leaf _ _ (patterns.kind_eq ▸ notVar) (patterns.kind_eq ▸ notExpr),
    equal.congr patterns]
  split
  · exact .some alike
  · exact .none

/-- Equal atoms match equal patterns to bindings that are alike, or fail to match both. -/
theorem matchInto_alike {b b' : Bindings} (alike : b.Alike b') {data data' pattern pattern' : Atom}
    (equal : Same data data') (patterns : Same pattern pattern') :
    Option.Rel Bindings.Alike (matchInto b data pattern) (matchInto b' data' pattern') := by
  induction pattern generalizing b b' data data' pattern' with
  | var name constraint =>
      cases pattern' with
      | var name' constraint' =>
          obtain rfl : name = name' := by simpa [Same, same] using patterns
          rw [matchInto_var, matchInto_var]
          exact alike.bind name equal
      | _ => cases patterns
  | expr ps ih =>
      cases pattern' with
      | expr ps' =>
          rw [matchInto_expr, matchInto_expr]
          cases data with
          | expr cs =>
              cases data' with
              | expr cs' =>
                  rw [same_expr] at equal patterns
                  induction patterns generalizing b b' cs cs' with
                  | nil =>
                      cases equal with
                      | nil => exact .some alike
                      | cons => exact .none
                  | cons head tail again =>
                      cases equal with
                      | nil => exact .none
                      | cons first others =>
                          have here := ih _ (.head _) alike first head
                          simp only [matchAllInto]
                          generalize matchInto b _ _ = m at here ⊢
                          generalize matchInto b' _ _ = m' at here ⊢
                          cases here with
                          | none => exact .none
                          | some alike₁ =>
                              exact again (fun p member => ih p (.tail _ member)) alike₁ _ _ others
              | _ => cases equal
          | _ => cases data' <;> first | exact .none | cases equal
      | _ => cases patterns
  | _ => exact matchInto_leaf_alike alike equal patterns (by simp [kind]) (by simp [kind])

theorem matchPattern_alike {data data' pattern pattern' : Atom} (equal : Same data data')
    (patterns : Same pattern pattern') :
    Option.Rel Bindings.Alike (data.matchPattern pattern) (data'.matchPattern pattern') :=
  matchInto_alike Bindings.alike_empty equal patterns

end Atom

namespace Rule

/-- Without guards, equal rules contract equal atoms to equal atoms, or contract neither. -/
theorem apply_alike {r r' : Rule} (unguarded : r.guard = none) (unguarded' : r'.guard = none)
    (patterns : Atom.Same r.pattern r'.pattern) (templates : Atom.Same r.template r'.template)
    {a a' : Atom} (equal : Atom.Same a a') :
    ∃ x x', r.apply a = .ok x ∧ r'.apply a' = .ok x' ∧ Option.Rel Atom.Same x x' := by
  have bindings := Atom.matchPattern_alike equal patterns
  unfold Rule.apply
  generalize a.matchPattern r.pattern = m at bindings ⊢
  generalize a'.matchPattern r'.pattern = m' at bindings ⊢
  cases bindings with
  | none => exact ⟨none, none, rfl, rfl, .none⟩
  | some alike =>
      refine ⟨_, _, ?_, ?_, .some (alike.apply templates)⟩
      · simp [admits, unguarded]
      · simp [admits, unguarded']

/-- Both rules are without a guard, and they are equal but perhaps for their names and
priorities. -/
structure Alike (r r' : Rule) : Prop where
  unguarded : r.guard = none
  unguarded' : r'.guard = none
  pattern : Atom.Same r.pattern r'.pattern
  template : Atom.Same r.template r'.template

/-- Lists that are alike rule by rule contract equal atoms to equal atoms, or contract neither. -/
theorem contract_alike {rules rules' : List Rule} (alike : List.Forall₂ Alike rules rules')
    {a a' : Atom} (equal : Atom.Same a a') :
    ∃ x x', contract rules a = .ok x ∧ contract rules' a' = .ok x' ∧
      Option.Rel Atom.Same x x' := by
  induction alike with
  | nil => exact ⟨none, none, rfl, rfl, .none⟩
  | cons head tail ih =>
      obtain ⟨y, y', applied, applied', related⟩ :=
        apply_alike head.unguarded head.unguarded' head.pattern head.template equal
      cases related with
      | none => simpa [contract, applied, applied'] using ih
      | some same => exact ⟨_, _, by simp [contract, applied], by simp [contract, applied'],
          .some same⟩

end Rule

end Metta
