/-
# Metta.Proofs.Closure -- classes of atoms that contraction cannot leave

Matching hands out pieces of the data, substitution puts pieces into a template, and a
contraction does both.  So a leafwise class of atoms that holds the data and the
templates of all rules holds whatever a contraction makes of them (`Rule.contract_good`).
Nothing is asked of the patterns: they are compared with, and never copied.
-/
import Metta.Proofs.Subterm
import Metta.Proofs.Contraction

namespace Metta

set_option autoImplicit false

variable {Good : Atom → Prop}

/-! ## Bindings -/

namespace Bindings

variable {b b' : Bindings} {name : String} {value : Atom}

/-- Every name is bound to an atom of the class. -/
def Within (Good : Atom → Prop) (b : Bindings) : Prop := ∀ a ∈ b.atoms, Good a

instance [DecidablePred Good] (b : Bindings) : Decidable (b.Within Good) :=
  inferInstanceAs (Decidable (∀ a ∈ b.atoms, Good a))

theorem within_empty : empty.Within Good := by simp [Within, atoms, empty]

theorem mem_entries_of_get? (found : b.get? name = some value) : (name, value) ∈ b.entries := by
  obtain ⟨before, after, entries, -⟩ := List.lookup_eq_some_iff.mp found
  simp [entries]

theorem Within.get? (within : b.Within Good) (found : b.get? name = some value) : Good value :=
  within _ (List.mem_map_of_mem (mem_entries_of_get? found))

/-- A binding that succeeds either finds the name bound to an equal atom or adds it at the end. -/
theorem bind_eq_some (bound : b.bind name value = some b') :
    (∃ old, b.get? name = some old ∧ old.same value = true ∧ b' = b) ∨
      b.get? name = none ∧ b'.entries = b.entries ++ [(name, value)] := by
  cases found : b.get? name with
  | some old =>
      rw [bind_of_get?_some found] at bound
      split at bound
      · exact .inl ⟨old, rfl, ‹_›, (Option.some.inj bound).symm⟩
      · cases bound
  | none =>
      obtain ⟨_, binds, entries⟩ := bind_of_get?_none found value
      rw [binds] at bound
      cases bound
      exact .inr ⟨rfl, entries⟩

theorem Within.bind (within : b.Within Good) (good : Good value)
    (bound : b.bind name value = some b') : b'.Within Good := by
  rcases bind_eq_some bound with ⟨_, -, -, rfl⟩ | ⟨-, entries⟩
  · exact within
  · intro a member
    simp only [atoms, entries, List.map_append, List.mem_append] at member
    rcases member with member | member
    · exact within a member
    · simp only [List.map_cons, List.map_nil, List.mem_singleton] at member
      exact member ▸ good

theorem Within.set (within : b.Within Good) (good : Good value) :
    (b.set name value).Within Good := by
  unfold Bindings.set
  split
  · intro a member
    simp only [atoms, List.map_map, List.mem_map, Function.comp] at member
    obtain ⟨e, inside, rfl⟩ := member
    split
    · exact good
    · exact within _ (List.mem_map_of_mem inside)
  · intro a member
    simp only [atoms, List.map_append, List.mem_append] at member
    rcases member with member | member
    · exact within a member
    · simp only [List.map_cons, List.map_nil, List.mem_singleton] at member
      exact member ▸ good

end Bindings

/-! ## Substitution and matching -/

namespace Atom

theorem Leafwise.substitute (leafwise : Leafwise Good) {σ : String → Option Atom}
    (values : ∀ name value, σ name = some value → Good value) {a : Atom} (good : Good a) :
    Good (a.substitute σ) := by
  induction a with
  | var name constraint =>
      rw [Atom.substitute]
      cases found : σ name with
      | none => exact good
      | some value => exact values name value found
  | expr cs ih =>
      rw [Atom.substitute, substituteAll_eq_map, leafwise]
      intro c member
      obtain ⟨c, inside, rfl⟩ := List.mem_map.mp member
      exact ih c inside ((leafwise cs).mp good c inside)
  | _ => exact good

theorem Leafwise.apply (leafwise : Leafwise Good) {b : Bindings} (within : b.Within Good) {a : Atom}
    (good : Good a) : Good (b.apply a) :=
  leafwise.substitute (fun _ _ found => within.get? found) good

theorem Leafwise.matchInto (leafwise : Leafwise Good) {b b' : Bindings} {data pattern : Atom}
    (within : b.Within Good) (good : Good data) (matched : matchInto b data pattern = some b') :
    b'.Within Good := by
  induction pattern generalizing b b' data with
  | var name constraint =>
      rw [matchInto_var] at matched
      exact within.bind good matched
  | expr ps ih =>
      rw [matchInto_expr] at matched
      split at matched
      · rename_i cs
        have goods := (leafwise cs).mp good
        clear good
        -- the children are matched one after the other, each with what those before it bound
        induction ps generalizing b cs with
        | nil => cases cs <;> simp_all [matchAllInto]
        | cons p ps again =>
            cases cs with
            | nil => simp [matchAllInto] at matched
            | cons c cs =>
                simp only [matchAllInto, Option.bind_eq_some_iff] at matched
                obtain ⟨b₁, first, rest⟩ := matched
                have within₁ := ih p (.head _) within (goods c (.head _)) first
                exact again (fun q member => ih q (.tail _ member)) within₁ cs rest
                  fun d member => goods d (.tail _ member)
      · cases matched
  | _ =>
      rw [matchInto_leaf _ _ (by simp [kind]) (by simp [kind])] at matched
      split at matched <;> cases matched
      exact within

theorem Leafwise.matchPattern (leafwise : Leafwise Good) {b : Bindings} {data pattern : Atom}
    (good : Good data) (matched : data.matchPattern pattern = some b) : b.Within Good :=
  leafwise.matchInto Bindings.within_empty good matched

theorem Leafwise.matchEach (leafwise : Leafwise Good) {b : Bindings} {as : List Atom}
    {pattern : Atom} (goods : ∀ a ∈ as, Good a) (member : b ∈ matchEach as pattern) :
    b.Within Good := by
  obtain ⟨data, stored, matched⟩ := List.mem_filterMap.mp member
  exact leafwise.matchPattern (goods data stored) matched

end Atom

/-! ## Contraction -/

namespace Rule

variable {rules : List Rule} {a a' : Atom}

theorem apply_good (leafwise : Atom.Leafwise Good) {r : Rule} (template : Good r.template)
    (good : Good a) (applied : r.apply a = .ok (some a')) : Good a' := by
  obtain ⟨b, matched, -, rfl⟩ := apply_eq_some_iff.mp applied
  exact leafwise.apply (leafwise.matchPattern good matched) template

theorem contract_good (leafwise : Atom.Leafwise Good) (templates : ∀ r ∈ rules, Good r.template)
    (good : Good a) (contracted : contract rules a = .ok (some a')) : Good a' := by
  obtain ⟨before, r, after, rfl, -, applied⟩ := contract_eq_some_iff.mp contracted
  exact apply_good leafwise (templates r (by simp)) good applied

end Rule

end Metta
