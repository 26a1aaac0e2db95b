/-
# Metta.Proofs.Renaming -- the names of rule variables do not matter

The variables of a rule belong to the rule.  Under other names, as long as these are
distinct and none is that of a variable which only the template has (`Rule.Hygienic`), the
rule makes the same of every atom, and rules so renamed, each in its own way, reduce every
atom to the same atom.

The atoms that are reduced may have variables of the same names as the rule, before or
after renaming.  These are data: a match compares and copies them, and what it has copied is
not searched for variables again when the template is instantiated.  So bindings that differ
in their names alone (`Bindings.Renamed`) stay so through a match, and are told apart by no
template that is renamed with them.
-/
import Metta.Proofs.Matching
import Metta.Proofs.Termination

namespace Metta

set_option autoImplicit false

/-! ## New names -/

namespace Atom

mutual

/-- The atom with other names for its variables. -/
def rename (ρ : String → String) : Atom → Atom
  | .var name constraint => .var (ρ name) constraint
  | .expr cs => .expr (renameAll ρ cs)
  | .symbol name => .symbol name
  | .literal l => .literal l
  | .empty => .empty
  | .error message source => .error message source

def renameAll (ρ : String → String) : List Atom → List Atom
  | [] => []
  | c :: cs => rename ρ c :: renameAll ρ cs

end

theorem renameAll_eq_map (ρ : String → String) (cs : List Atom) :
    renameAll ρ cs = cs.map (rename ρ) := by
  induction cs with
  | nil => rfl
  | cons c cs ih => simp [renameAll, ih]

/-- Substitution in a renamed atom is told from what it does to the variables. -/
theorem substitute_rename {ρ : String → String} {σ σ' : String → Option Atom} {a : Atom}
    (alike : ∀ name ∈ a.varNames, ∀ constraint,
      (Atom.var (ρ name) constraint).substitute σ' = (Atom.var name constraint).substitute σ) :
    (a.rename ρ).substitute σ' = a.substitute σ := by
  induction a with
  | var name constraint => exact alike name (by simp [varNames_var]) constraint
  | expr cs ih =>
      simp only [rename, substitute, renameAll_eq_map, substituteAll_eq_map, List.map_map,
        expr.injEq]
      refine List.map_congr_left fun c member => ih c member fun name inside => ?_
      exact alike name (mem_varNames_expr.mpr ⟨c, member, inside⟩)
  | _ => rfl

theorem rename_leaf {ρ : String → String} {a : Atom} (notVar : a.kind ≠ .var)
    (notExpr : a.kind ≠ .expression) : a.rename ρ = a := by
  cases a with
  | var => exact absurd rfl notVar
  | expr => exact absurd rfl notExpr
  | _ => rfl

end Atom

namespace Rule

/-- The rule with other names for the variables of its pattern, wherever they stand.  The variables
that only the template has keep theirs. -/
def rename (ρ : String → String) (r : Rule) : Rule :=
  { r with
    pattern := r.pattern.rename ρ
    template := r.template.rename fun name => if name ∈ r.pattern.varNames then ρ name else name }

/-- The new names are distinct, and none is that of a variable which only the template has. -/
structure Hygienic (ρ : String → String) (r : Rule) : Prop where
  distinct : ∀ x ∈ r.pattern.varNames, ∀ y ∈ r.pattern.varNames, ρ x = ρ y → x = y
  uncaptured : ∀ x ∈ r.pattern.varNames, ρ x ∈ r.template.varNames → ρ x ∈ r.pattern.varNames

end Rule

/-! ## Bindings -/

namespace Bindings

variable {ρ : String → String} {names : List String} {b b' : Bindings} {name : String}

/-- Some of the names are bound, and under their new names the others are the same bindings. -/
structure Renamed (ρ : String → String) (names : List String) (b b' : Bindings) : Prop where
  same : ∀ name ∈ names, b'.get? (ρ name) = b.get? name
  inside : ∀ name, name ∉ names → b.get? name = none
  inside' : ∀ name, (∀ old ∈ names, ρ old ≠ name) → b'.get? name = none

theorem renamed_empty (ρ : String → String) (names : List String) :
    Renamed ρ names empty empty where
  same _ _ := rfl
  inside _ _ := rfl
  inside' _ _ := rfl

/-- Binding a name and binding its new name both succeed, or both fail. -/
theorem Renamed.bind (distinct : ∀ x ∈ names, ∀ y ∈ names, ρ x = ρ y → x = y)
    (renamed : Renamed ρ names b b') (member : name ∈ names) (value : Atom) :
    Option.Rel (Renamed ρ names) (b.bind name value) (b'.bind (ρ name) value) := by
  have here := renamed.same name member
  cases found : b.get? name with
  | some old =>
      rw [bind_of_get?_some found, bind_of_get?_some (here.trans found)]
      split
      · exact .some renamed
      · exact .none
  | none =>
      obtain ⟨s, binds, entries⟩ := bind_of_get?_none found value
      obtain ⟨s', binds', entries'⟩ := bind_of_get?_none (here.trans found) value
      rw [binds, binds']
      refine .some ⟨fun x known => ?_, fun x unknown => ?_, fun x unused => ?_⟩
      · have same : ρ x = ρ name ↔ x = name :=
          ⟨distinct x known name member, congrArg ρ⟩
        rw [get?_append entries, get?_append entries', renamed.same x known]
        simp only [same]
      · have other : x ≠ name := fun same => unknown (same ▸ member)
        rw [get?_append entries, renamed.inside x unknown, if_neg other]
        rfl
      · have other : x ≠ ρ name := fun same => unused name member same.symm
        rw [get?_append entries', renamed.inside' x unused, if_neg other]
        rfl

/-- A template is instantiated alike if its variables are renamed as those of the bindings are, and
none of the others has one of the new names. -/
theorem Renamed.apply (renamed : Renamed ρ names b b') (bound : ∀ name ∈ names, name ∈ b.names)
    {template : Atom} (uncaptured : ∀ x ∈ names, ρ x ∈ template.varNames → ρ x ∈ names) :
    b'.apply (template.rename fun name => if name ∈ names then ρ name else name) =
      b.apply template := by
  refine Atom.substitute_rename fun name occurs constraint => ?_
  by_cases known : name ∈ names
  · obtain ⟨value, found⟩ := mem_names.mp (bound name known)
    have found' : b'.get? (ρ name) = some value := (renamed.same name known).trans found
    simp only [if_pos known, Atom.substitute, found, found']
    rfl
  · have unused : ∀ old ∈ names, ρ old ≠ name := by
      rintro old member rfl
      exact known (uncaptured old member occurs)
    simp only [if_neg known, Atom.substitute, renamed.inside name known,
      renamed.inside' name unused]

end Bindings

/-! ## Matching -/

namespace Atom

open Bindings (Renamed)

variable {ρ : String → String} {names : List String}

/-- The renamed pattern matches the same data, with the same bindings under the new names. -/
theorem matchInto_rename (distinct : ∀ x ∈ names, ∀ y ∈ names, ρ x = ρ y → x = y)
    {b b' : Bindings} (renamed : Renamed ρ names b b') {data pattern : Atom}
    (known : ∀ name ∈ pattern.varNames, name ∈ names) :
    Option.Rel (Renamed ρ names) (matchInto b data pattern)
      (matchInto b' data (pattern.rename ρ)) := by
  induction pattern generalizing b b' data with
  | var name constraint =>
      rw [rename, matchInto_var, matchInto_var]
      exact renamed.bind distinct (known name (by simp [varNames_var])) data
  | expr ps ih =>
      rw [rename, renameAll_eq_map, matchInto_expr, matchInto_expr]
      cases data with
      | expr cs =>
          simp only [mem_varNames_expr] at known
          -- the bindings that one child leaves are those that the next one starts with
          induction ps generalizing b b' cs with
          | nil =>
              cases cs with
              | nil => exact .some renamed
              | cons => exact .none
          | cons p ps again =>
              cases cs with
              | nil => exact .none
              | cons c cs =>
                  have here : Option.Rel (Renamed ρ names) (matchInto b c p)
                      (matchInto b' c (p.rename ρ)) :=
                    ih p (.head _) renamed fun name inside => known name ⟨p, .head _, inside⟩
                  simp only [List.map_cons, matchAllInto]
                  generalize matchInto b c p = m at here ⊢
                  generalize matchInto b' c (p.rename ρ) = m' at here ⊢
                  cases here with
                  | none => exact .none
                  | some renamed₁ =>
                      refine again (fun q member => ih q (.tail _ member)) renamed₁ cs ?_
                      rintro name ⟨q, member, inside⟩
                      exact known name ⟨q, .tail _ member, inside⟩
      | _ => exact .none
  | _ =>
      rw [rename_leaf (by simp [kind]) (by simp [kind]),
        matchInto_leaf _ _ (by simp [kind]) (by simp [kind]),
        matchInto_leaf _ _ (by simp [kind]) (by simp [kind])]
      split
      · exact .some renamed
      · exact .none

end Atom

/-! ## Rules -/

namespace Rule

variable {ρ : String → String} {r : Rule}

/-- A rule without a guard makes the same of an atom under other names. -/
theorem apply_rename (unguarded : r.guard = none) (hygienic : Hygienic ρ r) (a : Atom) :
    (r.rename ρ).apply a = r.apply a := by
  have related : Option.Rel (Bindings.Renamed ρ r.pattern.varNames) (a.matchPattern r.pattern)
      (a.matchPattern (r.pattern.rename ρ)) :=
    Atom.matchInto_rename hygienic.distinct (Bindings.renamed_empty ρ _) fun _ => id
  simp only [Rule.apply, rename, admits, unguarded]
  cases matched : a.matchPattern r.pattern with
  | none =>
      rw [matched] at related
      generalize a.matchPattern (r.pattern.rename ρ) = m' at related ⊢
      cases related
      rfl
  | some b =>
      -- the match has bound every variable of the pattern
      have bound : ∀ name ∈ r.pattern.varNames, name ∈ b.names := fun name member =>
        ((Atom.matched_of_matchInto matched).names name).mpr (.inr member)
      rw [matched] at related
      generalize a.matchPattern (r.pattern.rename ρ) = m' at related ⊢
      cases related with
      | some renamed => simp [renamed.apply bound hygienic.uncaptured]

/-- **The names of rule variables do not matter.**  Give the variables of a rule's pattern other
names, in the template too, so that they stay distinct and none takes the name of a variable which
only the template has.  Without a guard the rule makes the same of every atom as before, be there
variables in it that have the old names or the new ones.  So with a list of rules that are each
renamed in such a way the same is computed of every atom, by as many contractions, under all limits;
and a reduction has an end if it had one.  It has one where no NaN is in the atom nor in the
templates. -/
theorem rename_unobservable :
    (∀ (r : Rule) (ρ : String → String), r.guard = none → Hygienic ρ r →
      ∀ a, (r.rename ρ).apply a = r.apply a) ∧
    ∀ rules rules' : List Rule,
      List.Forall₂ (fun r r' => r.guard = none ∧ ∃ ρ, Hygienic ρ r ∧ r' = r.rename ρ) rules rules' →
      ∀ (limits : Reduce.Limits) (a : Atom),
        a.reduceCounting rules limits = a.reduceCounting rules' limits ∧
        (∀ a', a.ReducesTo rules limits a' ↔ a.ReducesTo rules' limits a') ∧
        ((∀ r ∈ rules, r.template.NaNFree) → a.NaNFree → ∃ a', a.ReducesTo rules limits a' ∧
          a.reduce rules limits = .ok a' ∧ a.reduce rules' limits = .ok a') := by
  refine ⟨fun r ρ unguarded hygienic => apply_rename unguarded hygienic,
    fun rules rules' renamed limits a => ?_⟩
  have same : List.Forall₂ (fun r r' => Rule.apply r = Rule.apply r') rules rules' := by
    refine renamed.imp fun r r' => ?_
    rintro ⟨unguarded, ρ, hygienic, rfl⟩
    exact funext fun a => (apply_rename unguarded hygienic a).symm
  have unguarded := ((List.forall₂_and_left rules rules').mp renamed).1
  have decided : ∀ r ∈ rules, r.Decided :=
    fun r member => decided_of_guard_eq_none (unguarded r member)
  have alike (a' : Atom) : a.ReducesTo rules limits a' ↔ a.ReducesTo rules' limits a' :=
    Atom.reducesTo_congr same
  refine ⟨Reduce.reduceCounting_congr same, alike, fun templates free => ?_⟩
  obtain ⟨a', ends⟩ := Atom.exists_reducesTo decided templates free limits
  exact ⟨a', ends, ends.1, ((alike a').mp ends).1⟩

/-- Two variables change their names, in an atom that has variables of both names. -/
theorem rename_unobservable_swapped :
    let swap (name : String) := if name = "x" then "y" else if name = "y" then "x" else name
    let x : Atom := .var "x" none
    let y : Atom := .var "y" none
    let z : Atom := .var "z" none
    let r : Rule := ⟨"swap", .expr [.symbol "f", x, y], .expr [y, x, z], none, 0⟩
    let r' : Rule := ⟨"swap", .expr [.symbol "f", y, x], .expr [x, y, z], none, 0⟩
    let a : Atom := .expr [.symbol "f", y, .expr [.symbol "g", x]]
    let a' : Atom := .expr [.expr [.symbol "g", x], y, z]
    r.rename swap = r' ∧ Hygienic swap r ∧ r'.apply a = .ok (some a') ∧
      a.ReducesTo [r'] {} a' := by
  intro swap x y z r r' a a'
  have renamed : r.rename swap = r' := rfl
  have hygienic : Hygienic swap r := ⟨by decide, by decide⟩
  obtain ⟨applies, reduces⟩ := rename_unobservable
  have applied : r.apply a = .ok (some a') := rfl
  have reduced : a.reduce [r] {} = .ok a' := rfl
  have related : List.Forall₂ (fun r r' => r.guard = none ∧ ∃ ρ, Hygienic ρ r ∧ r' = r.rename ρ)
      [r] [r'] := .cons ⟨rfl, swap, hygienic, renamed.symm⟩ .nil
  obtain ⟨-, alike, ends⟩ := reduces [r] [r'] related {} a
  obtain ⟨b, ended, before, -⟩ := ends (by decide) (by decide)
  rw [reduced] at before
  cases before
  exact ⟨renamed, hygienic, (applies r swap rfl hygienic a).trans applied, (alike a').mp ended⟩

/-- A name that only the template has cannot be taken. -/
example :
    let r : Rule := ⟨"constant", .expr [.symbol "f", .var "x" none], .var "z" none, none, 0⟩
    let a : Atom := .expr [.symbol "f", .symbol "a"]
    r.apply a = .ok (some (.var "z" none)) ∧
      (r.rename fun _ => "z").apply a = .ok (some (.symbol "a")) := ⟨rfl, rfl⟩

end Rule

end Metta
