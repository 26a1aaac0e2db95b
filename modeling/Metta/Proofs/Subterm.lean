/-
# Metta.Proofs.Subterm -- atoms and what is inside their expressions

Atoms are nested through lists of children.  `Atom.inductionOn` is induction over that
nesting: a statement about an expression may be proved from the same statement about
each of its children.

Two ways to speak of the inside of an atom are used.  `Atom.Occurs` says that an atom
stands inside another at some nesting depth, the whole being at depth zero.
`Atom.Each` says that all subterms have a property.  Neither looks into type
constraints or the sources of errors, and neither does evaluation.

A class of atoms is leafwise (`Atom.Leafwise`) when an expression belongs to it exactly
if its children do.
-/
import Metta.Atom

namespace Metta.Atom

set_option autoImplicit false

/-- Induction over the nesting of expressions. -/
@[elab_as_elim, induction_eliminator]
theorem inductionOn {P : Atom → Prop} (a : Atom)
    (symbol : ∀ name, P (.symbol name)) (var : ∀ name constraint, P (.var name constraint))
    (literal : ∀ l, P (.literal l)) (expr : ∀ cs, (∀ c ∈ cs, P c) → P (.expr cs))
    (empty : P .empty) (error : ∀ message source, P (.error message source)) : P a :=
  match a with
  | .symbol name => symbol name
  | .var name constraint => var name constraint
  | .literal l => literal l
  | .expr cs => expr cs fun c _ => inductionOn c symbol var literal expr empty error
  | .empty => empty
  | .error message source => error message source

theorem kind_eq_expression {a : Atom} : a.kind = .expression ↔ ∃ cs, a = .expr cs := by
  cases a <;> simp [kind]

/-! ## Subterms -/

theorem map_node_walkFrom (parent : Option Atom) (index : Option Nat) (a : Atom) :
    (walkFrom parent index a).map Visit.node = a.subterms := by
  cases a <;> simp [subterms, walk, walkFrom]

theorem map_node_walkChildren (parent : Atom) (index : Nat) (cs : List Atom) :
    (walkChildren parent index cs).map Visit.node = cs.flatMap subterms := by
  induction cs generalizing index with
  | nil => rfl
  | cons c cs ih => simp [walkChildren, map_node_walkFrom, ih]

theorem subterms_expr (cs : List Atom) :
    (Atom.expr cs).subterms = .expr cs :: cs.flatMap subterms := by
  simp [subterms, walk, walkFrom, map_node_walkChildren]

theorem subterms_leaf {a : Atom} (leaf : a.kind ≠ .expression) : a.subterms = [a] := by
  cases a <;> first | rfl | exact absurd rfl leaf

theorem varNames_expr (cs : List Atom) : (Atom.expr cs).varNames = cs.flatMap varNames := by
  simp only [varNames, subterms_expr, List.filterMap_cons, List.filterMap_flatMap]
  rfl

theorem mem_varNames_expr {name : String} {cs : List Atom} :
    name ∈ (Atom.expr cs).varNames ↔ ∃ c ∈ cs, name ∈ c.varNames := by
  rw [varNames_expr, List.mem_flatMap]

theorem varNames_var (name : String) (constraint : Option Atom) :
    (Atom.var name constraint).varNames = [name] := rfl

theorem varNames_leaf {a : Atom} (notVar : a.kind ≠ .var) (notExpr : a.kind ≠ .expression) :
    a.varNames = [] := by
  cases a with
  | var => exact absurd rfl notVar
  | expr => exact absurd rfl notExpr
  | _ => rfl

/-- Every subterm has the property. -/
def Each (P : Atom → Prop) (a : Atom) : Prop := ∀ s ∈ a.subterms, P s

instance (P : Atom → Prop) [DecidablePred P] (a : Atom) : Decidable (Each P a) :=
  inferInstanceAs (Decidable (∀ s ∈ a.subterms, P s))

theorem each_expr {P : Atom → Prop} (cs : List Atom) :
    Each P (.expr cs) ↔ P (.expr cs) ∧ ∀ c ∈ cs, Each P c := by
  simp only [Each, subterms_expr, List.mem_cons, List.mem_flatMap]
  constructor
  · intro h
    exact ⟨h _ (.inl rfl), fun c hc s hs => h s (.inr ⟨c, hc, hs⟩)⟩
  · rintro ⟨top, inside⟩ s (rfl | ⟨c, hc, hs⟩)
    · exact top
    · exact inside c hc s hs

theorem each_leaf {P : Atom → Prop} {a : Atom} (leaf : a.kind ≠ .expression) :
    Each P a ↔ P a := by
  simp [Each, subterms_leaf leaf]

/-- An expression belongs to the class exactly if its children do. -/
def Leafwise (Good : Atom → Prop) : Prop := ∀ cs, Good (.expr cs) ↔ ∀ c ∈ cs, Good c

theorem leafwise_each {P : Atom → Prop} (free : ∀ cs, P (.expr cs)) : Leafwise (Each P) := by
  intro cs
  rw [each_expr]
  exact and_iff_right (free cs)

/-- No variable stands in the atom. -/
def Ground (a : Atom) : Prop := a.varNames = []

instance (a : Atom) : Decidable a.Ground := inferInstanceAs (Decidable (a.varNames = []))

theorem leafwise_ground : Leafwise Ground := by
  intro cs
  rw [Ground, varNames_expr, List.flatMap_eq_nil_iff]
  rfl

/-! ## Nesting depth -/

/-- `Occurs depth part whole`: the part stands inside the whole at a nesting depth, the whole itself
at depth zero. -/
inductive Occurs : Nat → Atom → Atom → Prop
  | root (a : Atom) : Occurs 0 a a
  | child {depth : Nat} {part c : Atom} {cs : List Atom} (member : c ∈ cs)
      (inside : Occurs depth part c) : Occurs (depth + 1) part (.expr cs)

end Metta.Atom
