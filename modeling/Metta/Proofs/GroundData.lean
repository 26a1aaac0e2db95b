/-
# Metta.Proofs.GroundData -- unification with data is matching

Data is concrete when it is made of symbols, literals and expressions of these
(`Atom.Concrete`).  Such data is unified with a pattern by matching it, from either side
(`Atom.unify_eq_matchInto`): the recursion goes no deeper than the data, and the bindings
are the same, in the same order.

Unification instantiates a pattern before it looks at it, and instantiates the children
again when it comes to them, by which time more is bound.  Because bound atoms have no
variables the second instantiation undoes nothing of the first
(`Bindings.apply_apply`), so every child is looked at as if for the first time.  A
variable that is bound already is compared with the data by matching, and unified with it
by unification, child by child; for concrete atoms that comes to the same.  It does not
for `empty` and for errors, which match themselves and unify with nothing.
-/
import Metta.Proofs.Unification

namespace Metta

set_option autoImplicit false

/-- Bound atoms without variables are not changed by later bindings. -/
theorem Bindings.apply_apply {b b' : Bindings} (extended : b.Extends b')
    (ground : b.Within Atom.Ground) (a : Atom) : b'.apply (b.apply a) = b'.apply a := by
  induction a with
  | var name constraint =>
      simp only [Bindings.apply, Atom.substitute]
      cases found : b.get? name with
      | none => rfl
      | some value =>
          rw [extended name value found, Option.getD_some]
          exact (ground.get? found).apply b'
  | expr cs ih =>
      simp only [Bindings.apply, Atom.substitute, Atom.substituteAll_eq_map, List.map_map,
        Atom.expr.injEq] at ih ⊢
      exact List.map_congr_left ih
  | _ => rfl

namespace Atom

variable {a c d p : Atom} {b b' : Bindings} {cs ps : List Atom} {levels : Nat}

/-! ## Concrete atoms -/

/-- The atom is made of symbols, literals and expressions: no variable, `empty` or error stands in
it. -/
def Concrete (a : Atom) : Prop :=
  a.Each fun part => part.kind ≠ .var ∧ part.kind ≠ .empty ∧ part.kind ≠ .error

instance (a : Atom) : Decidable a.Concrete :=
  inferInstanceAs (Decidable
    (a.Each fun part => part.kind ≠ .var ∧ part.kind ≠ .empty ∧ part.kind ≠ .error))

theorem leafwise_concrete : Leafwise Concrete :=
  leafwise_each fun _ => by simp [kind]

theorem Concrete.kind_ne (concrete : a.Concrete) :
    a.kind ≠ .var ∧ a.kind ≠ .empty ∧ a.kind ≠ .error := by
  by_cases isExpr : a.kind = .expression
  · simp [isExpr]
  · exact (each_leaf isExpr).mp concrete

theorem Concrete.ground (concrete : a.Concrete) : a.Ground := by
  induction a with
  | var name constraint => exact absurd rfl concrete.kind_ne.1
  | expr cs ih =>
      rw [leafwise_concrete] at concrete
      exact (leafwise_ground cs).mpr fun c member => ih c member (concrete c member)
  | _ => rfl

theorem within_ground_of_concrete (within : b.Within Concrete) : b.Within Ground :=
  fun value member => (within value member).ground

/-! ## Depth -/

theorem depth_pos (a : Atom) : 0 < a.depth := by
  cases a with
  | expr cs =>
      rw [depth]
      omega
  | _ => simp [depth]

theorem depth_le_depthAll (member : c ∈ cs) : c.depth ≤ depthAll cs := by
  induction member with
  | head => exact Nat.le_max_left _ _
  | tail _ _ ih => exact ih.trans (Nat.le_max_right _ _)

/-- An atom is no deeper than it has nodes. -/
theorem depth_le_length_walk (a : Atom) : a.depth ≤ a.walk.length := by
  have nodes : a.walk.length = a.subterms.length := (List.length_map _).symm
  rw [nodes]
  clear nodes
  induction a with
  | expr cs ih =>
      rw [depth, subterms_expr, List.length_cons, Nat.add_comm]
      refine Nat.succ_le_succ ?_
      induction cs with
      | nil => exact Nat.zero_le _
      | cons c cs again =>
          have first := ih c (.head _)
          have others := again fun d member => ih d (.tail _ member)
          rw [depthAll, List.flatMap_cons, List.length_append]
          omega
  | _ => simp [depth, subterms, walk, walkFrom]

/-! ## Unifying the parts -/

/-- A pattern may be instantiated beforehand, with bindings that have been extended since. -/
theorem unifyInto_apply (extended : b.Extends b') (ground : b.Within Ground) (x y : Atom) :
    unifyInto levels b' x (b.apply y) = unifyInto levels b' x y := by
  cases levels with
  | zero => rfl
  | succ levels => rw [unifyInto, unifyInto, Bindings.apply_apply extended ground]

theorem matchAllInto_of_lengths (lengths : cs.length ≠ ps.length) :
    matchAllInto b cs ps = none := by
  induction cs generalizing b ps with
  | nil =>
      cases ps with
      | nil => exact absurd rfl lengths
      | cons => rfl
  | cons c cs ih =>
      cases ps with
      | nil => rfl
      | cons p ps =>
          have shorter : cs.length ≠ ps.length := by simpa using lengths
          cases found : matchInto b c p <;> simp [matchAllInto, found, ih shorter]

/-- Children that are unified with instantiated patterns, where for each child that is matching. -/
theorem unifyEach_eq_matchAllInto
    (each : ∀ c ∈ cs, ∀ {b p}, b.Within Concrete →
      unifyInto levels b c p = .ofOption (matchInto b c p))
    (concrete : ∀ c ∈ cs, c.Concrete) (ground : b.Within Ground) (extended : b.Extends b')
    (within : b'.Within Concrete) (lengths : cs.length = ps.length) :
    unifyEach (unifyInto levels) b' cs (ps.map b.apply) = .ofOption (matchAllInto b' cs ps) := by
  induction cs generalizing b' ps with
  | nil =>
      obtain rfl : ps = [] := List.eq_nil_of_length_eq_zero lengths.symm
      rfl
  | cons c cs ih =>
      obtain ⟨here, there⟩ := List.forall_mem_cons.mp each
      obtain ⟨first, others⟩ := List.forall_mem_cons.mp concrete
      cases ps with
      | nil => cases lengths
      | cons p ps =>
          rw [List.map_cons, unifyEach, unifyInto_apply extended ground, here within, matchAllInto]
          cases matched : matchInto b' c p with
          | none => rfl
          | some s =>
              exact ih there others (extended.trans (matched_of_matchInto matched).kept)
                (leafwise_concrete.matchInto within first matched) (by simpa using lengths)

/-- Concrete data and a pattern of which at most one is an expression are compared. -/
theorem unifyHeads_leaf {child : Bindings → Atom → Atom → Unification} (concrete : a.Concrete)
    (notVar : p.kind ≠ .var) (leaf : a.kind = .expression → p.kind ≠ .expression) :
    unifyHeads child b a p = .ofOption (if a.same p then some b else none) := by
  cases a with
  | expr cs => cases p <;> first | rfl | exact absurd rfl notVar | exact absurd rfl (leaf rfl)
  | symbol name =>
      cases p with
      | var => exact absurd rfl notVar
      | symbol name' => by_cases names : name = name' <;> simp [unifyHeads, same, names] <;> rfl
      | _ => rfl
  | literal l =>
      cases p with
      | var => exact absurd rfl notVar
      | literal l' =>
          by_cases equal : l.same l' = true <;> simp [unifyHeads, same, equal] <;> rfl
      | _ => rfl
  | var => exact absurd rfl concrete.kind_ne.1
  | empty => exact absurd rfl concrete.kind_ne.2.1
  | error => exact absurd rfl concrete.kind_ne.2.2

/-- Concrete data and an instantiated pattern that was no variable. -/
theorem unifyHeads_eq_matchInto
    (each : ∀ cs, a = .expr cs → ∀ c ∈ cs, ∀ {b p}, b.Within Concrete →
      unifyInto levels b c p = .ofOption (matchInto b c p))
    (concrete : a.Concrete) (within : b.Within Concrete) (notVar : p.kind ≠ .var) :
    unifyHeads (unifyInto levels) b a (b.apply p) = .ofOption (matchInto b a p) := by
  cases p with
  | var => exact absurd rfl notVar
  | expr ps =>
      have instantiated : b.apply (.expr ps) = .expr (ps.map b.apply) := by
        simp only [Bindings.apply, substitute, substituteAll_eq_map]
        rfl
      rw [instantiated, matchInto_expr]
      by_cases isExpr : a.kind = .expression
      · obtain ⟨cs, rfl⟩ := kind_eq_expression.mp isExpr
        rw [unifyHeads, List.length_map]
        split
        · rename_i lengths
          exact unifyEach_eq_matchAllInto (each cs rfl) ((leafwise_concrete cs).mp concrete)
            (within_ground_of_concrete within) (.refl b) within lengths
        · rename_i lengths
          show Unification.clash = .ofOption (matchAllInto b cs ps)
          rw [matchAllInto_of_lengths lengths]
          rfl
      · rw [unifyHeads_leaf concrete (by simp [kind]) fun here => absurd here isExpr]
        cases a with
        | expr => exact absurd rfl isExpr
        | _ => rfl
  | _ =>
      rw [matchInto_leaf _ _ (by simp [kind]) (by simp [kind])]
      exact unifyHeads_leaf concrete (by simp [Bindings.apply, substitute, kind])
        (by simp [Bindings.apply, substitute, kind])

/-! ## Unifying the whole -/

/-- Unification with concrete data ends when it has gone as deep as the data, where matching
does. -/
theorem unifyInto_eq_matchInto (concrete : a.Concrete) (within : b.Within Concrete)
    (enough : a.depth ≤ levels) : unifyInto levels b a p = .ofOption (matchInto b a p) := by
  induction levels generalizing a b p with
  | zero => exact absurd (depth_pos a) (Nat.not_lt.mpr enough)
  | succ levels ih =>
      have each : ∀ cs, a = .expr cs → ∀ c ∈ cs, ∀ {b p}, b.Within Concrete →
          unifyInto levels b c p = .ofOption (matchInto b c p) := by
        rintro cs rfl c member b p within
        have deeper := depth_le_depthAll member
        rw [depth] at enough
        exact ih ((leafwise_concrete cs).mp concrete c member) within (by omega)
      rw [unifyInto, concrete.ground.apply]
      by_cases isVar : p.kind = .var
      · cases p with
        | var name constraint =>
            rw [matchInto_var]
            cases found : b.get? name with
            | none =>
                have free : b.apply (.var name constraint) = .var name constraint := by
                  rw [Bindings.apply, substitute, found, Option.getD_none]
                rw [free]
                exact unifyHeads_var_right concrete.kind_ne.1
            | some value =>
                -- what the variable is bound to is itself matched as a pattern
                have known := within.get? found
                have bound : b.apply (.var name constraint) = b.apply value := by
                  rw [known.ground.apply, Bindings.apply, substitute, found, Option.getD_some]
                rw [bound, unifyHeads_eq_matchInto each concrete within known.kind_ne.1,
                  matchInto_ground known.ground, Bindings.bind_of_get?_some found, same_comm]
        | _ => cases isVar
      · exact unifyHeads_eq_matchInto each concrete within isVar

theorem length_walk_le_unifyLevels (b : Bindings) (x y : Atom) :
    x.walk.length ≤ unifyLevels b x y := by
  simp only [unifyLevels]
  generalize b.entries.foldr (fun e n => e.2.walk.length + n) 0 = bound
  calc x.walk.length ≤ x.walk.length + y.walk.length + bound + 2 := by omega
    _ ≤ (x.walk.length + y.walk.length + bound + 2) ^ 3 := Nat.le_self_pow (by decide) _

/-- **Unification with concrete data is matching**, whichever of the two comes first.  It ends without
going deeper than the data; it fails if matching does, and otherwise binds the same names, in the
same order, to the same atoms. -/
theorem unify_eq_matchInto (concrete : a.Concrete) (within : b.Within Concrete) (p : Atom) :
    (∀ levels, a.depth ≤ levels →
      unifyInto levels b a p = .ofOption (matchInto b a p) ∧
      unifyInto levels b p a = .ofOption (matchInto b a p)) ∧
    unify b a p = matchInto b a p ∧ unify b p a = matchInto b a p := by
  have ground := within_ground_of_concrete within
  have oneWay : unify b a p = matchInto b a p := by
    have enough := (depth_le_length_walk a).trans (length_walk_le_unifyLevels b a p)
    rw [unify, unifyInto_eq_matchInto concrete within enough]
    cases matchInto b a p <;> rfl
  refine ⟨?_, oneWay, (unify_comm_of_ground ground p concrete.ground).trans oneWay⟩
  intro levels enough
  have unified := unifyInto_eq_matchInto (p := p) concrete within enough
  exact ⟨unified, ((unifyInto_swaps b p a ground concrete.ground).1.symm).trans unified⟩

/-- A repeated variable meets a whole number and then an equal float; another is bound beforehand, to
an expression that is equal to its part of the data. -/
theorem unify_eq_matchInto_preset :
    let f (a : Atom) : Atom := .expr [.symbol "f", a]
    let two : Atom := .ofScalar (.int 2)
    let two' : Atom := .ofScalar (.float 2)
    let a : Atom := .expr [two, f two', two']
    let p : Atom := .expr [.var "x" none, .var "y" none, .var "x" none]
    let b : Bindings := ⟨[("y", f two)], by decide⟩
    a.Concrete ∧ b.Within Concrete ∧ a.depth = 3 ∧
      (matchInto b a p).map Bindings.entries = some [("y", f two), ("x", two)] ∧
      unifyInto 3 b p a = .ofOption (matchInto b a p) ∧
      unify b a p = matchInto b a p ∧ unify b p a = matchInto b a p := by
  intro f two two' a p b
  have concrete : a.Concrete := by decide
  have within : b.Within Concrete := by decide
  have deep : a.depth = 3 := rfl
  obtain ⟨ends, oneWay, otherWay⟩ := unify_eq_matchInto concrete within p
  exact ⟨concrete, within, deep, rfl, (ends 3 (Nat.le_of_eq deep)).2, oneWay, otherWay⟩

/-- Data that is not concrete: `empty` matches itself, and unifies with nothing. -/
example : matchInto .empty .empty .empty = some .empty ∧ unify .empty .empty .empty = none :=
  ⟨rfl, rfl⟩

end Atom

end Metta
