/-
# Metta.Proofs.Unification -- what unification finds

Allowing more levels changes no outcome but that of running out of them
(`Atom.unifyInto_add`).  So unification has a result of its own (`Atom.Unifies`), and
what is said of it holds however many levels are allowed.

The invariant of a run is what the new bindings are to every assignment
(`Atom.Unified`): they keep the old ones, an assignment that makes the atoms equal
solves them, and one that solves them makes the atoms equal.  It is handed up from the
children of an expression to the whole, and through the application that comes before
each comparison.

The bindings found are those equations and no more (`Atom.unifies_most_general`), but
they are triangular: a name may be bound to a variable that is bound later.  One
application of them makes the two atoms equal if it leaves no bound variable
(`Atom.same_apply_of_resolved`), not otherwise.  The order of the two atoms is of no
account when one of them is ground (`Atom.unify_comm_of_ground`); in general it is.
-/
import Metta.Proofs.Solution
import Metta.Unify

namespace Metta

set_option autoImplicit false

namespace Unification

variable {u : Unification} {next : Bindings → Unification} {b s : Bindings} {b? : Option Bindings}

theorem andThen_eq_unified :
    u.andThen next = .unified s ↔ ∃ b, u = .unified b ∧ next b = .unified s := by
  cases u <;> simp [andThen]

theorem ofOption_eq_unified : ofOption b? = .unified s ↔ b? = some s := by
  cases b? <;> simp [ofOption]

theorem bindings?_eq_some : u.bindings? = some s ↔ u = .unified s := by
  cases u <;> simp [bindings?]

end Unification

namespace Atom

variable {b b' s s' : Bindings} {x y c d : Atom} {cs ds : List Atom} {levels : Nat}
  {child child' : Bindings → Atom → Atom → Unification} {t : String → Option Atom}

/-! ## Levels -/

/-- Where the first function ends, the other ends in the same way. -/
def Agrees (child child' : Bindings → Atom → Atom → Unification) : Prop :=
  ∀ b x y, child b x y ≠ .exhausted → child' b x y = child b x y

theorem unifyEach_agrees (agrees : Agrees child child')
    (ended : unifyEach child b cs ds ≠ .exhausted) :
    unifyEach child' b cs ds = unifyEach child b cs ds := by
  induction cs generalizing b ds with
  | nil => cases ds <;> rfl
  | cons c cs ih =>
      cases ds with
      | nil => rfl
      | cons d ds =>
          simp only [unifyEach] at ended ⊢
          cases first : child b c d with
          | exhausted =>
              rw [first] at ended
              exact absurd rfl ended
          | clash =>
              rw [agrees b c d (by simp [first]), first]
              rfl
          | unified b' =>
              rw [first] at ended
              rw [agrees b c d (by simp [first]), first]
              exact ih ended

theorem unifyHeads_agrees (agrees : Agrees child child')
    (ended : unifyHeads child b c d ≠ .exhausted) :
    unifyHeads child' b c d = unifyHeads child b c d := by
  unfold unifyHeads at ended ⊢
  split
  case h_4 cs ds =>
    simp only at ended ⊢
    split
    · rename_i lengths
      rw [if_pos lengths] at ended
      exact unifyEach_agrees agrees ended
    · rfl
  all_goals rfl

/-- **More levels do not change an outcome**, unless it was that they did not suffice. -/
theorem unifyInto_add (extra : Nat) (ended : unifyInto levels b x y ≠ .exhausted) :
    unifyInto (levels + extra) b x y = unifyInto levels b x y := by
  induction levels generalizing b x y with
  | zero => exact absurd rfl ended
  | succ levels ih =>
      rw [Nat.succ_add]
      exact unifyHeads_agrees (fun _ _ _ => ih) ended

/-- The recursion comes to an end. -/
def Ends (b : Bindings) (x y : Atom) : Prop := ∃ levels, unifyInto levels b x y ≠ .exhausted

/-- Unification ends with these bindings, in however many levels. -/
def Unifies (b : Bindings) (x y : Atom) (s : Bindings) : Prop :=
  ∃ levels, unifyInto levels b x y = .unified s

theorem unifies_of_unify (unified : unify b x y = some s) : Unifies b x y s :=
  ⟨_, Unification.bindings?_eq_some.mp unified⟩

/-- However many levels are allowed, those that end agree. -/
theorem unifyInto_eq_of_ended {levels levels' : Nat} (ended : unifyInto levels b x y ≠ .exhausted)
    (ended' : unifyInto levels' b x y ≠ .exhausted) :
    unifyInto levels b x y = unifyInto levels' b x y := by
  rw [← unifyInto_add levels' ended, ← unifyInto_add levels ended', Nat.add_comm]

/-! ## What a success means -/

/-- What unification of two atoms makes of bindings. -/
structure Unified (b : Bindings) (x y : Atom) (s : Bindings) : Prop where
  kept : b.Extends s
  /-- Only parts of the atoms and of values are bound. -/
  within : ∀ Good, Leafwise Good → Good x → Good y → b.Within Good → s.Within Good
  /-- Every assignment that makes the atoms equal and solves the old bindings solves the new. -/
  general : ∀ t, Same (x.substitute t) (y.substitute t) → b.SolvedBy t → s.SolvedBy t
  /-- Every assignment that solves the new bindings makes the atoms equal. -/
  equal : ∀ t, (x.substitute t).NaNFree → (y.substitute t).NaNFree → s.SolvedBy t →
    Same (x.substitute t) (y.substitute t)

theorem Unified.symm (unified : Unified b x y s) : Unified b y x s where
  kept := unified.kept
  within Good leafwise good good' := unified.within Good leafwise good' good
  general t equal := unified.general t equal.symm
  equal t free free' solved := (unified.equal t free' free solved).symm

/-- Atoms that are made equal by every assignment need no bindings. -/
theorem unified_self
    (same : ∀ t, (x.substitute t).NaNFree → Same (x.substitute t) (y.substitute t)) :
    Unified b x y b where
  kept := .refl b
  within _ _ _ _ within := within
  general _ _ solved := solved
  equal t free _ _ := same t free

theorem unified_bind {name : String} {constraint : Option Atom}
    (bound : b.bind name d = some s) : Unified b (.var name constraint) d s where
  kept := Bindings.extends_bind bound
  within _ _ _ good within := within.bind good bound
  general t equal solved := by
    have free : ((Atom.var name constraint).substitute t).NaNFree :=
      same_self_iff.mp (equal.trans equal.symm)
    exact solved.bind ((Bindings.same_substitute_var free).symm.trans equal) bound
  equal t free free' solved := by
    obtain ⟨kept, found, same⟩ := Bindings.get?_bind bound
    have equal := same (same_self_iff.mpr (nanFree_substitute.mp free').1)
    exact ((Bindings.same_substitute_var free).trans (solved name kept found)).trans
      (Bindings.same_substitute equal free')

/-- Children that are unified one after the other. -/
theorem unified_each
    (each : ∀ b c d s, child b c d = .unified s → Unified b c d s)
    (lengths : cs.length = ds.length) (found : unifyEach child b cs ds = .unified s) :
    Unified b (.expr cs) (.expr ds) s := by
  induction cs generalizing b ds with
  | nil =>
      obtain rfl : ds = [] := List.eq_nil_of_length_eq_zero lengths.symm
      cases found
      exact unified_self fun t free => same_self_iff.mpr free
  | cons c cs ih =>
      cases ds with
      | nil => cases lengths
      | cons d ds =>
          obtain ⟨b', here, there⟩ := Unification.andThen_eq_unified.mp found
          have first := each b c d b' here
          have others := ih (by simpa using lengths) there
          refine ⟨first.kept.trans others.kept, ?_, ?_, ?_⟩
          · intro Good leafwise good good' within
            rw [leafwise, List.forall_mem_cons] at good good'
            exact others.within Good leafwise ((leafwise cs).mpr good.2) ((leafwise ds).mpr good'.2)
              (first.within Good leafwise good.1 good'.1 within)
          · intro t equal solved
            rw [substitute, substitute, substituteAll, substituteAll, same_expr,
              List.forall₂_cons] at equal
            exact others.general t (same_expr.mpr equal.2) (first.general t equal.1 solved)
          · intro t free free' solved
            rw [substitute, substituteAll, leafwise_nanFree, List.forall_mem_cons] at free free'
            have head := first.equal t free.1 free'.1 (others.kept.solvedBy solved)
            have tail := others.equal t ((leafwise_nanFree _).mpr free.2)
              ((leafwise_nanFree _).mpr free'.2) solved
            exact same_expr.mpr (.cons head (same_expr.mp tail))

theorem unified_heads
    (each : ∀ b c d s, child b c d = .unified s → Unified b c d s)
    (found : unifyHeads child b c d = .unified s) : Unified b c d s := by
  unfold unifyHeads at found
  split at found
  · -- two variables
    rename_i name constraint name' constraint'
    split at found
    · rename_i names
      cases found
      subst names
      exact unified_self fun t free => Bindings.same_substitute_var free
    · exact unified_bind (Unification.ofOption_eq_unified.mp found)
  · exact unified_bind (Unification.ofOption_eq_unified.mp found)
  · exact (unified_bind (Unification.ofOption_eq_unified.mp found)).symm
  · -- two expressions
    split at found
    · rename_i lengths
      exact unified_each each lengths found
    · cases found
  · -- two symbols
    split at found
    · rename_i names
      cases found
      subst names
      exact unified_self fun t free => same_self_iff.mpr free
    · cases found
  · -- two literals
    split at found
    · rename_i equal
      cases found
      exact unified_self fun t _ => equal
    · cases found
  · cases found

/-- What the bindings at hand are applied to beforehand is unified along with the result. -/
theorem Unified.of_apply (unified : Unified b (b.apply x) (b.apply y) s) : Unified b x y s where
  kept := unified.kept
  within Good leafwise good good' within :=
    unified.within Good leafwise (leafwise.apply within good) (leafwise.apply within good') within
  general t equal solved := by
    have left := solved.same_apply (same_self_iff.mp (equal.trans equal.symm))
    have right := solved.same_apply (same_self_iff.mp (equal.symm.trans equal))
    exact unified.general t ((left.symm.trans equal).trans right) solved
  equal t free free' solved := by
    have before := unified.kept.solvedBy solved
    have left := before.same_apply free
    have right := before.same_apply free'
    have equal := unified.equal t (same_self_iff.mp (left.symm.trans left))
      (same_self_iff.mp (right.symm.trans right)) solved
    exact (left.trans equal).trans right.symm

theorem unified_of_unifyInto (found : unifyInto levels b x y = .unified s) : Unified b x y s := by
  induction levels generalizing b x y s with
  | zero => cases found
  | succ levels ih => exact (unified_heads (fun _ _ _ _ => ih) found).of_apply

theorem Unifies.unified (unifies : Unifies b x y s) : Unified b x y s := by
  obtain ⟨levels, found⟩ := unifies
  exact unified_of_unifyInto found

/-! ## Solutions -/

/-- **The bindings found have the solutions of the equation**, among the assignments without a
NaN that solve the old bindings. -/
theorem Unifies.solvedBy_iff (unifies : Unifies b x y s) (free : x.NaNFree) (free' : y.NaNFree)
    (values : ∀ name value, t name = some value → value.NaNFree) :
    s.SolvedBy t ↔ b.SolvedBy t ∧ Same (x.substitute t) (y.substitute t) := by
  have unified := unifies.unified
  have instance_free {a : Atom} (free : a.NaNFree) : (a.substitute t).NaNFree :=
    leafwise_nanFree.substitute values free
  constructor
  · intro solved
    exact ⟨unified.kept.solvedBy solved,
      unified.equal t (instance_free free) (instance_free free') solved⟩
  · rintro ⟨solved, equal⟩
    exact unified.general t equal solved

/-- Two atoms unified in either order give bindings with the same solutions. -/
theorem Unifies.solvedBy_swap (unifies : Unifies b x y s) (swapped : Unifies b y x s')
    (free : x.NaNFree) (free' : y.NaNFree)
    (values : ∀ name value, t name = some value → value.NaNFree) :
    s.SolvedBy t ↔ s'.SolvedBy t := by
  rw [unifies.solvedBy_iff free free' values, swapped.solvedBy_iff free' free values]
  exact and_congr_right fun _ => ⟨Same.symm, Same.symm⟩

/-- **Unification is most general, and solves the equation once its bindings are chased.**  What was
bound stays bound to the same atom.  Every assignment that makes the two atoms equal and solves the
old bindings solves the new ones.  Bindings in which no name leads back to itself can be applied
until nothing changes, and by then the two atoms have become equal. -/
theorem unifies_most_general (unifies : Unifies b x y s) :
    b.Extends s ∧
      (∀ t, Same (x.substitute t) (y.substitute t) → b.SolvedBy t → s.SolvedBy t) ∧
      (x.NaNFree → y.NaNFree → b.Within NaNFree → s.Acyclic →
        s.apply (s.chase x) = s.chase x ∧ s.apply (s.chase y) = s.chase y ∧
          Same (s.chase x) (s.chase y)) := by
  have unified := unifies.unified
  refine ⟨unified.kept, unified.general, fun free free' within acyclic => ?_⟩
  refine ⟨acyclic.apply_chase x, acyclic.apply_chase y, ?_⟩
  have values := unified.within NaNFree leafwise_nanFree free free' within
  have left := Bindings.same_substitute_chase values free
  have right := Bindings.same_substitute_chase values free'
  have equal := unified.equal _ (same_self_iff.mp (left.trans left.symm))
    (same_self_iff.mp (right.trans right.symm)) (acyclic.solvedBy_chase values)
  exact (left.symm.trans equal).trans right

/-- One name leads to another, which leads to an expression, and a third was bound beforehand, to a
whole number where the other atom has a float.  Applied once the bindings do not make the atoms
equal. -/
theorem unifies_most_general_chain :
    let g (a : Atom) : Atom := .expr [.symbol "g", a]
    let x : Atom := .expr [.var "x" none, .var "y" none, .var "w" none]
    let y : Atom := .expr [.var "y" none, g (.var "z" none), .ofScalar (.float 2)]
    let b : Bindings := ⟨[("w", .ofScalar (.int 2))], by decide⟩
    let s : Bindings :=
      ⟨[("w", .ofScalar (.int 2)), ("x", .var "y" none), ("y", g (.var "z" none))], by decide⟩
    let t (name : String) : Option Atom :=
      if name = "w" then some (.ofScalar (.int 2)) else if name = "z" then none
      else some (g (.var "z" none))
    Unifies b x y s ∧ s.Acyclic ∧ Same (s.chase x) (s.chase y) ∧ ¬ Same (s.apply x) (s.apply y) ∧
      Same (x.substitute t) (y.substitute t) ∧ b.SolvedBy t ∧ s.SolvedBy t := by
  intro g x y b s t
  have unifies : Unifies b x y s := ⟨2, rfl⟩
  have acyclic : s.Acyclic :=
    Bindings.acyclic_of_rank (fun name => if name = "x" then 2 else if name = "y" then 1 else 0)
      (by decide)
  obtain ⟨-, general, chased⟩ := unifies_most_general unifies
  have within : b.Within NaNFree := by decide
  obtain ⟨-, -, same⟩ := chased (by decide) (by decide) within acyclic
  have equal : Same (x.substitute t) (y.substitute t) := by decide
  have solved : b.SolvedBy t := Bindings.solvedBy_of_entries (by decide)
  exact ⟨unifies, acyclic, same, by decide, equal, solved, general t equal solved⟩

/-- **Resolved bindings make the two atoms equal at once.** -/
theorem same_apply_of_resolved (unifies : Unifies b x y s) (free : x.NaNFree) (free' : y.NaNFree)
    (within : b.Within NaNFree) (resolved : s.Resolved) : Same (s.apply x) (s.apply y) := by
  have values := unifies.unified.within NaNFree leafwise_nanFree free free' within
  exact unifies.unified.equal s.get? (leafwise_nanFree.apply values free)
    (leafwise_nanFree.apply values free') (resolved.solvedBy values)

/-- The variable of the one atom is bound to an expression that keeps its own variable free. -/
theorem same_apply_of_resolved_nested :
    let x : Atom := .expr [.var "x" none, .symbol "a"]
    let y : Atom := .expr [.expr [.symbol "g", .var "z" none], .var "y" none]
    ∃ s, unify .empty x y = some s ∧ s.Resolved ∧ Same (s.apply x) (s.apply y) := by
  intro x y
  let s : Bindings :=
    ⟨[("x", .expr [.symbol "g", .var "z" none]), ("y", .symbol "a")], by decide⟩
  have unified : unify .empty x y = some s := rfl
  have resolved : s.Resolved := by decide
  exact ⟨s, unified, resolved, same_apply_of_resolved (unifies_of_unify unified) (by decide)
    (by decide) Bindings.within_empty resolved⟩

/-- One application may be too few: the first name is bound to a variable that is bound later. -/
theorem unify_apply_differs :
    let x : Atom := .expr [.var "x" none, .var "y" none]
    let y : Atom := .expr [.var "y" none, .symbol "a"]
    x.NaNFree ∧ y.NaNFree ∧ ∃ s, unify .empty x y = some s ∧ ¬ Same (s.apply x) (s.apply y) := by
  intro x y
  let s : Bindings := ⟨[("x", .var "y" none), ("y", .symbol "a")], by decide⟩
  exact ⟨by decide, by decide, s, rfl, by decide⟩

/-! ## Order -/

theorem Ground.apply (ground : x.Ground) (b : Bindings) : b.apply x = x := by
  refine Bindings.apply_eq_self fun name inside => ?_
  rw [ground] at inside
  cases inside

/-- With a ground atom on either side the outcome is the same, and only ground atoms are bound. -/
def Swaps (child : Bindings → Atom → Atom → Unification) : Prop :=
  ∀ b x y, b.Within Ground → y.Ground → child b y x = child b x y ∧
    ∀ s, child b x y = .unified s → s.Within Ground

theorem unifyEach_swaps (swaps : Swaps child) (within : b.Within Ground)
    (ground : ∀ d ∈ ds, d.Ground) :
    unifyEach child b ds cs = unifyEach child b cs ds ∧
      ∀ s, unifyEach child b cs ds = .unified s → s.Within Ground := by
  induction cs generalizing b ds with
  | nil =>
      cases ds with
      | nil => exact ⟨rfl, by rintro _ ⟨⟩; exact within⟩
      | cons d ds => exact ⟨rfl, by rintro _ ⟨⟩⟩
  | cons c cs ih =>
      cases ds with
      | nil => exact ⟨rfl, by rintro _ ⟨⟩⟩
      | cons d ds =>
          obtain ⟨first, others⟩ := List.forall_mem_cons.mp ground
          obtain ⟨same, keeps⟩ := swaps b c d within first
          simp only [unifyEach, same]
          cases found : child b c d with
          | unified b' => exact ih (keeps b' found) others
          | clash => exact ⟨rfl, by rintro _ ⟨⟩⟩
          | exhausted => exact ⟨rfl, by rintro _ ⟨⟩⟩

theorem unifyHeads_var_left {name : String} {constraint : Option Atom} (other : d.kind ≠ .var) :
    unifyHeads child b (.var name constraint) d = .ofOption (b.bind name d) := by
  cases d with
  | var => exact absurd rfl other
  | _ => rfl

theorem unifyHeads_var_right {name : String} {constraint : Option Atom} (other : c.kind ≠ .var) :
    unifyHeads child b c (.var name constraint) = .ofOption (b.bind name c) := by
  cases c with
  | var => exact absurd rfl other
  | _ => rfl

theorem unifyHeads_swaps (swaps : Swaps child) (within : b.Within Ground) (ground : d.Ground) :
    unifyHeads child b d c = unifyHeads child b c d ∧
      ∀ s, unifyHeads child b c d = .unified s → s.Within Ground := by
  have notVar : d.kind ≠ .var := by
    cases d with
    | var => cases ground
    | _ => simp [kind]
  cases c with
  | var name constraint =>
      rw [unifyHeads_var_left notVar, unifyHeads_var_right notVar]
      exact ⟨rfl, fun s found => within.bind ground (Unification.ofOption_eq_unified.mp found)⟩
  | expr cs =>
      cases d with
      | var => exact absurd rfl notVar
      | expr ds =>
          rw [leafwise_ground] at ground
          simp only [unifyHeads, @eq_comm _ ds.length]
          split
          · exact unifyEach_swaps swaps within ground
          · exact ⟨rfl, by rintro _ ⟨⟩⟩
      | _ => exact ⟨rfl, by rintro _ ⟨⟩⟩
  | symbol name =>
      cases d with
      | var => exact absurd rfl notVar
      | symbol name' =>
          simp only [unifyHeads, @eq_comm _ name']
          split
          · exact ⟨trivial, by rintro _ ⟨⟩; exact within⟩
          · exact ⟨trivial, by rintro _ ⟨⟩⟩
      | _ => exact ⟨rfl, by rintro _ ⟨⟩⟩
  | literal k =>
      cases d with
      | var => exact absurd rfl notVar
      | literal l =>
          have same : l.same k = k.same l := Scalar.same_comm l.value k.value
          simp only [unifyHeads, same]
          split
          · exact ⟨trivial, by rintro _ ⟨⟩; exact within⟩
          · exact ⟨trivial, by rintro _ ⟨⟩⟩
      | _ => exact ⟨rfl, by rintro _ ⟨⟩⟩
  | empty | error =>
      cases d with
      | var => exact absurd rfl notVar
      | _ => exact ⟨rfl, by rintro _ ⟨⟩⟩

theorem unifyInto_swaps : Swaps (unifyInto levels) := by
  induction levels with
  | zero => exact fun _ _ _ _ _ => ⟨rfl, by rintro _ ⟨⟩⟩
  | succ levels ih =>
      intro b x y within ground
      simp only [unifyInto, ground.apply b]
      exact unifyHeads_swaps ih within ground

/-- **The order does not matter where one of the atoms is ground.** -/
theorem unify_comm_of_ground (within : b.Within Ground) (x : Atom) {y : Atom} (ground : y.Ground) :
    unify b x y = unify b y x := by
  have levels : unifyLevels b x y = unifyLevels b y x := by
    simp only [unifyLevels, Nat.add_comm x.walk.length]
  rw [unify, unify, levels, (unifyInto_swaps b x y within ground).1]

/-- A repeated variable meets an expression and then an equal one, from either side. -/
theorem unify_comm_of_ground_repeated :
    let g (a : Atom) : Atom := .expr [.symbol "g", a]
    let x : Atom := .expr [.var "x" none, .var "x" none]
    let y : Atom := .expr [g (.ofScalar (.int 2)), g (.ofScalar (.float 2))]
    y.Ground ∧ (unify .empty x y).isSome = true ∧ unify .empty x y = unify .empty y x := by
  intro g x y
  have ground : y.Ground := by decide
  exact ⟨ground, rfl, unify_comm_of_ground Bindings.within_empty x ground⟩

/-- In general the order matters.  When the third children are compared the variable of the one
stands for a variable that is bound already, and the free variable of the other is compared with
its value instead of bound to it. -/
theorem unify_order_matters :
    let x : Atom := .expr [.var "x" none, .var "x" none, .var "x" none]
    let y : Atom := .expr [.var "y" none, .symbol "a", .var "z" none]
    x.NaNFree ∧ y.NaNFree ∧ Ends .empty x y ∧ (¬ ∃ s, Unifies .empty x y s) ∧
      ∃ s, Unifies .empty y x s := by
  intro x y
  have clash : unifyInto 2 .empty x y = .clash := rfl
  have ended : unifyInto 2 .empty x y ≠ .exhausted := by simp [clash]
  refine ⟨by decide, by decide, ⟨2, ended⟩, ?_, ?_⟩
  · rintro ⟨s, levels, unified⟩
    have agree := unifyInto_eq_of_ended ended (by simp [unified] : unifyInto levels .empty x y ≠ _)
    rw [clash, unified] at agree
    cases agree
  · exact ⟨⟨[("y", .var "x" none), ("x", .symbol "a"), ("z", .symbol "a")], by decide⟩, 2, rfl⟩

end Atom

end Metta
