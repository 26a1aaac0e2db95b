/-
# Metta.Proofs.Rereading -- what comes back of what a host may put in

Host programs put atoms into a space that no text stands for: variables with a type
constraint, and truth values.  Both are written, the one as a typing expression, the other
as the word for it, and what is written can be read (`Atom.Printable`).  But it is read as
the expression that it looks like, and as a symbol (`Atom.reread`).

Reading therefore undoes writing up to these two (`Atom.Printable.parse_render_eq`): the
atom read is written alike (`Atom.render_reread`), it is legible, and its parentheses are
those of the written form.
-/
import Metta.Proofs.RoundTrip

namespace Metta.Atom

set_option autoImplicit false

variable {a : Atom}

/-! ## Atoms that are written as something -/

/-- The atom holds truth values, variables with a constraint of the same kind, and besides them only
leaves that source text has a form for. -/
inductive Printable : Atom → Prop
  | leaf {a : Atom} (readable : a.isReadableLeaf = true) : Printable a
  | truth (b : Bool) : Printable (.ofScalar (.truth b))
  | constrained {name : String} {type : Atom} (named : Token.isName name.toList = true)
      (inner : Printable type) : Printable (.var name (some type))
  | expr {cs : List Atom} (children : ∀ c ∈ cs, Printable c) : Printable (.expr cs)

mutual

/-- How many parentheses are open at a time in the written form of the atom, whatever it is. -/
def parentheses : Atom → Nat
  | .expr cs => parenthesesAll cs + 1
  | .var _ (some type) => type.parentheses + 1
  | .error _ (some source) => source.parentheses + 1
  | .empty | .error _ none => 1
  | .symbol _ | .var _ none | .literal _ => 0

def parenthesesAll : List Atom → Nat
  | [] => 0
  | c :: cs => max c.parentheses (parenthesesAll cs)

end

mutual

/-- What the written form of the atom is read as. -/
def reread : Atom → Atom
  | .var name (some type) => .expr [.symbol ":", .var name none, type.reread]
  | .literal ⟨.truth b, _⟩ => .symbol (if b then "true" else "false")
  | .expr cs => .expr (rereadAll cs)
  | a => a

def rereadAll : List Atom → List Atom
  | [] => []
  | c :: cs => c.reread :: rereadAll cs

end

theorem rereadAll_eq_map (cs : List Atom) : rereadAll cs = cs.map reread := by
  induction cs with
  | nil => rfl
  | cons c cs ih => rw [rereadAll, ih, List.map_cons]

theorem reread_leaf (readable : a.isReadableLeaf = true) : a.reread = a := by
  cases a with
  | var name constraint =>
      cases constraint with
      | none => rfl
      | some type => cases readable
  | literal l =>
      obtain ⟨value, tag⟩ := l
      cases value with
      | truth b => simp [isReadableLeaf, Literal.isReadable] at readable
      | _ => rfl
  | expr cs => cases readable
  | _ => rfl

theorem parentheses_leaf (readable : a.isReadableLeaf = true) : a.parentheses = 0 := by
  cases a with
  | var name constraint =>
      cases constraint with
      | none => rfl
      | some type => cases readable
  | symbol | literal => rfl
  | expr | empty | error => cases readable

/-! ## What is read instead -/

namespace Printable

theorem isWritable (printable : a.Printable) : a.isWritable = true := by
  induction printable with
  | leaf readable => exact isWritable_of_isReadableLeaf readable
  | truth b => rfl
  | constrained named inner ih => exact ih
  | expr children ih =>
      rw [isWritable_expr, List.all_eq_true]
      exact ih

/-- What is read instead can be read. -/
theorem legible_reread (printable : a.Printable) : a.reread.Legible := by
  induction printable with
  | leaf readable =>
      rw [reread_leaf readable]
      exact (legible_leaf (kind_of_isReadableLeaf readable)).mpr readable
  | truth b =>
      have word : (Atom.symbol (if b then "true" else "false")).isReadableLeaf = true := by
        cases b <;> decide
      exact (legible_leaf (kind_of_isReadableLeaf word)).mpr word
  | @constrained name type named _ ih =>
      have colon : (Atom.symbol ":").isReadableLeaf = true := by decide
      have plain : (Atom.var name none).isReadableLeaf = true := named
      rw [reread, leafwise_legible]
      simp only [List.forall_mem_cons, List.not_mem_nil, false_implies, implies_true, and_true]
      exact ⟨(legible_leaf (kind_of_isReadableLeaf colon)).mpr colon,
        (legible_leaf (kind_of_isReadableLeaf plain)).mpr plain, ih⟩
  | expr children ih =>
      rw [reread, rereadAll_eq_map, leafwise_legible, List.forall_mem_map]
      exact ih

/-- It is written with the parentheses that are there. -/
theorem nesting_reread (printable : a.Printable) : a.reread.nesting = a.parentheses := by
  induction printable with
  | @leaf a readable =>
      rw [reread_leaf readable, parentheses_leaf readable,
        nesting_leaf (kind_of_isReadableLeaf readable)]
  | truth b => rfl
  | constrained named inner ih => simp [reread, nesting, nestingAll, parentheses, ih]
  | @expr cs children ih =>
      have inside : nestingAll (cs.map reread) = parenthesesAll cs := by
        clear children
        induction cs with
        | nil => rfl
        | cons c cs again =>
            obtain ⟨first, others⟩ := List.forall_mem_cons.mp ih
            rw [List.map_cons, nestingAll, parenthesesAll, first, again others]
      rw [reread, rereadAll_eq_map, nesting, parentheses, inside]

end Printable

theorem renderAll_map {f : Atom → Atom} {cs : List Atom}
    (alike : ∀ c ∈ cs, (f c).render = c.render) : renderAll (cs.map f) = renderAll cs := by
  induction cs with
  | nil => rfl
  | cons c cs ih =>
      obtain ⟨first, others⟩ := List.forall_mem_cons.mp alike
      cases cs with
      | nil => exact first
      | cons d ds =>
          have tail := ih others
          simp only [List.map_cons] at tail ⊢
          simp only [renderAll, first, tail]

/-- **What is read is written alike.** -/
theorem Printable.render_reread (printable : a.Printable) : a.reread.render = a.render := by
  induction printable with
  | leaf readable => rw [reread_leaf readable]
  | truth b => cases b <;> rfl
  | constrained named inner ih =>
      rw [reread, render, render, ← String.toList_inj]
      simp [renderAll, render, ih]
  | expr children ih => rw [reread, rereadAll_eq_map, render, render, renderAll_map ih]

theorem Printable.parse_render_eq (printable : a.Printable)
    (shallow : a.parentheses ≤ Reader.defaultLimit) : parse a.render = .ok [a.reread] := by
  have readable : a.reread.Readable :=
    ⟨printable.legible_reread, printable.nesting_reread ▸ shallow⟩
  exact printable.render_reread ▸ readable.parse_render_eq

/-! ## What comes back -/

def isTruthValue : Atom → Bool
  | .literal ⟨.truth _, _⟩ => true
  | _ => false

theorem nanFree_of_isReadableLeaf (readable : a.isReadableLeaf = true) : a.NaNFree := by
  refine (nanFree_leaf (kind_of_isReadableLeaf readable)).mpr ?_
  cases a with
  | literal l =>
      rw [isNaN]
      rcases Literal.key?_of_isReadable readable with ⟨q, key⟩ | ⟨s, key⟩ <;> rw [key] <;> rfl
  | _ => rfl

theorem nanFree_of_legible (legible : a.Legible) : a.NaNFree := by
  induction a with
  | expr cs ih =>
      rw [leafwise_legible] at legible
      exact (leafwise_nanFree cs).mpr fun c member => ih c member (legible c member)
  | _ => exact nanFree_of_isReadableLeaf ((legible_leaf (by simp [kind])).mp legible)

/-- Truth values and variables with a constraint do not come back, everything else does. -/
theorem Printable.same_reread_iff (printable : a.Printable) :
    Same a.reread a ↔ a.Each fun s => s.isTruthValue = false ∧ s.isConstrained = false := by
  induction printable with
  | @leaf a readable =>
      rw [reread_leaf readable, each_leaf (kind_of_isReadableLeaf readable)]
      refine iff_of_true (same_self_iff.mpr (nanFree_of_isReadableLeaf readable)) ?_
      cases a with
      | var name constraint =>
          cases constraint with
          | none => exact ⟨rfl, rfl⟩
          | some type => cases readable
      | literal l =>
          obtain ⟨value, tag⟩ := l
          cases value with
          | truth b => simp [isReadableLeaf, Literal.isReadable] at readable
          | _ => exact ⟨rfl, rfl⟩
      | _ => exact ⟨rfl, rfl⟩
  | truth b =>
      rw [each_leaf (by rintro ⟨⟩)]
      exact iff_of_false (by rintro ⟨⟩) (by rintro ⟨⟨⟩, -⟩)
  | constrained named inner ih =>
      rw [each_leaf (by rintro ⟨⟩)]
      exact iff_of_false (by rintro ⟨⟩) (by rintro ⟨-, ⟨⟩⟩)
  | expr children ih =>
      rw [reread, rereadAll_eq_map, same_expr, List.forall₂_map_left_iff, List.forall₂_same,
        leafwise_each fun _ => ⟨rfl, rfl⟩]
      exact forall₂_congr ih

/-- **The written form is read as what it looks like.**  The atom holds neither `empty` nor an
error, its names can be read, its whole numbers are not too long, its floats are finite and its tags
belong to its values; its variables may have constraints.  Such an atom has a written form.  Nested
no deeper than text may be, from that one atom is read, with typing expressions and words in place
of constraints and truth values; and it is equal to the atom written exactly if none of these stands
in it. -/
theorem parse_reread (printable : a.Printable) (shallow : a.parentheses ≤ Reader.defaultLimit) :
    a.written = .ok a.render ∧ parse a.render = .ok [a.reread] ∧
      (Same a.reread a ↔
        a.Each fun s => s.isTruthValue = false ∧ s.isConstrained = false) := by
  refine ⟨?_, printable.parse_render_eq shallow, printable.same_reread_iff⟩
  rw [written_eq_ok_iff]
  exact ⟨printable.isWritable, rfl⟩

/-- Leaves of every kind that comes back, and one whose constraint and truth value do not. -/
theorem parse_reread_constrained :
    let a : Atom := .expr [.symbol "p", .var "x" none, .ofScalar (.int 1), .ofScalar (.float 0.5),
      .ofScalar (.text "(")]
    let b : Atom := .expr [.var "x" (some (.expr [.symbol "->", .ofScalar (.truth false)]))]
    (parse a.render = .ok [a.reread] ∧ Same a.reread a) ∧
      parse b.render = .ok [.expr [.expr [.symbol ":", .var "x" none,
        .expr [.symbol "->", .symbol "false"]]]] ∧ ¬ Same b.reread b := by
  intro a b
  have printable : a.Printable := by
    refine .expr ?_
    have leaves : ∀ c ∈ [Atom.symbol "p", .var "x" none, .ofScalar (.int 1),
        .ofScalar (.float 0.5), .ofScalar (.text "(")], c.isReadableLeaf = true := by decide
    exact fun c member => .leaf (leaves c member)
  have typed : b.Printable := by
    refine .expr (List.forall_mem_singleton.mpr (.constrained (by decide) (.expr ?_)))
    simp only [List.forall_mem_cons, List.not_mem_nil, false_implies, implies_true, and_true]
    exact ⟨.leaf (by decide), .truth false⟩
  obtain ⟨-, read, same⟩ := parse_reread printable (by decide)
  obtain ⟨-, read', same'⟩ := parse_reread typed (by decide)
  exact ⟨⟨read, same.mpr (by decide)⟩, read', fun equal => absurd (same'.mp equal) (by decide)⟩

/-- A truth value is read as a symbol, and a constrained variable as an expression. -/
theorem truth_read_as_symbol :
    let yes : Atom := .ofScalar (.truth true)
    let x : Atom := .var "x" (some (.symbol "Number"))
    (yes.Printable ∧ yes.parentheses ≤ 200 ∧
      parse yes.render = .ok [.symbol "true"] ∧ ¬ Same (.symbol "true") yes) ∧
    (x.Printable ∧ x.parentheses ≤ 200 ∧
      parse x.render = .ok [.expr [.symbol ":", .var "x" none, .symbol "Number"]] ∧
      ¬ Same (.expr [.symbol ":", .var "x" none, .symbol "Number"]) x) := by
  intro yes x
  have truth : yes.Printable := .truth true
  have typed : x.Printable := .constrained (by decide) (.leaf (by decide))
  refine ⟨⟨truth, by decide, truth.parse_render_eq (by decide), by decide⟩,
    typed, by decide, typed.parse_render_eq (by decide), by decide⟩

end Metta.Atom
