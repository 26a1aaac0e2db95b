/-
# Metta.Proofs.Spelled -- atoms whose parts can be read

An atom is spelled (`Atom.Spelled`) if every leaf in it has a form in source text, unless
it is `empty` or an error.  Unlike legibility, this is asked of the sources of errors too,
which are looked at like any other part (`Atom.Inside`).

What is read is spelled, and evaluation makes nothing else of what is spelled
(`Atom.closed_spelled`).  A part of a spelled atom in which neither `empty` nor an error
stands is legible, and so it is read back from its written form
(`Atom.Spelled.parse_render`).
-/
import Metta.Proofs.Coupling
import Metta.Proofs.RoundTrip

namespace Metta.Atom

set_option autoImplicit false

variable {a part : Atom}

/-! ## Parts -/

/-- `Inside part whole`: the part is the whole, or stands in it, be it in the source of an error or
in a type constraint. -/
inductive Inside (part : Atom) : Atom → Prop
  | root : Inside part part
  | child {c : Atom} {cs : List Atom} (member : c ∈ cs) (inside : Inside part c) :
      Inside part (.expr cs)
  | source {message : String} {source : Atom} (inside : Inside part source) :
      Inside part (.error message (some source))
  | constraint {name : String} {type : Atom} (inside : Inside part type) :
      Inside part (.var name (some type))

theorem Inside.trans {b c : Atom} (first : Inside a b) (second : Inside b c) : Inside a c := by
  induction second with
  | root => exact first
  | child member _ ih => exact .child member ih
  | source _ ih => exact .source ih
  | constraint _ ih => exact .constraint ih

theorem inside_of_mem_subterms (member : part ∈ a.subterms) : Inside part a := by
  induction a with
  | expr cs ih =>
      rw [subterms_expr, List.mem_cons, List.mem_flatMap] at member
      rcases member with rfl | ⟨c, child, member⟩
      · exact .root
      · exact .child child (ih c child member)
  | _ =>
      rw [subterms_leaf (by simp [kind]), List.mem_singleton] at member
      exact member ▸ .root

/-! ## Spelled atoms -/

/-- The atom is `empty` or an error.  Only evaluation makes these: source text has no form for
them. -/
def IsOutcome (a : Atom) : Prop := a.kind = .empty ∨ a.kind = .error

instance : DecidablePred IsOutcome := fun a =>
  inferInstanceAs (Decidable (a.kind = .empty ∨ a.kind = .error))

/-- Every leaf inside has a form in source text, or is `empty` or an error. -/
def Spelled (a : Atom) : Prop :=
  ∀ part, Inside part a →
    part.kind = .expression ∨ part.isReadableLeaf = true ∨ part.IsOutcome

theorem leafwise_spelled : Leafwise Spelled := by
  intro cs
  constructor
  · intro spelled c member part inside
    exact spelled part (.child member inside)
  · intro each part inside
    cases inside with
    | root => exact .inl rfl
    | child member inside => exact each _ member part inside

theorem spelled_error {message : String} {source : Atom} (spelled : source.Spelled) :
    (Atom.error message (some source)).Spelled := by
  intro part inside
  cases inside with
  | root => exact .inr (.inr (.inr rfl))
  | source inside => exact spelled part inside

theorem Legible.spelled (legible : a.Legible) : a.Spelled := by
  intro part inside
  induction inside with
  | root =>
      by_cases leaf : part.kind = .expression
      · exact .inl leaf
      · exact .inr (.inl ((legible_leaf leaf).mp legible))
  | child member _ ih => exact ih ((leafwise_legible _).mp legible _ member)
  | source | constraint =>
      rw [legible_leaf (by simp [kind])] at legible
      cases legible

theorem Spelled.legible (spelled : a.Spelled) (plain : a.Each fun s => ¬ s.IsOutcome) :
    a.Legible := by
  intro s member
  rcases spelled s (inside_of_mem_subterms member) with expression | readable | outcome
  · exact .inl expression
  · exact .inr readable
  · exact absurd outcome (plain s member)

/-- What is spelled can be written, whatever stands in the source of an error. -/
theorem Spelled.isWritable : (a : Atom) → a.Spelled → a.isWritable = true
  | .expr cs, spelled => by
      rw [isWritable_expr, List.all_eq_true]
      exact fun c member => isWritable c ((leafwise_spelled cs).mp spelled c member)
  | .error _ (some source), spelled =>
      isWritable source fun part inside => spelled part (.source inside)
  | .error _ none, _ => rfl
  | .empty, _ => rfl
  | .symbol _, spelled | .var _ _, spelled | .literal _, spelled => by
      have readable := spelled _ .root
      simp only [IsOutcome, kind, reduceCtorEq, or_self, or_false, false_or] at readable
      exact isWritable_of_isReadableLeaf readable

/-- Evaluation makes nothing of its own accord that source text has no form for, `empty` and errors
apart. -/
theorem closed_spelled : Closed Spelled where
  leafwise := leafwise_spelled
  empty := by
    intro part inside
    cases inside
    exact .inr (.inr (.inl rfl))
  error _ _ _ := spelled_error
  truth b := by
    have legible : (ofBool b).Legible := by
      rw [legible_leaf (by rintro ⟨⟩)]
      cases b <;> decide
    exact legible.spelled
  number x finite := by
    have legible : (ofScalar (.float x)).Legible := by
      rw [legible_leaf (by rintro ⟨⟩)]
      simp [isReadableLeaf, Literal.isReadable, ofScalar, Literal.ofScalar, Scalar.tag, finite]
    exact legible.spelled

theorem spelled_of_parse {text : String} {as : List Atom} (ok : parse text = .ok as) :
    ∀ a ∈ as, a.Spelled :=
  fun a member => (readable_of_parse ok a member).1.spelled

/-- **What is spelled is read back**, part by part. -/
theorem Spelled.parse_render (spelled : a.Spelled) (inside : Inside part a)
    (plain : part.Each fun s => ¬ s.IsOutcome) (shallow : part.nesting ≤ Reader.defaultLimit) :
    part.written = .ok part.render ∧ parse part.render = .ok [part] := by
  have legible : part.Legible :=
    Spelled.legible (fun s within => spelled s (within.trans inside)) plain
  exact ⟨legible.written_eq, Readable.parse_render_eq ⟨legible, shallow⟩⟩

end Metta.Atom
