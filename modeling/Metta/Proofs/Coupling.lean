/-
# Metta.Proofs.Coupling -- two evaluations side by side

A coupling says which worlds correspond, at which faults the first of two evaluations is
given up, which faults both may end in, and which rules they may reduce by.  Two
evaluations are paired (`Coupling.Pairs`) when from corresponding worlds they end in the
same way, with the same answer or a fault they may end in, and in corresponding worlds
again, unless the first one is given up.  Of the answer a property may be stated.

Pairing is kept by sequencing and by collecting.  A coupling preserves a class of atoms
(`Coupling.Preserves`) when corresponding worlds look alike through every name that an
atom of the class can refer to, hold nothing but such atoms there, and still correspond
after the changes that evaluation makes.
-/
import Metta.Proofs.Closure
import Metta.Proofs.Heads

namespace Metta

set_option autoImplicit false

namespace Eval

/-- How two evaluations are compared. -/
structure Coupling where
  /-- The worlds correspond. -/
  rel : World → World → Prop
  /-- The first evaluation is given up at the fault. -/
  stops : EvalFault → Prop
  /-- Both evaluations may end in the fault. -/
  fails : EvalFault → Prop := fun _ => True
  /-- The rule may be among those that both reduce by. -/
  admits : Rule → Prop := Rule.Decided

namespace Coupling

variable {K : Coupling} {α β : Type} {P : α → Prop} {Q : β → Prop}

/-- The outcomes of two evaluations that agree, as far as the first is carried. -/
inductive Outcomes (K : Coupling) (P : α → Prop) :
    EStateM.Result EvalFault World α → EStateM.Result EvalFault World α → Prop
  | ok {x : α} {w w' : World} (holds : P x) (rel : K.rel w w') : Outcomes K P (.ok x w) (.ok x w')
  | error {e : EvalFault} {w w' : World} (rel : K.rel w w') (fails : K.fails e) :
      Outcomes K P (.error e w) (.error e w')
  | stopped {e : EvalFault} {w : World} {r : EStateM.Result EvalFault World α} (stops : K.stops e) :
      Outcomes K P (.error e w) r

/-- From corresponding worlds the two agree, and the answer has the property. -/
def Pairs (K : Coupling) (P : α → Prop) (m m' : Eval α) : Prop :=
  ∀ w w', K.rel w w' → K.Outcomes P (m w) (m' w')

theorem pairs_pure {x : α} (holds : P x) : K.Pairs P (pure x) (pure x) :=
  fun _ _ rel => .ok holds rel

theorem Pairs.bind {m m' : Eval α} {f f' : α → Eval β} (first : K.Pairs P m m')
    (next : ∀ x, P x → K.Pairs Q (f x) (f' x)) : K.Pairs Q (m >>= f) (m' >>= f') := by
  intro w w' rel
  show K.Outcomes Q (EStateM.bind m f w) (EStateM.bind m' f' w')
  unfold EStateM.bind
  have outcomes := first w w' rel
  generalize m w = r at outcomes ⊢
  generalize m' w' = r' at outcomes ⊢
  cases outcomes with
  | ok holds rel => exact next _ holds _ _ rel
  | error rel fails => exact .error rel fails
  | stopped stops => exact .stopped stops

theorem pairs_stopped {e : EvalFault} (stops : K.stops e) (m' : Eval α) :
    K.Pairs P (throw e) m' :=
  fun _ _ _ => .stopped stops

theorem pairs_ofExcept {ε : Type} (fault : ε → EvalFault) (x : Except ε α)
    (holds : ∀ y, x = .ok y → P y) (fails : ∀ e, x = .error e → K.fails (fault e)) :
    K.Pairs P (ofExcept fault x) (ofExcept fault x) := by
  intro w w' rel
  cases x with
  | error e => exact .error rel (fails e rfl)
  | ok y => exact .ok (holds y rfl) rel

/-- What is written can be, unless evaluations may fail for that. -/
def Writes (K : Coupling) (x : Except Unwritable α) : Prop :=
  ∀ e, x = .error e → K.fails (.unwritable e)

theorem pairs_writing {x : Except Unwritable α} (writes : K.Writes x) :
    K.Pairs (fun _ => True) (writing x) (writing x) :=
  pairs_ofExcept _ x (fun _ _ => trivial) writes

theorem writes_pure (x : α) : K.Writes (pure x) := by
  rintro e ⟨⟩

theorem Writes.bind {x : Except Unwritable α} {f : α → Except Unwritable β} (first : K.Writes x)
    (next : ∀ y, K.Writes (f y)) : K.Writes (x >>= f) := by
  intro e failed
  cases x with
  | error e' =>
      cases failed
      exact first e rfl
  | ok y => exact next y e failed

/-- A text that is made of several atoms can be written if they can. -/
theorem writes_writing {as : List Atom} (text : String) (each : ∀ a ∈ as, K.Writes a.written) :
    K.Writes (Atom.writing as text) := by
  intro e failed
  obtain ⟨a, member, written⟩ := Atom.exists_of_writing_eq_error failed
  exact each a member e written

/-- A space that is the same in corresponding worlds. -/
theorem pairs_space {name : String} {P : Space → Prop}
    (same : ∀ {w w'}, K.rel w w' → w'.space name = w.space name)
    (holds : ∀ {w w'}, K.rel w w' → P (w.space name)) :
    K.Pairs P (space name) (space name) := by
  intro w w' rel
  unfold Eval.space
  rw [same rel]
  exact .ok (holds rel) rel

/-- A change after which corresponding worlds still correspond. -/
theorem pairs_changing {f : World → World} (keeps : ∀ {w w'}, K.rel w w' → K.rel (f w) (f w')) :
    K.Pairs (fun _ => True) (fun w => .ok () (f w)) (fun w => .ok () (f w)) :=
  fun _ _ rel => .ok trivial (keeps rel)

/-- All members of the lists have the property. -/
theorem pairs_collect {f f' : α → Eval (List Atom)} {Good : Atom → Prop} {xs : List α}
    (all : ∀ x ∈ xs, K.Pairs (∀ a ∈ ·, Good a) (f x) (f' x)) :
    K.Pairs (∀ a ∈ ·, Good a) (collect f xs) (collect f' xs) := by
  induction xs with
  | nil => exact pairs_pure (by simp)
  | cons x xs ih =>
      obtain ⟨first, others⟩ := List.forall_mem_cons.mp all
      refine first.bind fun as goods => (ih others).bind fun bs goods' => pairs_pure ?_
      exact List.forall_mem_append.mpr ⟨goods, goods'⟩

/-! ## Classes of atoms -/

/-- The space of a name is the one evaluated against, or some symbol of the class refers to it. -/
def Reaches (Good : Atom → Prop) (home name : String) : Prop :=
  name = home ∨ name ≠ "self" ∧ Good (.symbol ("&" ++ name))

/-- Evaluation against the space `home` finds only atoms of the class, leaves corresponding worlds
corresponding, and writes atoms only if it may. -/
structure Preserves (K : Coupling) (Good : Atom → Prop) (home : String) : Prop where
  space : ∀ {w w' name}, K.rel w w' → Reaches Good home name → w.space? name = w'.space? name
  atoms : ∀ {w w' name}, K.rel w w' → Reaches Good home name → ∀ a ∈ (w.space name).atoms, Good a
  rules : ∀ {w w'}, K.rel w w' → ∀ r ∈ (w.space home).rules, K.admits r ∧ Good r.template
  faults : ∀ {r a e}, K.admits r → r.apply a = .error e → K.fails (.guard e)
  report : ∀ {w w'} r, K.rel w w' → K.rel (w.report r) (w'.report r)
  add : ∀ {w w' name a}, Good (.symbol "add-atom") → Reaches Good home name → Good a →
    K.rel w w' → K.rel (w.change name fun s => (s.add a).2) (w'.change name fun s => (s.add a).2)
  remove : ∀ {w w' name a}, Good (.symbol "remove-atom") → Reaches Good home name → Good a →
    K.rel w w' →
    K.rel (w.change name fun s => (s.remove a).2) (w'.change name fun s => (s.remove a).2)
  writes : ∀ {a}, Good a → K.Writes a.written
  addRule : ∀ {w w' r}, Good (.symbol "=") → r.guard = none → Good r.pattern → Good r.template →
    K.rel w w' → K.rel (w.change home (·.addRule r)) (w'.change home (·.addRule r))

theorem Preserves.space_eq {Good : Atom → Prop} {home name : String}
    (preserves : K.Preserves Good home) (reaches : Reaches Good home name) {w w' : World}
    (rel : K.rel w w') : w'.space name = w.space name := by
  rw [World.space, World.space, preserves.space rel reaches]

end Coupling

end Eval

/-- A leafwise class of atoms that holds everything evaluation makes of its own accord.  No error
that it makes is undeserved. -/
structure Atom.Closed (Good : Atom → Prop) : Prop where
  leafwise : Leafwise Good
  empty : Good .empty
  error : ∀ message source, Eval.Deserved message source → Good source →
    Good (.error message (some source))
  truth : ∀ b, Good (.ofBool b)
  number : ∀ x : Float, x.isFinite = true → Good (.ofScalar (.float x))

end Metta
