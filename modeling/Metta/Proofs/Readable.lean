/-
# Metta.Proofs.Readable -- atoms that can be read

An atom is readable if all its leaves have a form in source text and its expressions are
nested no deeper than source text may be (`Atom.Readable`).

Only such atoms are read (`Stack.fits_of_scan`): what a token adds to the stack of the
walk is readable where it stands, with the parentheses that are open around it.

Atom equality does not look at type constraints, and they are all that may keep an atom
from being readable that equals a readable one (`Atom.lax_of_same`).
-/
import Metta.Proofs.Equality
import Metta.Proofs.Lexemes
import Metta.Proofs.Stack

namespace Metta

open Metta.Number

set_option autoImplicit false

/-! ## Readable atoms -/

namespace Atom

mutual

/-- How many parentheses are open at a time in the written form of the atom. -/
def nesting : Atom → Nat
  | .expr cs => nestingAll cs + 1
  | _ => 0

def nestingAll : List Atom → Nat
  | [] => 0
  | c :: cs => max c.nesting (nestingAll cs)

end

theorem nestingAll_le_iff {cs : List Atom} {n : Nat} :
    nestingAll cs ≤ n ↔ ∀ c ∈ cs, c.nesting ≤ n := by
  induction cs with
  | nil => simp [nestingAll]
  | cons c cs ih => simp [nestingAll, ih]

theorem nesting_leaf {a : Atom} (leaf : a.kind ≠ .expression) : a.nesting = 0 := by
  cases a <;> first | rfl | exact absurd rfl leaf

/-- Every leaf has a form in source text. -/
def Legible (a : Atom) : Prop := a.Each fun s => s.kind = .expression ∨ s.isReadableLeaf = true

theorem leafwise_legible : Leafwise Legible := leafwise_each fun _ => .inl rfl

theorem legible_leaf {a : Atom} (leaf : a.kind ≠ .expression) :
    a.Legible ↔ a.isReadableLeaf = true := by
  rw [Legible, each_leaf leaf]
  exact or_iff_right leaf

def isConstrained : Atom → Bool
  | .var _ (some _) => true
  | _ => false

/-- Legible but for type constraints. -/
def Lax (a : Atom) : Prop :=
  a.Each fun s => s.kind = .expression ∨ s.isReadableLeaf = true ∨ s.isConstrained = true

theorem leafwise_lax : Leafwise Lax := leafwise_each fun _ => .inl rfl

theorem lax_leaf {a : Atom} (leaf : a.kind ≠ .expression) :
    a.Lax ↔ a.isReadableLeaf = true ∨ a.isConstrained = true := by
  rw [Lax, each_leaf leaf]
  exact or_iff_right leaf

/-- Legible, and nested no deeper than source text may be. -/
def Readable (a : Atom) : Prop := a.Legible ∧ a.nesting ≤ Reader.defaultLimit

instance (a : Atom) : Decidable a.Readable :=
  inferInstanceAs (Decidable
    ((a.Each fun s => s.kind = .expression ∨ s.isReadableLeaf = true) ∧ _ ≤ _))

/-- There is room for the atom where so many parentheses are open around it. -/
def Fits (limit opened : Nat) (a : Atom) : Prop := a.Legible ∧ opened + a.nesting ≤ limit

variable {limit opened : Nat}

theorem readable_iff_fits {a : Atom} : a.Readable ↔ a.Fits 200 0 := by
  simp [Readable, Fits, Reader.defaultLimit]

theorem room_expr {cs : List Atom} :
    opened + (Atom.expr cs).nesting ≤ limit ↔
      opened < limit ∧ ∀ c ∈ cs, opened + 1 + c.nesting ≤ limit := by
  rw [nesting]
  constructor
  · intro fits
    refine ⟨by omega, fun c member => ?_⟩
    have := nestingAll_le_iff.mp (Nat.le_refl _) c member
    omega
  · rintro ⟨room, fits⟩
    have : nestingAll cs ≤ limit - (opened + 1) := by
      refine nestingAll_le_iff.mpr fun c member => ?_
      have := fits c member
      omega
    omega

theorem fits_expr {cs : List Atom} :
    Fits limit opened (.expr cs) ↔ opened < limit ∧ ∀ c ∈ cs, Fits limit (opened + 1) c := by
  rw [Fits, leafwise_legible, room_expr]
  constructor
  · rintro ⟨legible, room, fits⟩
    exact ⟨room, fun c member => ⟨legible c member, fits c member⟩⟩
  · rintro ⟨room, fits⟩
    exact ⟨fun c member => (fits c member).1, room, fun c member => (fits c member).2⟩

theorem fits_leaf {a : Atom} (leaf : a.kind ≠ .expression) :
    Fits limit opened a ↔ a.isReadableLeaf = true ∧ opened ≤ limit := by
  rw [Fits, legible_leaf leaf, nesting_leaf leaf, Nat.add_zero]

theorem kind_of_isReadableLeaf {a : Atom} (readable : a.isReadableLeaf = true) :
    a.kind ≠ .expression := by
  cases a with
  | expr => cases readable
  | _ => simp [kind]

end Atom

/-! ## Only readable atoms are read -/

namespace Stack

variable {limit : Nat} {cs : List Char} {σ σ' : Stack} {top as : List Atom}
  {outer : List Frame}

/-- Every atom on the stack fits in where it stands. -/
def Fits (limit : Nat) : List Atom → List Frame → Prop
  | top, [] => ∀ a ∈ top, a.Fits limit 0
  | top, f :: fs =>
    (∀ a ∈ top, a.Fits limit (fs.length + 1)) ∧ fs.length < limit ∧ Fits limit f.before fs

theorem fits_append {more : List Atom} :
    Fits limit (top ++ more) outer ↔
      Fits limit top outer ∧ ∀ a ∈ more, a.Fits limit outer.length := by
  cases outer with
  | nil => exact List.forall_mem_append
  | cons f fs =>
      simp only [Fits, List.forall_mem_append, List.length_cons]
      tauto

theorem room_of_fits (fits : Fits limit top outer) : outer.length ≤ limit := by
  cases outer with
  | nil => exact Nat.zero_le limit
  | cons f fs => exact fits.2.1

theorem take_fits {start : Nat} {l : Lexeme} (leaf : ∀ a, l = .leaf a → a.isReadableLeaf = true)
    (taken : σ.take limit start l = .ok σ') (fits : Fits limit σ.top σ.outer) :
    Fits limit σ'.top σ'.outer := by
  unfold take at taken
  split at taken
  · rename_i a
    cases taken
    have readable := leaf a rfl
    have here : a.Fits limit σ.outer.length :=
      (Atom.fits_leaf (Atom.kind_of_isReadableLeaf readable)).mpr ⟨readable, room_of_fits fits⟩
    exact fits_append.mpr ⟨fits, List.forall_mem_singleton.mpr here⟩
  · cases taken
  · split at taken <;> cases taken
    rename_i room
    have free : σ.outer.length < limit := by omega
    exact ⟨List.forall_mem_nil _, free, fits⟩
  · split at taken <;> cases taken
    rename_i f fs opened
    rw [opened] at fits
    obtain ⟨inside, room, below⟩ := fits
    have made := Atom.fits_expr.mpr ⟨room, inside⟩
    exact fits_append.mpr ⟨below, List.forall_mem_singleton.mpr made⟩

/-- Whatever the text, its atoms fit in. -/
theorem fits_of_scan (ok : scan limit 0 cs empty = .ok as) : ∀ a ∈ as, a.Fits limit 0 := by
  have keeps : ∀ t ∈ Token.scan 0 0 cs, ∀ σ σ' : Stack, σ.take limit t.start t.lexeme = .ok σ' →
      Fits limit σ.top σ.outer → Fits limit σ'.top σ'.outer := by
    intro t member σ σ' taken fits
    obtain ⟨before, c, after, n, -, -, here⟩ := Token.exists_of_mem_scan 0 0 cs member
    refine take_fits (fun a leaf => ?_) taken fits
    rw [leaf] at here
    exact Token.isReadableLeaf_of_lexemeAt here
  have nothing : Fits limit empty.top empty.outer := List.forall_mem_nil _
  rw [scan_eq_run] at ok
  exact run_ok keeps nothing ok

end Stack

/-! ## What equals a readable atom -/

/-- Tagged by what its value is, and with no more digits than can be read. -/
def Literal.isPlain (l : Literal) : Bool :=
  l.tag == l.value.tag &&
    match l.value with
    | .int n => Decimal.digitCount n.natAbs ≤ Flaw.maxIntegerDigits
    | .float _ | .text _ | .truth _ => true

theorem Literal.key?_of_isReadable {l : Literal} (readable : l.isReadable = true) :
    (∃ q, l.value.key? = some (.number (.finite q))) ∨ ∃ s, l.value.key? = some (.text s) := by
  obtain ⟨value, tag⟩ := l
  cases value with
  | int n => exact .inl ⟨n, rfl⟩
  | float x =>
      simp only [isReadable, Bool.and_eq_true] at readable
      obtain ⟨negative, m, e, parts⟩ := isFinite_iff.mp readable.2
      refine .inl ⟨if negative then -scaled m e else scaled m e, ?_⟩
      simp [Scalar.key?, pointOf?, parts, Reading.point?]
  | text s => exact .inr ⟨s, rfl⟩
  | truth b => simp [isReadable] at readable

/-- What equals a readable literal is readable, if nothing is odd about it. -/
theorem Literal.isReadable_of_same {k l : Literal} (equal : k.same l = true)
    (readable : k.isReadable = true) (plain : l.isPlain = true) : l.isReadable = true := by
  obtain ⟨key, left, right⟩ := Scalar.same_iff.mp equal
  have known := key?_of_isReadable readable
  rw [left, ← right] at known
  obtain ⟨value, tag⟩ := l
  cases value with
  | int n => exact plain
  | float x =>
      have finite : x.isFinite = true := by
        rw [isFinite_iff]
        cases parts : Reading.ofFloat x with
        | nan => simp [Scalar.key?, pointOf?, parts, Reading.point?] at known
        | infinite negative => simp [Scalar.key?, pointOf?, parts, Reading.point?] at known
        | finite negative m e => exact ⟨negative, m, e, rfl⟩
      simp only [isPlain, Bool.and_eq_true] at plain
      simp [isReadable, plain.1, finite]
  | text s => exact plain
  | truth b => simp [Scalar.key?] at known

namespace Atom

/-- If the atom is a literal, nothing is odd about it. -/
def isPlainLeaf : Atom → Bool
  | .literal l => l.isPlain
  | _ => true

theorem Same.nesting_eq {a b : Atom} (equal : Same a b) : a.nesting = b.nesting := by
  induction a generalizing b with
  | expr cs ih =>
      cases b with
      | expr ds =>
          rw [nesting, nesting, Nat.add_right_cancel_iff]
          rw [same_expr] at equal
          induction equal with
          | nil => rfl
          | cons head tail again =>
              rw [nestingAll, nestingAll, ih _ (.head _) head,
                again fun c member => ih c (.tail _ member)]
      | _ => cases equal
  | _ => cases b <;> first | rfl | cases equal

/-- What equals a legible atom is legible but for type constraints. -/
theorem lax_of_same {a b : Atom} (equal : Same a b) (legible : a.Legible)
    (plain : b.Each fun s => s.isPlainLeaf = true) : b.Lax := by
  induction a generalizing b with
  | expr cs ih =>
      cases b with
      | expr ds =>
          rw [leafwise_legible] at legible
          rw [leafwise_each fun _ => rfl] at plain
          rw [leafwise_lax]
          rw [same_expr] at equal
          induction equal with
          | nil => exact List.forall_mem_nil _
          | cons head tail again =>
              obtain ⟨first, others⟩ := List.forall_mem_cons.mp plain
              obtain ⟨first', others'⟩ := List.forall_mem_cons.mp legible
              exact List.forall_mem_cons.mpr ⟨ih _ (.head _) head first' first,
                again (fun c member => ih c (.tail _ member)) others' others⟩
      | _ => cases equal
  | literal k =>
      cases b with
      | literal l =>
          rw [legible_leaf (by simp [kind])] at legible
          rw [each_leaf (by simp [kind])] at plain
          rw [lax_leaf (by simp [kind])]
          exact .inl (Literal.isReadable_of_same equal legible plain)
      | _ => cases equal
  | symbol name =>
      cases b with
      | symbol name' =>
          obtain rfl : name = name' := by simpa [Same, same] using equal
          rw [legible_leaf (by simp [kind])] at legible
          exact (lax_leaf (by simp [kind])).mpr (.inl legible)
      | _ => cases equal
  | var name constraint =>
      cases b with
      | var name' constraint' =>
          obtain rfl : name = name' := by simpa [Same, same] using equal
          rw [legible_leaf (by simp [kind])] at legible
          rw [lax_leaf (by simp [kind])]
          cases constraint' with
          | none =>
              cases constraint with
              | none => exact .inl legible
              | some type => cases legible
          | some type => exact .inr rfl
      | _ => cases equal
  | empty | error =>
      rw [legible_leaf (by simp [kind])] at legible
      cases legible

/-- No tag asks for a form that a readable leaf does not have. -/
theorem isWritable_of_isReadableLeaf {a : Atom} (readable : a.isReadableLeaf = true) :
    a.isWritable = true := by
  cases a with
  | literal l =>
      obtain ⟨value, tag⟩ := l
      simp only [isReadableLeaf, Literal.isReadable, Bool.and_eq_true, beq_iff_eq] at readable
      obtain ⟨rfl, short⟩ := readable
      cases value with
      | int n =>
          have fits := of_decide_eq_true short
          simp [isWritable, fault?, Literal.fault?, Scalar.tag, fits]
      | _ => rfl
  | var name constraint =>
      cases constraint with
      | none => rfl
      | some type => cases readable
  | symbol => rfl
  | expr | empty | error => cases readable

theorem isWritable_of_legible {a : Atom} (legible : a.Legible) : a.isWritable = true := by
  induction a with
  | expr cs ih =>
      rw [leafwise_legible] at legible
      rw [isWritable_expr, List.all_eq_true]
      exact fun c member => ih c member (legible c member)
  | _ => exact isWritable_of_isReadableLeaf ((legible_leaf (by simp [kind])).mp legible)

end Atom

end Metta
