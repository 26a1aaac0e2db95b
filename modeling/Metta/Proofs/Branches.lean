/-
# Metta.Proofs.Branches -- the order in which branches are enumerated

A chain of bindings is evaluated breadth first: pair by pair, the list of all branches is
rebuilt.  Read depth first (`Eval.depthFirst`) it says something simpler: for each value of
the first pair, in order, everything that the rest of the chain comes to.  The two do the
same evaluations in another order, so they agree where these cannot influence each other.

Evaluating harmless atoms changes nothing but the log, and the log is not looked at.  Such
an evaluation stands for its answer, or for its failure to write something
(`Eval.Settles`).  Of answers that may be missing it does not matter in which order they
are asked for, and there the two orders are the same list (`Eval.gather_bind`).
-/
import Metta.Proofs.Frozen

namespace Metta.Eval

set_option autoImplicit false

open Coupling

variable {α β γ : Type} {spaces : List Space}

/-! ## Chains of bindings -/

/-- A well-formed pair of a chain. -/
structure Pair where
  name : String
  constraint : Option Atom
  value : Atom

def Pair.atom (p : Pair) : Atom := .expr [.var p.name p.constraint, p.value]

/-- The form that binds the pairs one after the other. -/
def chainForm (pairs : List Pair) (body : Atom) : Atom :=
  .expr [.symbol "let*", .expr (pairs.map Pair.atom), body]

/-- All results of the body below one branch: for every value of the next pair, in order, those
below the branch in which its name stands for this value, whatever it stood for. -/
def depthFirst (eval : Atom → Eval (List Atom)) (body : Atom) :
    List Pair → Bindings → Eval (List Atom)
  | [], b => eval (b.apply body)
  | p :: pairs, b => do
    let values ← eval (b.apply p.value)
    collect (fun v => depthFirst eval body pairs (b.set p.name v)) values

section Shadowing

variable {eval : Atom → Eval (List Atom)} {body : Atom} {pairs : List Pair}

/-- Of a branch only what its names stand for matters. -/
theorem depthFirst_congr {b b' : Bindings} (same : b.get? = b'.get?) :
    depthFirst eval body pairs b = depthFirst eval body pairs b' := by
  induction pairs generalizing b b' with
  | nil => rw [depthFirst, depthFirst, Bindings.apply, Bindings.apply, same]
  | cons p pairs ih =>
      have below (v : Atom) : depthFirst eval body pairs (b.set p.name v) =
          depthFirst eval body pairs (b'.set p.name v) := by
        refine ih ?_
        funext x
        rw [Bindings.get?_set, Bindings.get?_set, same]
      simp only [depthFirst, Bindings.apply, same, below]

/-- A later pair hides what its name stood for. -/
theorem depthFirst_set_set (b : Bindings) (name : String) (v v' : Atom) :
    depthFirst eval body pairs ((b.set name v).set name v') =
      depthFirst eval body pairs (b.set name v') := by
  refine depthFirst_congr ?_
  funext x
  simp only [Bindings.get?_set]
  by_cases here : x = name
  · rw [if_pos here, if_pos here]
  · rw [if_neg here, if_neg here, if_neg here]

end Shadowing

/-- All results of an atom whose evaluation is started at a depth. -/
def interpretAt (settings : Settings) (self : String) (depth : Nat) : Atom → Eval (List Atom) :=
  evaluate settings self (settings.maxDepth + 1 - depth).toNat depth

variable {settings : Settings} {self : String} {depth : Nat}

theorem interpretAt_of_le (within : depth ≤ settings.maxDepth) (a : Atom) :
    interpretAt settings self depth a =
      step (.quiet settings self depth) (interpretAt settings self (depth + 1)) a := by
  have levels : (settings.maxDepth + 1 - depth).toNat =
      (settings.maxDepth + 1 - (depth + 1 : Nat)).toNat + 1 := by omega
  rw [interpretAt, levels]
  rfl

theorem interpretAt_of_lt (beyond : settings.maxDepth < depth) (a : Atom) :
    interpretAt settings self depth a = pure [depthFault settings a] := by
  have levels : (settings.maxDepth + 1 - depth).toNat = 0 := by omega
  rw [interpretAt, levels]
  rfl

theorem interpretAt_zero : interpretAt settings self 0 = interpret settings self := by
  have levels : (settings.maxDepth + 1 - (0 : Nat)).toNat = settings.levels := by
    unfold Settings.levels
    omega
  rw [interpretAt, levels]
  rfl

/-! ## Answers that may be missing -/

/-- All results of `g` on the members of a list, from left to right, if none is missing. -/
def gather (g : α → Option (List β)) (xs : List α) : Option (List β) :=
  (xs.mapM g).map List.flatten

theorem gather_nil (g : α → Option (List β)) : gather g [] = some [] := rfl

theorem gather_cons (g : α → Option (List β)) (x : α) (xs : List α) :
    gather g (x :: xs) = (g x).bind fun first => (gather g xs).map (first ++ ·) := by
  rw [gather, gather, List.mapM_cons]
  cases g x with
  | none => rfl
  | some first => cases xs.mapM g <;> rfl

theorem gather_append (g : α → Option (List β)) (xs ys : List α) :
    gather g (xs ++ ys) = (gather g xs).bind fun as => (gather g ys).map (as ++ ·) := by
  induction xs with
  | nil => cases ys' : gather g ys <;> simp [gather_nil, ys']
  | cons x xs ih =>
      rw [List.cons_append, gather_cons, gather_cons, ih]
      cases g x with
      | none => rfl
      | some first =>
          cases gather g xs with
          | none => rfl
          | some as => cases gather g ys <;> simp

theorem gather_map (g : β → Option (List γ)) (f : α → β) (xs : List α) :
    gather g (xs.map f) = gather (fun x => g (f x)) xs := by
  induction xs with
  | nil => rfl
  | cons x xs ih => rw [List.map_cons, gather_cons, gather_cons, ih]

theorem forall_mem_gather {P : β → Prop} {g : α → Option (List β)} {xs : List α} {ys : List β}
    (all : ∀ x ∈ xs, ∀ as, g x = some as → ∀ y ∈ as, P y) (gathered : gather g xs = some ys) :
    ∀ y ∈ ys, P y := by
  induction xs generalizing ys with
  | nil =>
      cases gathered
      exact List.forall_mem_nil _
  | cons x xs ih =>
      obtain ⟨first, others⟩ := List.forall_mem_cons.mp all
      rw [gather_cons, Option.bind_eq_some_iff] at gathered
      obtain ⟨as, here, gathered⟩ := gathered
      obtain ⟨bs, there, rfl⟩ := Option.map_eq_some_iff.mp gathered
      exact List.forall_mem_append.mpr ⟨first as here, ih others there⟩

/-- **The order in which answers are asked for does not matter.**  Level by level or branch by
branch, the same answers come in the same order, and if one is missing, nothing comes. -/
theorem gather_bind (g : α → Option (List β)) (h : β → Option (List γ)) (xs : List α) :
    (gather g xs).bind (gather h) = gather (fun x => (g x).bind (gather h)) xs := by
  induction xs with
  | nil => rfl
  | cons x xs ih =>
      rw [gather_cons, gather_cons, ← ih]
      cases g x with
      | none => rfl
      | some first =>
          -- the answers for the others may be missing, on the one side before those below the first
          cases gather g xs with
          | none => simp
          | some others => simp [gather_append]

/-! ## Evaluations that stand for their answers -/

/-- The evaluation ended in this world, with the answer or since something cannot be written. -/
def Ended : Option α → World → EStateM.Result EvalFault World α → Prop
  | some x, w, r => r = .ok x w
  | none, w, r => ∃ e, r = .error (.unwritable e) w

/-- The answer of an evaluation that has one. -/
def answer? : EStateM.Result EvalFault World α → Option α
  | .ok x _ => some x
  | .error _ _ => none

/-- In every world of these spaces the evaluation ends so, and changes nothing but the log. -/
def Settles (spaces : List Space) (m : Eval α) (answer : Option α) : Prop :=
  ∀ w, w.spaces = spaces → ∃ log, Ended answer { w with log } (m w)

theorem settles_pure (x : α) : Settles spaces (pure x) (some x) :=
  fun w _ => ⟨w.log, rfl⟩

theorem Settles.bind {m : Eval α} {answer : Option α} {f : α → Eval β} {g : α → Option β}
    (first : Settles spaces m answer) (next : ∀ x, answer = some x → Settles spaces (f x) (g x)) :
    Settles spaces (m >>= f) (answer.bind g) := by
  intro w same
  obtain ⟨log, ended⟩ := first w same
  cases answer with
  | none =>
      obtain ⟨e, failed⟩ := ended
      exact ⟨log, e, bind_of_error failed⟩
  | some x =>
      obtain ⟨log', ended'⟩ := next x rfl { w with log } same
      have ran : (m >>= f) w = f x { w with log } := bind_of_ok ended
      exact ⟨log', ran ▸ ended'⟩

theorem Settles.map {m : Eval α} {answer : Option α} (settles : Settles spaces m answer)
    (f : α → β) : Settles spaces (m >>= fun x => pure (f x)) (answer.map f) := by
  rw [Option.map_eq_bind]
  exact settles.bind fun x _ => settles_pure (f x)

theorem settles_collect {f : α → Eval (List Atom)} {g : α → Option (List Atom)} {xs : List α}
    (each : ∀ x ∈ xs, Settles spaces (f x) (g x)) :
    Settles spaces (collect f xs) (gather g xs) := by
  induction xs with
  | nil => exact settles_pure []
  | cons x xs ih =>
      obtain ⟨first, others⟩ := List.forall_mem_cons.mp each
      rw [gather_cons]
      exact first.bind fun as _ => (ih others).map (as ++ ·)

/-- An evaluator that stands for its answers on harmless atoms, which are harmless. -/
structure Stands (spaces : List Space) (eval : Atom → Eval (List Atom))
    (answer : Atom → Option (List Atom)) : Prop where
  settles : ∀ a, a.Harmless → Settles spaces (eval a) (answer a)
  harmless : ∀ a as, a.Harmless → answer a = some as → ∀ b ∈ as, b.Harmless

/-! ## Both orders -/

/-- What depth-first enumeration comes to, by the answers. -/
def branchAnswers (answer : Atom → Option (List Atom)) (body : Atom) :
    List Pair → Bindings → Option (List Atom)
  | [], b => answer (b.apply body)
  | p :: pairs, b =>
    (answer (b.apply p.value)).bind
      (gather fun v => branchAnswers answer body pairs (b.set p.name v))

/-- The answers below all branches are those below the branches that one more pair makes of them. -/
theorem gather_branchAnswers_cons (answer : Atom → Option (List Atom)) (body : Atom) (p : Pair)
    (pairs : List Pair) (bs : List Bindings) :
    gather (branchAnswers answer body (p :: pairs)) bs =
      (gather (fun b => (answer (b.apply p.value)).map (·.map (b.set p.name))) bs).bind
        (gather (branchAnswers answer body pairs)) := by
  rw [gather_bind]
  congr 1
  funext b
  rw [branchAnswers, Option.bind_map]
  congr 1
  funext as
  exact (gather_map _ _ as).symm

namespace Stands

variable {eval : Atom → Eval (List Atom)} {answer : Atom → Option (List Atom)} {body : Atom}
  {pairs : List Pair} (stands : Stands spaces eval answer)

include stands

/-- An atom that is harmless under bindings to harmless atoms. -/
theorem settles_apply {a : Atom} (good : a.Harmless) {b : Bindings}
    (within : b.Within Atom.Harmless) : Settles spaces (eval (b.apply a)) (answer (b.apply a)) :=
  stands.settles _ (Atom.closed_harmless.leafwise.apply within good)

theorem within_set {a : Atom} (good : a.Harmless) {b : Bindings} (within : b.Within Atom.Harmless)
    {as : List Atom} (answered : answer (b.apply a) = some as) (name : String) :
    ∀ v ∈ as, (b.set name v).Within Atom.Harmless := by
  intro v member
  have applied := Atom.closed_harmless.leafwise.apply within good
  exact within.set (stands.harmless _ as applied answered v member)

theorem depthFirst (goods : ∀ p ∈ pairs, p.value.Harmless) (good : body.Harmless) {b : Bindings}
    (within : b.Within Atom.Harmless) :
    Settles spaces (depthFirst eval body pairs b) (branchAnswers answer body pairs b) := by
  induction pairs generalizing b with
  | nil => exact stands.settles_apply good within
  | cons p pairs ih =>
      obtain ⟨first, others⟩ := List.forall_mem_cons.mp goods
      refine (stands.settles_apply first within).bind ?_
      intro as answered
      refine settles_collect ?_
      intro v member
      exact ih others (stands.within_set first within answered p.name v member)

/-- The branches that one pair makes of the branches before it. -/
theorem extendBranches (name : String) {value : Atom} (good : value.Harmless) {bs : List Bindings}
    (within : ∀ b ∈ bs, b.Within Atom.Harmless) :
    Settles spaces (extendBranches eval name value bs)
      (gather (fun b => (answer (b.apply value)).map (·.map (b.set name))) bs) := by
  induction bs with
  | nil => exact settles_pure []
  | cons b bs ih =>
      obtain ⟨first, others⟩ := List.forall_mem_cons.mp within
      rw [gather_cons, Option.bind_map]
      refine (stands.settles_apply good first).bind ?_
      intro as _
      exact (ih others).map _

theorem within_extended {name : String} {value : Atom} (good : value.Harmless)
    {bs bs' : List Bindings} (within : ∀ b ∈ bs, b.Within Atom.Harmless)
    (extended : gather (fun b => (answer (b.apply value)).map (·.map (b.set name))) bs = some bs') :
    ∀ b ∈ bs', b.Within Atom.Harmless := by
  refine forall_mem_gather ?_ extended
  intro b member branches made
  obtain ⟨as, answered, rfl⟩ := Option.map_eq_some_iff.mp made
  exact List.forall_mem_map.mpr (stands.within_set good (within b member) answered name)

/-- Breadth first the same comes out. -/
theorem bindPairs (goods : ∀ p ∈ pairs, p.value.Harmless) (good : body.Harmless)
    {bs : List Bindings} (within : ∀ b ∈ bs, b.Within Atom.Harmless) :
    Settles spaces (bindPairs eval body (pairs.map Pair.atom) bs)
      ((gather (branchAnswers answer body pairs) bs).map orEmpty) := by
  induction pairs generalizing bs with
  | nil =>
      have results := settles_collect fun b member => stands.settles_apply good (within b member)
      exact results.map orEmpty
  | cons p pairs ih =>
      obtain ⟨first, others⟩ := List.forall_mem_cons.mp goods
      have extended := stands.extendBranches p.name first within
      rw [gather_branchAnswers_cons, Option.map_bind]
      refine extended.bind ?_
      intro bs' branches
      exact ih others (stands.within_extended first within branches)

/-- From the branch in which nothing is bound there is one enumeration. -/
theorem bindPairs_empty (goods : ∀ p ∈ pairs, p.value.Harmless) (good : body.Harmless) :
    Settles spaces (Eval.bindPairs eval body (pairs.map Pair.atom) [.empty])
      ((branchAnswers answer body pairs .empty).map orEmpty) := by
  have nothing : ∀ b ∈ [Bindings.empty], b.Within Atom.Harmless :=
    List.forall_mem_singleton.mpr Bindings.within_empty
  have settled := stands.bindPairs goods good nothing
  have single : gather (branchAnswers answer body pairs) [.empty] =
      branchAnswers answer body pairs .empty := by
    rw [gather_cons, gather_nil]
    simp
  rwa [single] at settled

end Stands

/-! ## Evaluations of harmless atoms -/

/-- The worlds hold these spaces.  Evaluations fail only because something cannot be written. -/
def Coupling.unlogged (spaces : List Space) : Coupling where
  rel w w' := w.spaces = spaces ∧ w'.spaces = spaces
  stops _ := False
  fails e := ∃ u, e = .unwritable u

theorem preserves_unlogged {home : String} {w : World}
    (atoms : ∀ s ∈ w.spaces, ∀ a ∈ s.atoms, a.Harmless)
    (rules : ∀ r ∈ (w.space home).rules, r.Decided ∧ r.template.Harmless) :
    (Coupling.unlogged w.spaces).Preserves Atom.Harmless home := by
  refine preserves_of_spaces id (fun _ rel => rel) atoms rules (fun _ e _ => ⟨e, rfl⟩) ?_
  intro r a e decided failed
  exact absurd failed (Rule.Decided.apply_ne_error decided a e)

/-- What is paired with itself stands for its answer in one of the worlds. -/
theorem settles_of_pairs {P : α → Prop} {m : Eval α} {w : World}
    (pairs : (Coupling.unlogged w.spaces).Pairs P m m) :
    Settles w.spaces m (answer? (m w)) ∧ ∀ x, answer? (m w) = some x → P x := by
  constructor
  · intro v same
    have outcomes := pairs w v ⟨rfl, same⟩
    generalize m w = r at outcomes ⊢
    generalize m v = r' at outcomes ⊢
    cases outcomes with
    | @ok x v₁ v' _ rel =>
        have unchanged : v'.spaces = v.spaces := rel.2.trans same.symm
        exact ⟨v'.log, by rw [← unchanged]; rfl⟩
    | @error e v₁ v' rel fails =>
        have unchanged : v'.spaces = v.spaces := rel.2.trans same.symm
        obtain ⟨u, rfl⟩ := fails
        exact ⟨v'.log, u, by rw [← unchanged]⟩
    | stopped given => exact absurd given id
  · intro x answered
    have outcomes := pairs w w ⟨rfl, rfl⟩
    generalize m w = r at outcomes answered
    cases outcomes with
    | ok holds =>
        cases answered
        exact holds
    | error => cases answered
    | stopped given => exact absurd given id

theorem exists_stands {w : World} (unguarded : ∀ r ∈ (w.space self).rules, r.guard = none)
    (templates : ∀ r ∈ (w.space self).rules, r.template.Harmless)
    (atoms : ∀ s ∈ w.spaces, ∀ a ∈ s.atoms, a.Harmless) (settings : Settings) (depth : Nat) :
    ∃ answer, Stands w.spaces (interpretAt settings self depth) answer := by
  have rules : ∀ r ∈ (w.space self).rules, r.Decided ∧ r.template.Harmless :=
    fun r member => ⟨Rule.decided_of_guard_eq_none (unguarded r member), templates r member⟩
  have pairs (a : Atom) (good : a.Harmless) :
      (Coupling.unlogged w.spaces).Answers Atom.Harmless
        (interpretAt settings self depth a) (interpretAt settings self depth a) :=
    evaluate_pairs Atom.closed_harmless (preserves_unlogged atoms rules) settings _ depth good
  exact ⟨fun a => answer? (interpretAt settings self depth a w),
    fun a good => (settles_of_pairs (pairs a good)).1,
    fun a as good answered => (settles_of_pairs (pairs a good)).2 as answered⟩

theorem harmless_chainForm {pairs : List Pair} {body : Atom}
    (form : (chainForm pairs body).Harmless) : (∀ p ∈ pairs, p.value.Harmless) ∧ body.Harmless := by
  have leafwise := Atom.closed_harmless.leafwise
  have parts := (leafwise _).mp form
  refine ⟨?_, parts body (by simp)⟩
  intro p member
  have inside := (leafwise _).mp (parts (.expr (pairs.map Pair.atom)) (by simp)) p.atom
    (List.mem_map_of_mem member)
  exact (leafwise _).mp inside p.value (by simp)

/-- **Chains of bindings enumerate their branches depth first.**  No symbol of a form that changes
spaces occurs in the chain, in a stored atom or in a template of the space evaluated against, and
rules have no guards.  At every depth the chain then answers with the results of depth-first
enumeration, or with `empty` if there are none; where that fails because something cannot be written
it fails so too, though it may come to another such thing first.  Nothing but the log changes.  Evaluating the chain as an atom comes to this,
unless its depth is too great or the step cannot be reported; then that is all that happens.  In the
enumeration a later pair hides what its name stood for. -/
theorem bindings_depthFirst (settings : Settings) (self : String) (depth : Nat) (w : World)
    {pairs : List Pair} {body : Atom} (unguarded : ∀ r ∈ (w.space self).rules, r.guard = none)
    (harmless : (chainForm pairs body).Harmless)
    (templates : ∀ r ∈ (w.space self).rules, r.template.Harmless)
    (atoms : ∀ s ∈ w.spaces, ∀ a ∈ s.atoms, a.Harmless) :
    let eval := interpretAt settings self (depth + 1)
    let form := chainForm pairs body
    (∀ (rest : List Pair) (b : Bindings) (name : String) (v v' : Atom),
      depthFirst eval body rest ((b.set name v).set name v') =
        depthFirst eval body rest (b.set name v')) ∧
    ∃ (answer : Option (List Atom)) (log log' : Log),
      Ended answer { w with log } (depthFirst eval body pairs .empty w) ∧
      Ended (answer.map orEmpty) { w with log := log' }
        (evalForm (.quiet settings self depth) eval form .bindings
          [.expr (pairs.map Pair.atom), body] w) ∧
      (depth ≤ settings.maxDepth → Reportable settings form →
        ∃ log'', Ended (answer.map orEmpty) { w with log := log'' }
          (interpretAt settings self depth form w)) ∧
      (depth ≤ settings.maxDepth → ¬ Reportable settings form →
        ∃ e, form.written = .error e ∧
          interpretAt settings self depth form w = .error (.unwritable e) w) ∧
      (settings.maxDepth < depth →
        interpretAt settings self depth form w = .ok [depthFault settings form] w) := by
  intro eval form
  obtain ⟨answer, stands⟩ := exists_stands unguarded templates atoms settings (depth + 1)
  obtain ⟨values, result⟩ := harmless_chainForm harmless
  have reference := stands.depthFirst values result Bindings.within_empty
  have enumerated := stands.bindPairs_empty values result
  obtain ⟨log, ended⟩ := reference w rfl
  obtain ⟨log', ended'⟩ := enumerated w rfl
  refine ⟨fun _ => depthFirst_set_set, _, log, log', ended, ended', ?_, ?_, ?_⟩
  · intro within reportable
    obtain ⟨log₁, stepped⟩ : ∃ log, step (.quiet settings self depth) eval form w =
        evalHead (.quiet settings self depth) eval "let*" [.expr (pairs.map Pair.atom), body]
          { w with log } := exists_step reportable w
    obtain ⟨log₂, ended''⟩ := enumerated { w with log := log₁ } rfl
    rw [interpretAt_of_le within]
    exact ⟨log₂, stepped ▸ ended''⟩
  · intro within unwritable
    rw [interpretAt_of_le within]
    exact exists_unreported_step unwritable w
  · intro beyond
    rw [interpretAt_of_lt beyond]
    rfl

/-- The values of the first pair vary slowest, and the second pair takes its name from it. -/
theorem bindings_depthFirst_shadowed :
    let one : Atom := .ofScalar (.int 1)
    let two : Atom := .ofScalar (.int 2)
    let x : Atom := .var "x" none
    let p (a : Atom) (name : String) : Atom := .expr [.symbol "p", a, .symbol name]
    let pairs : List Pair := [
      ⟨"x", none, .expr [.symbol "superpose", .expr [one, two]]⟩,
      ⟨"x", none, .expr [.symbol "superpose", .expr [p x "a", p x "b"]]⟩]
    let w : World := ⟨[.named "home"], #[]⟩
    ∃ log, interpret {} "home" (chainForm pairs x) w =
      .ok [p one "a", p one "b", p two "a", p two "b"] { w with log } := by
  intro one two x p pairs w
  have reference : depthFirst (interpretAt {} "home" 1) x pairs .empty w =
      .ok [p one "a", p one "b", p two "a", p two "b"] w := rfl
  have harmless : (chainForm pairs x).Harmless := by decide
  obtain ⟨-, answer, log, -, ended, -, reported, -, -⟩ :=
    bindings_depthFirst {} "home" 0 w (by decide) harmless (by decide) (by decide)
  obtain ⟨log', answered⟩ := reported (by decide) (by decide)
  rw [interpretAt_zero] at answered
  rw [reference] at ended
  cases answer with
  | none =>
      obtain ⟨e, ⟨⟩⟩ := ended
  | some results =>
      injection ended with same _
      subst same
      exact ⟨log', answered⟩

end Metta.Eval
