/-
# Metta.Proofs.Priority -- the rules of a space, told from its history

Rules come into a space one at a time, by a call or by the evaluation of a form that
defines one, while atoms are added, removed and cleared away (`World.Event`).  Each rule is
put behind those whose priority is at least its own.  After any history the rules are
those that came in, in the order in which they came, sorted once and stably by descending
priority (`World.rules_replay`).

Lists in descending order of priority are equal if they hold the same rules of every
single priority in the same order (`Rule.eq_of_descending`); inserting a rule and sorting
both leave that order alone.

Reduction contracts an atom by the first rule of the list that responds to it.  Told from
the history, this is the one of the highest priority, and of several such the one that came
in first (`Rule.Foremost`).
-/
import Metta.Proofs.Contents
import Metta.Proofs.Heads
import Metta.Proofs.Run

namespace Metta

set_option autoImplicit false

/-! ## Descending priorities -/

namespace Rule

variable {r q : Rule} {rs qs added : List Rule} {p : Int} {a a' : Atom}

/-- The rule may stand before the other. -/
def mayPrecede (r q : Rule) : Bool := decide (q.priority ≤ r.priority)

/-- No rule stands behind one of lower priority. -/
def Descending (rs : List Rule) : Prop := rs.Pairwise fun r q => r.mayPrecede q = true

/-- The rules of one priority. -/
def ofPriority (p : Int) (rs : List Rule) : List Rule := rs.filter fun r => r.priority == p

/-- The rules sorted by descending priority; those of equal priority stay in their order. -/
def ranked (rs : List Rule) : List Rule := rs.mergeSort mayPrecede

theorem mayPrecede_iff : r.mayPrecede q = true ↔ q.priority ≤ r.priority := decide_eq_true_iff

theorem mayPrecede_trans (r q q' : Rule) (first : r.mayPrecede q = true)
    (second : q.mayPrecede q' = true) : r.mayPrecede q' = true := by
  rw [mayPrecede_iff] at *
  omega

theorem mayPrecede_total (r q : Rule) : (r.mayPrecede q || q.mayPrecede r) = true := by
  rw [Bool.or_eq_true, mayPrecede_iff, mayPrecede_iff]
  omega

@[simp] theorem ofPriority_nil : ofPriority p [] = [] := rfl

@[simp] theorem ofPriority_append : ofPriority p (rs ++ qs) = ofPriority p rs ++ ofPriority p qs :=
  List.filter_append rs qs

theorem ofPriority_cons :
    ofPriority p (r :: rs) = if r.priority = p then r :: ofPriority p rs else ofPriority p rs := by
  simp [ofPriority, List.filter_cons]

theorem mem_ofPriority : r ∈ ofPriority p rs ↔ r ∈ rs ∧ r.priority = p := by
  simp [ofPriority]

/-- Behind the head of a descending list no rule has a higher priority. -/
theorem Descending.le_head (descending : Descending (r :: rs)) (member : q ∈ r :: rs) :
    q.priority ≤ r.priority := by
  rcases List.mem_cons.mp member with rfl | later
  · exact Int.le_refl _
  · exact mayPrecede_iff.mp (List.rel_of_pairwise_cons descending later)

/-- Descending lists with the same rules of every priority, in the same order, are equal. -/
theorem eq_of_descending (left : Descending rs) (right : Descending qs)
    (alike : ∀ p, ofPriority p rs = ofPriority p qs) : rs = qs := by
  induction rs generalizing qs with
  | nil =>
      cases qs with
      | nil => rfl
      | cons q qs => simpa [ofPriority_cons] using alike q.priority
  | cons r rs ih =>
      cases qs with
      | nil => simpa [ofPriority_cons] using alike r.priority
      | cons q qs =>
          -- each head is among the rules of the other list, so their priorities are the same
          have here : r ∈ ofPriority r.priority (q :: qs) := by
            rw [← alike]
            exact mem_ofPriority.mpr ⟨.head _, rfl⟩
          have there : q ∈ ofPriority q.priority (r :: rs) := by
            rw [alike]
            exact mem_ofPriority.mpr ⟨.head _, rfl⟩
          have above := right.le_head (mem_ofPriority.mp here).1
          have below := left.le_head (mem_ofPriority.mp there).1
          have level : q.priority = r.priority := by omega
          have heads := alike r.priority
          rw [ofPriority_cons, ofPriority_cons, if_pos rfl, if_pos level, List.cons.injEq] at heads
          obtain ⟨rfl, -⟩ := heads
          have tails : ∀ p, ofPriority p rs = ofPriority p qs := by
            intro p
            have both := alike p
            rw [ofPriority_cons, ofPriority_cons] at both
            split at both
            · exact (List.cons.inj both).2
            · exact both
          rw [ih left.of_cons right.of_cons tails]

/-! ## Sorting -/

theorem descending_ranked (rs : List Rule) : Descending (ranked rs) :=
  List.pairwise_mergeSort mayPrecede_trans mayPrecede_total rs

theorem ranked_perm (rs : List Rule) : (ranked rs).Perm rs := List.mergeSort_perm rs _

/-- Sorting leaves the rules of one priority in their order. -/
theorem ofPriority_ranked (p : Int) (rs : List Rule) :
    ofPriority p (ranked rs) = ofPriority p rs := by
  have level : Descending (ofPriority p rs) := by
    refine List.pairwise_of_forall_mem_list fun r here q there => mayPrecede_iff.mpr ?_
    have := (mem_ofPriority.mp here).2
    have := (mem_ofPriority.mp there).2
    omega
  have inside : (ofPriority p rs).Sublist (ranked rs) :=
    List.sublist_mergeSort mayPrecede_trans mayPrecede_total level List.filter_sublist
  have kept : (ofPriority p rs).Sublist (ofPriority p (ranked rs)) := by
    have filtered := inside.filter fun r => r.priority == p
    simpa only [ofPriority, List.filter_filter, Bool.and_self] using filtered
  exact (kept.eq_of_length ((ranked_perm rs).filter _).length_eq.symm).symm

theorem descending_insertRule (descending : Descending rs) :
    Descending (Space.insertRule r rs) := by
  induction rs with
  | nil => exact List.pairwise_singleton _ _
  | cons q qs ih =>
      unfold Space.insertRule
      split
      · rename_i below
        refine List.pairwise_cons.mpr ⟨fun x member => mayPrecede_iff.mpr ?_, ih descending.of_cons⟩
        rcases List.mem_cons.mp ((Space.insertRule_perm r qs).mem_iff.mp member) with rfl | old
        · exact below
        · exact descending.le_head (.tail _ old)
      · rename_i above
        refine List.pairwise_cons.mpr ⟨fun x member => mayPrecede_iff.mpr ?_, descending⟩
        have := descending.le_head member
        omega

/-- A rule that is inserted comes behind all others of its priority. -/
theorem ofPriority_insertRule (descending : Descending rs) (p : Int) :
    ofPriority p (Space.insertRule r rs) = ofPriority p (rs ++ [r]) := by
  induction rs with
  | nil => rfl
  | cons q qs ih =>
      unfold Space.insertRule
      split
      · rw [List.cons_append, ofPriority_cons, ofPriority_cons, ih descending.of_cons]
      · rename_i above
        by_cases same : r.priority = p
        · -- all that stands from here on is of lower priority
          have none : ofPriority p (q :: qs) = [] := by
            refine List.filter_eq_nil_iff.mpr fun x member => ?_
            have := descending.le_head member
            rw [beq_iff_eq]
            omega
          rw [ofPriority_append, ofPriority_cons, none, List.nil_append, ofPriority_cons,
            ofPriority_nil]
        · rw [ofPriority_append, ofPriority_cons, if_neg same, ofPriority_cons (r := r),
            if_neg same]
          simp

/-- Inserting one more rule into sorted ones is sorting with that rule at the end. -/
theorem insertRule_ranked (r : Rule) (rs : List Rule) :
    Space.insertRule r (ranked rs) = ranked (rs ++ [r]) := by
  have descending := descending_ranked rs
  refine eq_of_descending (descending_insertRule descending) (descending_ranked _) fun p => ?_
  rw [ofPriority_insertRule descending, ofPriority_ranked, ofPriority_append, ofPriority_append,
    ofPriority_ranked]

/-! ## The rule that reduction picks -/

/-- The rule contracts the atom, or its guard fails over it. -/
def responds (r : Rule) (a : Atom) : Bool := !(r.apply a matches .ok none)

theorem responds_eq_false_iff : r.responds a = false ↔ r.apply a = .ok none := by
  unfold responds
  split <;> simp_all

/-- Of the rules that respond to the atom the one at this place has the highest priority, and of
several such it came in first. -/
structure Foremost (added : List Rule) (a : Atom) (place : Nat) (r : Rule) : Prop where
  came : added[place]? = some r
  responds : r.responds a = true
  first : ∀ (place' : Nat) (q : Rule), added[place']? = some q → q.responds a = true →
    q.priority < r.priority ∨ q.priority = r.priority ∧ place ≤ place'

/-- The first of the sorted rules that responds is the foremost of those that came in. -/
theorem exists_foremost (found : (ranked added).find? (·.responds a) = some r) :
    ∃ place, Foremost added a place r := by
  obtain ⟨responds, before, after, split, passed⟩ := List.find?_eq_some_iff_append.mp found
  -- among the rules of its own priority it is the first too, and these came in in the same order
  have level : (ofPriority r.priority added).find? (·.responds a) = some r := by
    rw [← ofPriority_ranked, split, List.find?_eq_some_iff_append]
    refine ⟨responds, ofPriority r.priority before, ofPriority r.priority after, ?_, ?_⟩
    · rw [ofPriority_append, ofPriority_cons, if_pos rfl]
    · exact fun q member => passed q (mem_ofPriority.mp member).1
  rw [ofPriority, List.find?_filter] at level
  obtain ⟨-, earlier, later, came, none⟩ := List.find?_eq_some_iff_append.mp level
  refine ⟨earlier.length, by simp [came], responds, fun place q there answers => ?_⟩
  have sorted : q ∈ before ++ r :: after := by
    rw [← split, (ranked_perm added).mem_iff]
    exact List.mem_of_getElem? there
  have behind : q ∈ r :: after := by
    rcases List.mem_append.mp sorted with ahead | behind
    · simpa [answers] using passed q ahead
    · exact behind
  have descending : Descending (r :: after) := by
    have whole := descending_ranked added
    rw [split] at whole
    exact (List.pairwise_append.mp whole).2.1
  have below := descending.le_head behind
  by_cases lower : q.priority < r.priority
  · exact .inl lower
  · have same : q.priority = r.priority := by omega
    refine .inr ⟨same, Nat.le_of_not_lt fun sooner => ?_⟩
    rw [came, List.getElem?_append_left sooner] at there
    simpa [same, answers] using none q (List.mem_of_getElem? there)

/-- What the first rule that responds makes of the atom is what contraction makes of it. -/
theorem contract_of_find? (found : rs.find? (·.responds a) = some r) :
    contract rs a = r.apply a := by
  induction rs with
  | nil => cases found
  | cons q qs ih =>
      rw [List.find?_cons] at found
      cases answers : q.responds a with
      | true =>
          simp only [answers, Option.some.injEq] at found
          subst found
          unfold contract
          rcases applied : q.apply a with e | _ | a'
          · rfl
          · simp [responds, applied] at answers
          · rfl
      | false =>
          simp only [answers] at found
          rw [← ih found, contract, responds_eq_false_iff.mp answers]
          rfl

end Rule

/-- With a budget of one step reduction ends with the first rule that responds at the top. -/
theorem Space.reduce_one {s : Space} {r : Rule} {a : Atom}
    (found : s.rules.find? (·.responds a) = some r) :
    (∀ a', r.apply a = .ok (some a') → s.reduce 1 a = .ok a') ∧
      ∀ e, r.apply a = .error e → s.reduce 1 a = .error e := by
  have contracts := Rule.contract_of_find? found
  constructor
  · intro a' applied
    rw [applied] at contracts
    have run : Reduce.Run (Rule.contract s.rules) 65 1 a [(a, a')] a' 0 :=
      Reduce.Rounds.contracted contracts .spent
    exact run.reduce_eq
  · intro e failed
    rw [failed] at contracts
    simp [Space.reduce, Atom.reduce, Atom.reduceCounting, Reduce.Limits.levels,
      Reduce.Limits.budget, Reduce.within, Reduce.rounds, contracts]

/-! ## Histories -/

namespace World

/-- The form that defines a rule. -/
def definition (pattern template : Atom) : Atom := .expr [.symbol "=", pattern, template]

/-- What happens to a space of a world. -/
inductive Event where
  /-- A rule is added, whole or from its name, pattern, template, guard and priority. -/
  | rule (r : Rule)
  /-- A form that defines a rule is evaluated, at a depth below which `levels` levels are left. -/
  | form (settings : Settings) (levels depth : Nat) (pattern template : Atom)
  /-- An atom is added or removed, or all are cleared away. -/
  | atoms (e : Space.Event)

/-- The world that an evaluation leaves. -/
def left {α : Type} : EStateM.Result EvalFault World α → World
  | .ok _ w | .error _ w => w

namespace Event

def perform (home : String) : Event → World → World
  | rule r, w => w.change home (·.addRule r)
  | form settings levels depth pattern template, w =>
    left (Eval.evaluate settings home levels depth (definition pattern template) w)
  | atoms e, w => w.change home e.perform

/-- The rule that comes in after `count` others.  A form defines one if there is a level left to
evaluate it, and if the step can be reported. -/
def rule? (count : Nat) : Event → Option Rule
  | rule r => some r
  | form settings levels _ pattern template =>
    if levels ≠ 0 ∧ Eval.Reportable settings (definition pattern template) then
      some ⟨"user-rule-" ++ toString count, pattern, template, none, 0⟩
    else none
  | atoms _ => none

end Event

/-- The world after a history, the earliest event first. -/
def replay (home : String) (es : List Event) (w : World) : World :=
  es.foldl (fun w e => e.perform home w) w

/-- The rules that come in during a history, in this order. -/
def arrivals (es : List Event) : List Rule :=
  es.foldl (fun rs e => rs ++ (e.rule? rs.length).toList) []

variable {w w' : World} {home : String} {r : Rule} {e : Event} {es : List Event}

theorem replay_append_single : replay home (es ++ [e]) w = e.perform home (replay home es w) := by
  simp [replay]

theorem arrivals_append_single :
    arrivals (es ++ [e]) = arrivals es ++ (e.rule? (arrivals es).length).toList := by
  simp [arrivals]

theorem space?_of_spaces (same : w'.spaces = w.spaces) (name : String) :
    w'.space? name = w.space? name := by
  simp only [space?, same]

theorem left_addRule (r : Rule) : (left (Eval.addRule home r w)).spaces =
    (w.change home (·.addRule r)).spaces := by
  have changed : Eval.addRule home r w =
      (Eval.writing ((w.space home).ruleAdded r) >>= fun record => Eval.report record)
        (w.change home (·.addRule r)) := rfl
  rw [changed]
  cases (w.space home).ruleAdded r <;> rfl

/-- Adding a rule that can be written is reported. -/
theorem exists_addRule_reported {r : Rule} (writable : ∀ a ∈ r.atoms, a.isWritable = true)
    (home : String) (w : World) :
    ∃ log, Eval.addRule home r w = .ok () { w.change home (·.addRule r) with log } := by
  have written : r.written = .ok r.render := Atom.writing_eq_ok writable _
  have added : Eval.addRule home r w =
      (Eval.writing ((w.space home).ruleAdded r) >>= fun record => Eval.report record)
        (w.change home (·.addRule r)) := rfl
  rw [added, Space.ruleAdded, written]
  exact ⟨_, rfl⟩

/-- The form adds its rule, even if that cannot be reported. -/
theorem left_evalHead_rule {ctx : Eval.Context} {eval : Atom → Eval (List Atom)}
    (pattern template : Atom) :
    (left (Eval.evalHead ctx eval "=" [pattern, template] w)).spaces =
      (w.change ctx.self (·.addRule ⟨"user-rule-" ++ toString (w.space ctx.self).rules.length,
        pattern, template, none, 0⟩)).spaces := by
  let r : Rule := ⟨"user-rule-" ++ toString (w.space ctx.self).rules.length, pattern, template,
    none, 0⟩
  have evaluated : Eval.evalHead ctx eval "=" [pattern, template] w =
      (Eval.addRule ctx.self r >>= fun _ => pure [.empty]) w := rfl
  rw [evaluated, ← left_addRule r]
  cases added : Eval.addRule ctx.self r w with
  | ok _ w' =>
      rw [bind_of_ok added]
      rfl
  | error fault w' =>
      rw [bind_of_error added]
      rfl

theorem left_evaluate_definition {settings : Settings} {pattern template : Atom}
    (reportable : Eval.Reportable settings (definition pattern template)) (home : String)
    (levels depth : Nat) (w : World) :
    (left (Eval.evaluate settings home (levels + 1) depth (definition pattern template) w)).spaces =
      (w.change home (·.addRule ⟨"user-rule-" ++ toString (w.space home).rules.length,
        pattern, template, none, 0⟩)).spaces := by
  obtain ⟨log, evaluated⟩ := Eval.exists_evaluate reportable levels depth w
  rw [definition, evaluated, left_evalHead_rule]
  rfl

variable {s : Space}

theorem exists_addRule (here : w.space? home = some s) (r : Rule) :
    ∃ s' : Space, (w.change home (·.addRule r)).space? home = some s' ∧
      s'.rules = Space.insertRule r s.rules := by
  refine ⟨s.addRule r, ?_, rfl⟩
  rw [space?_change_self (f := (·.addRule r)) fun _ => rfl, here]
  rfl

/-- What one event does to the rules of the space. -/
theorem exists_perform (here : w.space? home = some s) (e : Event) :
    ∃ s' : Space, (e.perform home w).space? home = some s' ∧
      s'.rules = (e.rule? s.rules.length).elim s.rules (Space.insertRule · s.rules) := by
  cases e with
  | rule r => exact exists_addRule here r
  | atoms e =>
      have named : ∀ s, (e.perform s).name = s.name := by
        intro s
        cases e <;> simp [Space.Event.perform, Space.clear]
      refine ⟨e.perform s, ?_, ?_⟩
      · rw [Event.perform, space?_change_self named, here]
        rfl
      · cases e <;> simp [Space.Event.perform, Space.clear, Event.rule?]
  | form settings levels depth pattern template =>
      cases levels with
      | zero => exact ⟨s, here, rfl⟩
      | succ levels =>
          by_cases reportable : Eval.Reportable settings (definition pattern template)
          · have spaces := left_evaluate_definition reportable home levels depth w
            rw [Event.perform, space?_of_spaces spaces, space_of_space? here]
            simpa [Event.rule?, reportable] using exists_addRule here _
          · refine ⟨s, ?_, ?_⟩
            · obtain ⟨e, -, failed⟩ := Eval.exists_unreported_evaluate reportable levels depth w
              rw [Event.perform, failed]
              exact here
            · simp [Event.rule?, reportable]

/-- After a history the rules are those that came in, sorted. -/
theorem exists_replay (here : w.space? home = some s) (fresh : s.rules = []) (es : List Event) :
    ∃ s' : Space, (replay home es w).space? home = some s' ∧
      s'.rules = Rule.ranked (arrivals es) := by
  induction es using List.reverseRecOn with
  | nil => exact ⟨s, here, fresh.trans List.mergeSort_nil.symm⟩
  | append_singleton es e ih =>
      obtain ⟨s', there, rules⟩ := ih
      obtain ⟨s'', after, more⟩ := exists_perform there e
      refine ⟨s'', ?_, ?_⟩
      · rw [replay_append_single]
        exact after
      · have count : s'.rules.length = (arrivals es).length := by
          rw [rules, (Rule.ranked_perm _).length_eq]
        rw [more, arrivals_append_single, count, rules]
        cases e.rule? (arrivals es).length with
        | none => simp
        | some r => exact Rule.insertRule_ranked r _

/-- **The order of rules is told from the history.**  In a space that had no rules, after any
history of rules added, of forms that define rules evaluated, and of atoms added, removed and
cleared away, the rules are those that came in, none lost and none doubled, sorted stably by
descending priority: those of one priority stand in the order in which they came in.  With a budget
of one step an atom that some rule responds to is reduced by the foremost of them: the one of the
highest priority, and of several such the one that came in first.  What its guard fails with is what
reduction fails with. -/
theorem rules_replay (home : String) (w : World) (s : Space) (here : w.space? home = some s)
    (fresh : s.rules = []) (es : List Event) :
    let s' := (replay home es w).space home
    let added := arrivals es
    s'.rules = added.mergeSort Rule.mayPrecede ∧ s'.rules.Perm added ∧
    (∀ p, s'.rules.filter (·.priority == p) = added.filter (·.priority == p)) ∧
    ∀ a, (∃ r ∈ added, r.responds a = true) → ∃ place r, Rule.Foremost added a place r ∧
      (∀ a', r.apply a = .ok (some a') → s'.reduce 1 a = .ok a') ∧
      ∀ e, r.apply a = .error e → s'.reduce 1 a = .error e := by
  obtain ⟨s', after, rules⟩ := exists_replay here fresh es
  simp only [space_of_space? after, rules]
  refine ⟨rfl, Rule.ranked_perm _, fun p => Rule.ofPriority_ranked p _, ?_⟩
  rintro a ⟨r, came, responds⟩
  have some : ((Rule.ranked (arrivals es)).find? (·.responds a)).isSome = true :=
    List.find?_isSome.mpr ⟨r, (Rule.ranked_perm _).mem_iff.mpr came, responds⟩
  obtain ⟨first, found⟩ := Option.isSome_iff_exists.mp some
  obtain ⟨place, foremost⟩ := Rule.exists_foremost found
  rw [← rules] at found
  exact ⟨place, first, foremost, Space.reduce_one found⟩

/-- A rule of high priority that its guard keeps from the atom, one of low priority, and two that
forms define, with the atoms cleared away in between. -/
theorem rules_replay_interleaved :
    let pattern : Atom := .expr [.symbol "f", .var "x" none]
    let low : Rule := ⟨"low", pattern, .symbol "low", none, -1⟩
    let high : Rule := ⟨"high", pattern, .symbol "high", some (.isBound "y"), 5⟩
    let es : List Event := [.rule low, .form {} 1 0 pattern (.symbol "first"), .rule high,
      .atoms .clear, .form {} 1 0 pattern (.symbol "second")]
    let s' := (replay "home" es ⟨[⟨"home", [.symbol "a"], []⟩], #[]⟩).space "home"
    s'.rules.Perm (arrivals es) ∧
      s'.rules.map Rule.name = ["high", "user-rule-1", "user-rule-3", "low"] ∧
      s'.reduce 1 (.expr [.symbol "f", .symbol "a"]) = .ok (.symbol "first") := by
  intro pattern low high es s'
  let first : Rule := ⟨"user-rule-" ++ toString 1, pattern, .symbol "first", none, 0⟩
  let second : Rule := ⟨"user-rule-" ++ toString 3, pattern, .symbol "second", none, 0⟩
  have added : arrivals es = [low, first, high, second] := rfl
  obtain ⟨-, perm, -, picks⟩ :=
    rules_replay "home" ⟨[⟨"home", [.symbol "a"], []⟩], #[]⟩ _ rfl rfl es
  refine ⟨perm, by decide +kernel, ?_⟩
  obtain ⟨place, r, foremost, contracts, -⟩ :=
    picks (.expr [.symbol "f", .symbol "a"]) ⟨first, by simp [added], rfl⟩
  have came := foremost.came
  have before := foremost.first 1 first rfl rfl
  have responds := foremost.responds
  rw [added] at came
  match place, came with
  | 0, came =>
      cases came
      exact absurd before (by decide)
  | 1, came =>
      cases came
      exact contracts _ rfl
  | 2, came =>
      cases came
      cases responds
  | 3, came =>
      cases came
      exact absurd before (by decide)

end World

end Metta
