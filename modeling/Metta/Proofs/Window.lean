/-
# Metta.Proofs.Window -- which runs a tracker remembers

Runs are recorded and now and then all is forgotten (`Metrics.Event`).  What a tracker holds
in the end can be told from that history alone: the entries of the newest runs since it was
last reset, as many as its bound allows (`Metrics.replay_records`).

A bound above zero allows so many runs, and a bound below zero none.  The bound zero allows
all of them, not none (`Metrics.zero_keeps_all`).

The window is cut after every entry.  That this keeps the newest runs of the whole history is
one step at a time: cutting what was kept together with one more entry is cutting all entries
at once (`Metrics.window_newest`).
-/
import Metta.Metrics
import Mathlib.Algebra.Ring.Nat
import Mathlib.Data.List.DropRight
import Mathlib.Data.List.Induction

namespace Metta.Metrics

set_option autoImplicit false

/-! ## Histories -/

/-- A run as it is handed to the tracker. -/
structure Run where
  timestamp : Float
  code : String
  results : List Atom
  elapsed : Float

def Run.record (run : Run) : RunRecord := entry run.timestamp run.code run.results run.elapsed

/-- What happens to a tracker. -/
inductive Event where
  | record (run : Run)
  | reset

namespace Event

def perform : Event → Metrics → Metrics
  | record run, m => m.record run.record
  | reset, m => m.reset

def run? : Event → Option Run
  | record run => some run
  | reset => none

end Event

/-- The tracker after a history, the earliest event first. -/
def replay (h : List Event) (m : Metrics) : Metrics := h.foldl (fun m e => e.perform m) m

/-- The runs that were recorded since the last reset. -/
def sinceReset (h : List Event) : List Run := (h.rtakeWhile (·.run?.isSome)).filterMap Event.run?

/-- The last runs that a bound allows, in their order. -/
def newest {α : Type} (bound : Int) (runs : List α) : List α :=
  if bound = 0 then runs else runs.rtake bound.toNat

/-- How many of the results are errors. -/
def errorsAmong (runs : List Run) : Nat := (runs.flatMap Run.results).countP isError

variable {h : List Event} {e : Event} {m : Metrics} {bound : Int}

theorem replay_append_single : replay (h ++ [e]) m = e.perform (replay h m) := by
  simp [replay]

theorem sinceReset_append_record (run : Run) :
    sinceReset (h ++ [.record run]) = sinceReset h ++ [run] := by
  rw [sinceReset, List.rtakeWhile_concat_pos _ _ _ (by rfl), List.filterMap_append]
  rfl

theorem sinceReset_append_reset : sinceReset (h ++ [.reset]) = [] := by
  rw [sinceReset, List.rtakeWhile_concat_neg _ _ _ (by decide)]
  rfl

/-! ## The newest runs -/

theorem newest_map {α β : Type} (f : α → β) (runs : List α) :
    newest bound (runs.map f) = (newest bound runs).map f := by
  unfold newest
  split
  · rfl
  · simp [List.rtake, List.map_drop]

/-- Of what is kept no less is kept when one more comes. -/
theorem rtake_rtake_concat {α : Type} (n : Nat) (xs : List α) (x : α) :
    (xs.rtake n ++ [x]).rtake n = (xs ++ [x]).rtake n := by
  cases n with
  | zero => simp
  | succ n =>
      have shorter : (xs.rtake (n + 1)).rtake n = xs.rtake n := by
        simp only [List.rtake_eq_reverse_take_reverse, List.reverse_reverse, List.take_take]
        rw [Nat.min_eq_left (Nat.le_succ n)]
      rw [List.rtake_concat_succ, List.rtake_concat_succ, shorter]

theorem window_of_pos (positive : 0 < bound) (rs : List RunRecord) :
    window bound rs = rs.rtake bound.toNat := by
  unfold window
  split
  · have all : rs.length - bound.toNat = 0 := by omega
    rw [List.rtake, all, List.drop_zero]
  · rfl

theorem window_zero (rs : List RunRecord) : window 0 rs = rs := by
  unfold window
  split <;> simp

/-- A bound below zero drops at least one entry, and there is no other. -/
theorem window_singleton_of_neg (negative : bound < 0) (r : RunRecord) : window bound [r] = [] := by
  have dropped : 1 ≤ (-bound).toNat := by omega
  unfold window
  rw [if_neg (by simp; omega), if_neg (by omega)]
  exact List.drop_eq_nil_of_le dropped

/-- Cutting what was kept with one more entry is cutting all of them. -/
theorem window_newest (rs : List RunRecord) (r : RunRecord) :
    window bound (newest bound rs ++ [r]) = newest bound (rs ++ [r]) := by
  unfold newest
  rcases Int.lt_trichotomy bound 0 with negative | rfl | positive
  · have nothing : bound.toNat = 0 := by omega
    rw [if_neg (by omega), if_neg (by omega), nothing, List.rtake_zero, List.rtake_zero]
    exact window_singleton_of_neg negative r
  · exact window_zero _
  · rw [if_neg (by omega), if_neg (by omega), window_of_pos positive]
    exact rtake_rtake_concat _ rs r

theorem length_newest_le {α : Type} (positive : 0 < bound) (runs : List α) :
    ((newest bound runs).length : Int) ≤ bound := by
  unfold newest
  rw [if_neg (by omega), List.rtake, List.length_drop]
  omega

/-! ## What is remembered -/

/-- What one event keeps of the correspondence between a tracker and its history. -/
theorem perform_records (holds : m.records = (newest m.maxRecords (sinceReset h)).map Run.record) :
    (e.perform m).records = (newest m.maxRecords (sinceReset (h ++ [e]))).map Run.record := by
  cases e with
  | record run =>
      have cut : window m.maxRecords (newest m.maxRecords ((sinceReset h).map Run.record) ++
          [run.record]) = newest m.maxRecords ((sinceReset h).map Run.record ++ [run.record]) :=
        window_newest _ _
      rw [newest_map, ← holds] at cut
      rw [sinceReset_append_record, ← newest_map, List.map_append]
      exact cut
  | reset =>
      rw [sinceReset_append_reset, ← newest_map]
      simp [Event.perform, reset, newest]

theorem perform_maxRecords (e : Event) (m : Metrics) : (e.perform m).maxRecords = m.maxRecords := by
  cases e <;> rfl

theorem replay_maxRecords (h : List Event) : (replay h (.empty bound)).maxRecords = bound := by
  induction h using List.reverseRecOn with
  | nil => rfl
  | append_singleton h e ih => rw [replay_append_single, perform_maxRecords, ih]

theorem replay_newest (h : List Event) :
    (replay h (.empty bound)).records = (newest bound (sinceReset h)).map Run.record := by
  induction h using List.reverseRecOn with
  | nil => simp [replay, empty, sinceReset, newest]
  | append_singleton h e ih =>
      have same : (replay h (.empty bound)).maxRecords = bound := replay_maxRecords h
      rw [replay_append_single, perform_records (h := h) (by rw [same, ih]), same]

/-- The summary of nothing counts like any other. -/
theorem summary_runs (m : Metrics) : m.summary.runs = m.records.length := by
  unfold summary
  split
  · rename_i nothing
    rw [List.isEmpty_iff.mp nothing]
    rfl
  · rfl

theorem summary_totalErrors (m : Metrics) :
    m.summary.totalErrors = (m.records.map RunRecord.errors).sum := by
  unfold summary
  split
  · rename_i nothing
    rw [List.isEmpty_iff.mp nothing]
    rfl
  · simp only
    induction m.records with
    | nil => rfl
    | cons r rs ih => rw [List.foldr_cons, ih, List.map_cons, List.sum_cons]

theorem sum_errors_record (runs : List Run) :
    ((runs.map Run.record).map RunRecord.errors).sum = errorsAmong runs := by
  unfold errorsAmong
  rw [List.countP_flatMap, List.map_map]
  rfl

/-- **A tracker remembers the newest runs.**  After any sequence of runs and resets it holds the
entries of the runs since the last reset, of these the last ones that its bound allows, in their
order: so many if the bound is above zero, all if it is zero, and none if it is below.  A bound
above zero is never exceeded.  The summary counts these runs, and the errors among their results. -/
theorem replay_records (bound : Int) (h : List Event) :
    let m := replay h (.empty bound)
    let runs := newest bound (sinceReset h)
    m.records = runs.map Run.record ∧
      (0 < bound → (m.records.length : Int) ≤ bound) ∧
      (bound < 0 → m.records = []) ∧
      m.summary.runs = runs.length ∧ m.summary.totalErrors = errorsAmong runs := by
  intro m runs
  have records : m.records = runs.map Run.record := replay_newest h
  refine ⟨records, fun positive => ?_, fun negative => ?_, ?_, ?_⟩
  · rw [records, List.length_map]
    exact length_newest_le positive _
  · have nothing : bound.toNat = 0 := by omega
    rw [records, List.map_eq_nil_iff]
    simp only [runs, newest]
    rw [if_neg (by omega), nothing, List.rtake_zero]
  · rw [summary_runs, records, List.length_map]
  · rw [summary_totalErrors, records, sum_errors_record]

/-- With room for two, a reset after the first run and three runs behind it leave the last two. -/
theorem replay_records_reset :
    let run (code : String) (results : List Atom) : Run := ⟨0, code, results, 1⟩
    let failed : Atom := .error "bad" none
    let second := run "bb" [failed, .symbol "b"]
    let third := run "ccc" [failed, failed]
    let h : List Event := [.record (run "(" [failed]), .reset, .record (run "a" [.symbol "a"]),
      .record second, .record third]
    let m := replay h (.empty 2)
    m.records = [second.record, third.record] ∧ (m.records.length : Int) ≤ 2 ∧
      m.summary.totalErrors = 3 := by
  intro run failed second third h m
  obtain ⟨records, bounded, -, -, errors⟩ := replay_records 2 h
  exact ⟨records, bounded (by decide), errors⟩

/-- The bound zero leaves room for no run, and yet a run is kept. -/
theorem zero_keeps_all :
    let run : Run := ⟨0, "a", [.symbol "a"], 1⟩
    let m := replay [.record run] (.empty 0)
    (sinceReset [.record run]).rtake 0 = [] ∧ m.records = [run.record] ∧
      ¬ (m.records.length : Int) ≤ m.maxRecords ∧ m.summary.runs = 1 := by
  intro run m
  have records : m.records = [run.record] := rfl
  refine ⟨List.rtake_zero _, records, ?_, rfl⟩
  rw [records]
  decide

end Metta.Metrics
