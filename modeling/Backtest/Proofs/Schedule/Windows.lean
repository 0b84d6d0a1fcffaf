import Backtest.Proofs.Outcome
import Backtest.Proofs.Time.Order
import Backtest.Schedule

/-!
# The windows of a schedule

A schedule builds its windows one after the other. What one of them is depends on its index alone
(`Cuts`), and as no period is negative its training comes first and its test follows at once.

## Main definitions

* `Schedule.Cuts` — what a schedule makes of an index.
* `Schedule.windowsFrom_succ_cases` — everything one index can do.
* `Schedule.ends_windows` — the windows are numbered in order, unless the calendar ends.
* `Window.IsOrdered` — training, then test.
* `Schedule.isOrdered_of_mem_windows` — every window of a schedule is ordered.
-/
namespace Backtest

/-- The test starts where the training ends, and neither ends before it starts. -/
structure Window.IsOrdered (w : Window) : Prop where
  training : w.trainStart ≤ w.trainEnd
  adjacent : w.testStart = w.trainEnd
  test : w.testStart ≤ w.testEnd

namespace Schedule

/-- A window is what the schedule makes of its index: the test starts before the end of the range
and is clipped there. -/
structure Cuts (spec : Schedule) (w : Window) : Prop where
  training : spec.trainingPart w.index = some (w.trainStart, w.trainEnd)
  adjacent : w.testStart = w.trainEnd
  early : w.testStart < spec.stop
  test : ∃ full, w.testStart.add? spec.test = some full ∧ w.testEnd = Instant.min full spec.stop

variable {spec : Schedule}

/-- Everything one index can do: its training ends too late, or it gives a window, which is the last
if its full test reaches the end of the range. -/
theorem windowsFrom_succ_cases {fuel index : Nat} {ws : List Window}
    (h : spec.windowsFrom (fuel + 1) index = .ok ws) :
    (∃ trainStart trainEnd, spec.trainingPart index = some (trainStart, trainEnd) ∧
      spec.stop ≤ trainEnd ∧ ws = []) ∨
    (∃ w full rest, w.index = index ∧ spec.Cuts w ∧ w.testStart.add? spec.test = some full ∧
      ws = w :: rest ∧ ((spec.stop ≤ full ∧ rest = []) ∨
        (full < spec.stop ∧ spec.windowsFrom fuel (index + 1) = .ok rest))) := by
  rw [windowsFrom] at h
  cases htraining : spec.trainingPart index with
  | none =>
    rw [htraining] at h
    cases h
  | some part =>
    obtain ⟨trainStart, trainEnd⟩ := part
    simp only [htraining] at h
    by_cases hstop : spec.stop ≤ trainEnd
    · rw [if_pos hstop] at h
      cases h
      exact .inl ⟨trainStart, trainEnd, rfl, hstop, rfl⟩
    · rw [if_neg hstop] at h
      cases hfull : trainEnd.add? spec.test with
      | none =>
        rw [hfull] at h
        cases h
      | some full =>
        simp only [hfull] at h
        have hcuts : spec.Cuts
            ⟨index, trainStart, trainEnd, trainEnd, Instant.min full spec.stop⟩ :=
          ⟨htraining, rfl, Instant.not_le.1 hstop, full, hfull, rfl⟩
        by_cases hend : spec.stop ≤ full
        · rw [if_pos hend] at h
          cases h
          exact .inr ⟨_, full, [], rfl, hcuts, hfull, rfl, .inl ⟨hend, rfl⟩⟩
        · rw [if_neg hend] at h
          cases hrest : spec.windowsFrom fuel (index + 1) with
          | error e =>
            rw [hrest] at h
            cases h
          | ok rest =>
            rw [hrest] at h
            cases h
            exact .inr ⟨_, full, rest, rfl, hcuts, hfull, rfl, .inr ⟨Instant.not_le.1 hend, rfl⟩⟩

/-- The windows are numbered in order, and only the calendar can be in their way. -/
theorem ends_windowsFrom (spec : Schedule) (fuel index : Nat) :
    Ends (fun ws : List Window => ws.map (·.index) = List.range' index ws.length)
      (· = .outOfCalendar) (spec.windowsFrom fuel index) := by
  induction fuel generalizing index with
  | zero => exact rfl
  | succ fuel ih =>
    rw [windowsFrom]
    split
    · exact rfl
    · split
      · exact rfl
      · split
        · exact rfl
        · simp only
          split
          · exact rfl
          · refine (ih (index + 1)).bind fun rest hrest => ?_
            change index :: rest.map (·.index) = List.range' index (rest.length + 1)
            rw [hrest, List.range'_succ]

theorem cuts_of_mem_windowsFrom {fuel index : Nat} {ws : List Window}
    (h : spec.windowsFrom fuel index = .ok ws) {w : Window} (hw : w ∈ ws) : spec.Cuts w := by
  induction fuel generalizing index ws with
  | zero =>
    cases h
    cases hw
  | succ fuel ih =>
    rcases windowsFrom_succ_cases h with ⟨-, -, -, -, rfl⟩ |
      ⟨v, full, rest, -, hcuts, -, rfl, hrest⟩
    · cases hw
    · rcases List.mem_cons.1 hw with rfl | hw
      · exact hcuts
      · rcases hrest with ⟨-, rfl⟩ | ⟨-, hrest⟩
        · cases hw
        · exact ih hrest hw

/-- A schedule that has windows has periods of positive length. -/
theorem nonPositive?_eq_none (h : spec.nonPositive? = none) :
    0 < spec.training.nanos ∧ 0 < spec.test.nanos ∧ 0 < spec.step.nanos := by
  rw [nonPositive?] at h
  split at h
  · cases h
  · split at h
    · cases h
    · split at h
      · cases h
      · omega

theorem ends_windows (hperiods : spec.nonPositive? = none) (hrange : spec.start < spec.stop) :
    Ends (fun ws : List Window => ws.map (·.index) = List.range ws.length) (· = .outOfCalendar)
      spec.windows := by
  rw [windows, hperiods]
  simp only
  rw [if_neg (Instant.not_le.2 hrange)]
  split
  · exact rfl
  · split
    · exact rfl
    · simp only [List.range_eq_range']
      exact ends_windowsFrom spec spec.windowBound 0

/-- Every window of a schedule is made of its index. -/
theorem cuts_of_mem_windows {ws : List Window} (h : spec.windows = .ok ws) {w : Window}
    (hw : w ∈ ws) : spec.nonPositive? = none ∧ spec.Cuts w := by
  rw [windows] at h
  cases hperiods : spec.nonPositive? with
  | some period =>
    rw [hperiods] at h
    cases h
  | none =>
    simp only [hperiods] at h
    refine ⟨rfl, ?_⟩
    split at h
    · cases h
    · split at h
      · cases h
      · split at h
        · cases h
          cases hw
        · exact cuts_of_mem_windowsFrom h hw

/-- Training leads forward, from the start of the range or from a later step. -/
theorem le_of_trainingPart (htraining : 0 < spec.training.nanos) (hstep : 0 < spec.step.nanos)
    {index : Nat} {start stop : Instant} (h : spec.trainingPart index = some (start, stop)) :
    start ≤ stop := by
  rw [trainingPart] at h
  cases hmode : spec.windowType with
  | rolling =>
    simp only [hmode, Option.bind_eq_bind, Option.bind_eq_some_iff] at h
    obtain ⟨first, -, last, hlast, h⟩ := h
    cases h
    exact Instant.le_of_add?_eq_some (Int.le_of_lt htraining) hlast
  | expanding =>
    simp only [hmode, Option.bind_eq_bind, Option.bind_eq_some_iff] at h
    obtain ⟨first, hfirst, last, hlast, h⟩ := h
    cases h
    have hoffset : 0 ≤ (spec.step.times index).nanos := by
      rw [Span.nanos_times]
      exact Int.mul_nonneg (Int.le_of_lt hstep) (Int.natCast_nonneg index)
    exact Instant.le_trans (Instant.le_of_add?_eq_some (Int.le_of_lt htraining) hfirst)
      (Instant.le_of_add?_eq_some hoffset hlast)

/-- Every window of a schedule is ordered. -/
theorem isOrdered_of_mem_windows {ws : List Window} (h : spec.windows = .ok ws) {w : Window}
    (hw : w ∈ ws) : w.IsOrdered := by
  obtain ⟨hperiods, hcuts⟩ := cuts_of_mem_windows h hw
  obtain ⟨htraining, htest, hstep⟩ := nonPositive?_eq_none hperiods
  obtain ⟨full, hfull, hend⟩ := hcuts.test
  refine ⟨le_of_trainingPart htraining hstep hcuts.training, hcuts.adjacent, ?_⟩
  rw [hend]
  exact Instant.le_min (Instant.le_of_add?_eq_some (Int.le_of_lt htest) hfull)
    (Instant.le_of_lt hcuts.early)

end Schedule
end Backtest
