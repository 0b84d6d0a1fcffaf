import Backtest.Proofs.WalkForward.Calendar

/-!
# How far windows are apart

In a schedule of whole days the test of a window starts after the training and as many steps as its
index, whether the training rolls or grows. So tests start in the order of their windows, and one
has ended before another starts as soon as the steps between them are as long as a test. Nothing
asks a step to be that long: with a shorter one neighbouring tests overlap.

## Main definitions

* `Instant.add?_days` — an instant and a number of days, exactly.
* `Schedule.testStart_of_cuts` — when the test of a window starts.
* `Schedule.testStart_le_testStart` — tests start in the order of their windows.
* `Schedule.testEnd_le_testStart` — tests that do not overlap.
-/
namespace Backtest

/-- Days after an instant keep its nanoseconds. From within a leap second, which other days do not
have, they count from the second before. -/
theorem Instant.nano_plus_days {t : Instant} {d : Span} {n : Int} (ht : t.nano < 2000000000)
    (hd : d.IsDays n) (hn : 0 ≤ n) :
    (t.plus d).nano = t.nano % 1000000000 ∨ n = 0 ∧ (t.plus d).nano = t.nano := by
  have hseconds := hd.seconds
  have hsubsecond := hd.subsecond
  rw [plus]
  simp only [hseconds, hsubsecond, normalized, isLeap, decide_eq_true_eq]
  split
  · -- In a leap second the nanoseconds only move if the days are more than none.
    split
    · rw [if_neg (by omega), if_neg (by omega)]
      simp only
      omega
    · rw [if_neg (by omega)]
      simp only
      omega
  · rw [if_neg (by omega), if_neg (by omega)]
    simp only
    omega

theorem Instant.add?_days {t u : Instant} {d : Span} {n : Int} (ht : t.nano < 2000000000)
    (hd : d.IsDays n) (hn : 0 ≤ n) (h : t.add? d = some u) :
    u.second = t.second + n * 86400 ∧
      (u.nano = t.nano % 1000000000 ∨ n = 0 ∧ u.nano = t.nano) := by
  obtain ⟨rfl, -⟩ := inCalendar?_eq_some h
  exact ⟨(plus_days ht hd hn).1, nano_plus_days ht hd hn⟩

namespace Schedule

variable {spec : Schedule} {training test step : Int}

/-- Training and steps add up in either order. -/
theorem end_of_trainingPart (h : spec.IsInDays training test step) {index : Nat}
    {first last : Instant} (hpart : spec.trainingPart index = some (first, last)) :
    last.second = spec.start.second + (training + step * index) * 86400 ∧
      last.nano = spec.start.nano % 1000000000 := by
  have htraining := h.positive.1
  have hnano := h.start.nano
  have hsteps := h.steps.times index
  have hoffset := h.steps_nonneg index
  rw [trainingPart] at hpart
  cases hmode : spec.windowType with
  | rolling =>
    simp only [hmode, Option.bind_eq_bind, Option.bind_eq_some_iff] at hpart
    obtain ⟨start, hstart, stop, hstop, hpart⟩ := hpart
    cases hpart
    obtain ⟨hsecond, hkept⟩ := Instant.add?_days hnano hsteps hoffset hstart
    obtain ⟨hsecond', hkept'⟩ := Instant.add?_days (by omega) h.trains (by omega) hstop
    omega
  | expanding =>
    simp only [hmode, Option.bind_eq_bind, Option.bind_eq_some_iff] at hpart
    obtain ⟨start, hstart, stop, hstop, hpart⟩ := hpart
    cases hpart
    obtain ⟨hsecond, hkept⟩ := Instant.add?_days hnano h.trains (by omega) hstart
    obtain ⟨hsecond', hkept'⟩ := Instant.add?_days (by omega) hsteps hoffset hstop
    omega

/-- A test starts after the training and the steps of its window. -/
theorem testStart_of_cuts (h : spec.IsInDays training test step) {w : Window}
    (hw : spec.Cuts w) :
    w.testStart.second = spec.start.second + (training + step * w.index) * 86400 ∧
      w.testStart.nano = spec.start.nano % 1000000000 := by
  rw [hw.adjacent]
  exact end_of_trainingPart h hw.training

variable {v w : Window}

/-- Tests start in the order of their windows. -/
theorem testStart_le_testStart (h : spec.IsInDays training test step) (hv : spec.Cuts v)
    (hw : spec.Cuts w) (hindex : v.index ≤ w.index) : v.testStart ≤ w.testStart := by
  obtain ⟨hsecond, hnano⟩ := testStart_of_cuts h hv
  obtain ⟨hsecond', hnano'⟩ := testStart_of_cuts h hw
  have hsteps : step * (v.index : Int) ≤ step * (w.index : Int) :=
    Int.mul_le_mul_of_nonneg_left (Int.ofNat_le.2 hindex) (Int.le_of_lt h.positive.2.2)
  rw [Instant.le_iff]
  omega

/-- A test has ended before another starts that is far enough away. -/
theorem testEnd_le_testStart (h : spec.IsInDays training test step) (hv : spec.Cuts v)
    (hw : spec.Cuts w) (hgap : step * v.index + test ≤ step * w.index) :
    v.testEnd ≤ w.testStart := by
  obtain ⟨hsecond, hnano⟩ := testStart_of_cuts h hv
  obtain ⟨hsecond', hnano'⟩ := testStart_of_cuts h hw
  obtain ⟨full, hfull, hend⟩ := hv.test
  have htest := h.positive.2.1
  obtain ⟨hsecond'', hnano''⟩ := Instant.add?_days (by omega) h.tests (by omega) hfull
  rw [hend]
  refine Instant.le_trans (Instant.min_le_left full spec.stop) ?_
  rw [Instant.le_iff]
  omega

end Schedule
end Backtest
