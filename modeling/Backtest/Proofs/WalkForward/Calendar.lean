import Backtest.Proofs.WalkForward.Validation

/-!
# Requests and the end of the calendar

The checks of a request ask for positive periods and set them no upper bound, so they do not keep
its dates in the calendar. Each step over a window first makes the dates of the next one, whether
the range goes on or not. A request has windows when the longest span holds training and test
together and the calendar has room for one test and one step after the end of its range; a request
that does not fit into its range has none, unless a period is longer than any span.

## Main definitions

* `Schedule.IsInDays` — a schedule of whole days.
* `Schedule.exists_windowsFrom` — windows with room after the end of the range.
* `Schedule.windowsFrom_of_long_step` — a step out of the calendar.
* `Request.Fits` — training and test fit into the range.
* `Request.windows_of_validate` — what becomes of the windows of a checked request.
* `Request.not_all_validated_have_windows` — the checks do not keep a request in the calendar.
-/
namespace Backtest

namespace Schedule

variable {spec : Schedule} {training test step : Int}

/-- A schedule from an instant of the calendar on, in positive periods of whole days. -/
structure IsInDays (spec : Schedule) (training test step : Int) : Prop where
  start : spec.start.IsRepresentable
  trains : spec.training.IsDays training
  tests : spec.test.IsDays test
  steps : spec.step.IsDays step
  positive : 0 < training ∧ 0 < test ∧ 0 < step

theorem IsInDays.steps_nonneg (h : spec.IsInDays training test step) (index : Nat) :
    0 ≤ step * (index : Int) :=
  Int.mul_nonneg (Int.le_of_lt h.positive.2.2) (Int.natCast_nonneg index)

/-- Training that ends in the calendar has its dates. -/
theorem exists_trainingPart (h : spec.IsInDays training test step) (index : Nat)
    (hlast : spec.start.day + training + step * index ≤ Date.lastDay) :
    ∃ first last, spec.trainingPart index = some (first, last) ∧ last.IsRepresentable ∧
      last.day = spec.start.day + training + step * index := by
  have htraining := h.positive.1
  have hoffset := h.steps_nonneg index
  rw [trainingPart]
  cases hmode : spec.windowType with
  | rolling =>
    obtain ⟨first, hfirst, hrep, hday⟩ :=
      Instant.exists_add? h.start (h.steps.times index) hoffset (by omega)
    obtain ⟨last, hlast, hrep', hday'⟩ :=
      Instant.exists_add? hrep h.trains (Int.le_of_lt htraining) (by omega)
    exact ⟨first, last, by simp only [hfirst, hlast, Option.bind_eq_bind, Option.bind_some], hrep',
      by omega⟩
  | expanding =>
    obtain ⟨first, hfirst, hrep, hday⟩ :=
      Instant.exists_add? h.start h.trains (Int.le_of_lt htraining) (by omega)
    obtain ⟨last, hlast, hrep', hday'⟩ :=
      Instant.exists_add? hrep (h.steps.times index) hoffset (by omega)
    exact ⟨spec.start, last, by simp only [hfirst, hlast, Option.bind_eq_bind, Option.bind_some],
      hrep', by omega⟩

/-- With room for one test and one step after the end of the range no window leaves the calendar: a
test starts before that end, and the next training ends at most one step later. The walk ends by
itself as soon as the training of an index ends after the range. -/
theorem exists_windowsFrom (h : spec.IsInDays training test step)
    (htest : spec.stop.day + test ≤ Date.lastDay) (hstep : spec.stop.day + step ≤ Date.lastDay)
    (fuel index : Nat) (hlast : spec.start.day + training + step * index ≤ Date.lastDay)
    (hfuel : spec.stop.day < spec.start.day + training + step * (index + fuel : Nat)) :
    ∃ ws, ∀ more, spec.windowsFrom (more + fuel + 1) index = .ok ws := by
  induction fuel generalizing index with
  | zero =>
    obtain ⟨first, last, hpart, hrep, hday⟩ := exists_trainingPart h index hlast
    have hstop : spec.stop ≤ last := Instant.le_of_lt (Instant.lt_of_day_lt (hday ▸ hfuel))
    refine ⟨[], fun more => ?_⟩
    rw [windowsFrom]
    simp only [hpart, if_pos hstop]
  | succ fuel ih =>
    obtain ⟨first, last, hpart, hrep, hday⟩ := exists_trainingPart h index hlast
    by_cases hstop : spec.stop ≤ last
    · refine ⟨[], fun more => ?_⟩
      rw [windowsFrom]
      simp only [hpart, if_pos hstop]
    · have hearly := Instant.day_le_of_lt (Instant.not_le.1 hstop)
      obtain ⟨full, hfull, -, -⟩ :=
        Instant.exists_add? hrep h.tests (Int.le_of_lt h.positive.2.1) (by omega)
      by_cases hend : spec.stop ≤ full
      · refine ⟨[⟨index, first, last, last, Instant.min full spec.stop⟩], fun more => ?_⟩
        rw [windowsFrom]
        simp only [hpart, if_neg hstop, hfull, if_pos hend]
        rfl
      · have hnext : spec.start.day + training + step * (index + 1 : Nat) ≤ Date.lastDay := by
          rw [Int.natCast_add, Int.mul_add]
          omega
        rw [← Nat.add_assoc, Nat.add_right_comm] at hfuel
        obtain ⟨rest, hrest⟩ := ih (index + 1) hnext hfuel
        refine ⟨⟨index, first, last, last, Instant.min full spec.stop⟩ :: rest, fun more => ?_⟩
        rw [windowsFrom]
        simp only [hpart, if_neg hstop, hfull, if_neg hend]
        rw [← Nat.add_assoc, hrest more]
        rfl

/-- Before the bound on the windows is reached, the training of an index ends after the range. -/
theorem day_lt_windowBound (h : spec.IsInDays training test step) :
    ∃ fuel, spec.windowBound = fuel + 1 ∧
      spec.stop.day < spec.start.day + training + step * (0 + fuel : Nat) := by
  obtain ⟨htraining, -, hstep⟩ := h.positive
  have hsteps : spec.step.nanos = step * 86400 * 1000000000 := h.steps
  have hnano := h.start.nano
  refine ⟨((spec.start.spanTo spec.stop).nanos / spec.step.nanos).toNat + 2, rfl, ?_⟩
  have hquotient := Int.lt_ediv_add_one_mul_self (spec.start.spanTo spec.stop).nanos
    (show 0 < spec.step.nanos by omega)
  generalize (spec.start.spanTo spec.stop).nanos / spec.step.nanos = q at hquotient
  have hsteps' : (q + 1) * step ≤ ((q.toNat : Int) + 1) * step :=
    Int.mul_le_mul_of_nonneg_right (by omega) (Int.le_of_lt hstep)
  have hcount : step * ((0 + (q.toNat + 2) : Nat) : Int) = ((q.toNat : Int) + 1) * step + step := by
    rw [Int.mul_comm step,
      show ((0 + (q.toNat + 2) : Nat) : Int) = (q.toNat : Int) + 1 + 1 by omega,
      Int.add_mul _ 1 step, Int.one_mul]
  rw [hsteps, ← Int.mul_assoc, ← Int.mul_assoc] at hquotient
  rw [hcount]
  simp only [Instant.spanTo] at hquotient
  simp only [Instant.day]
  split at hquotient <;> omega

theorem trainingPart_eq_none (h : spec.IsInDays training test step) {index : Nat}
    (hlast : Date.lastDay < spec.start.day + step * index) : spec.trainingPart index = none := by
  have htraining := h.positive.1
  have hoffset := h.steps_nonneg index
  rw [trainingPart]
  cases hmode : spec.windowType with
  | rolling =>
    simp only [Instant.add?_eq_none h.start.nano (h.steps.times index) hoffset hlast]
    rfl
  | expanding =>
    by_cases hfirst : spec.start.day + training ≤ Date.lastDay
    · obtain ⟨first, hfirst, hrep, hday⟩ :=
        Instant.exists_add? h.start h.trains (Int.le_of_lt htraining) hfirst
      have hnone := Instant.add?_eq_none hrep.nano (h.steps.times index) hoffset (by omega)
      simp only [hfirst, Option.bind_eq_bind, Option.bind_some, hnone, Option.bind_none]
    · simp only [Instant.add?_eq_none h.start.nano h.trains (Int.le_of_lt htraining) (by omega)]
      rfl

/-- A step out of the calendar is taken after a window that ends early, though nothing of the range
is left there. -/
theorem windowsFrom_of_long_step (h : spec.IsInDays training test step)
    (hstop : spec.stop.day ≤ Date.lastDay)
    (hearly : spec.start.day + training + test < spec.stop.day)
    (hlong : Date.lastDay < spec.start.day + step) (fuel : Nat) :
    spec.windowsFrom (fuel + 2) 0 = .error .outOfCalendar := by
  have htest := h.positive.2.1
  obtain ⟨first, last, hpart, hrep, hday⟩ := exists_trainingPart h 0 (by omega)
  obtain ⟨full, hfull, -, hday'⟩ := Instant.exists_add? hrep h.tests (Int.le_of_lt htest) (by omega)
  have hlast : last < spec.stop := Instant.lt_of_day_lt (by omega)
  have hend : full < spec.stop := Instant.lt_of_day_lt (by omega)
  have hnext : spec.windowsFrom (fuel + 1) 1 = .error .outOfCalendar := by
    rw [windowsFrom, trainingPart_eq_none h (by omega)]
  rw [windowsFrom]
  simp only [hpart, hfull]
  rw [if_neg (Instant.not_le.2 hlast), if_neg (Instant.not_le.2 hend), hnext]
  rfl

end Schedule

namespace Request

variable {c : Request} {space : SearchSpace}

/-- Training and test fit into the range one after the other. -/
def Fits (c : Request) : Prop :=
  (c.trainingDays + c.testDays) * 86400 * 1000000000 ≤ (c.start.spanTo c.stop).nanos

instance (c : Request) : Decidable c.Fits := inferInstanceAs (Decidable (_ ≤ _))

/-- The schedule of a checked request whose periods are no longer than the longest span. -/
theorem IsChecked.exists_schedule (h : c.IsChecked space)
    (htraining : c.trainingDays ≤ Span.longestDays) (htest : c.testDays ≤ Span.longestDays)
    (hstep : c.stepDays ≤ Span.longestDays) :
    ∃ spec, c.schedule? = some spec ∧ spec.training.IsDays c.trainingDays ∧
      spec.test.IsDays c.testDays ∧ spec.step.IsDays c.stepDays := by
  obtain ⟨-, hpositive, hpositive', hpositive''⟩ := h.positive
  have hlongest : 0 ≤ Span.longestDays := by decide
  have hspan {n : Int} (hn : 0 < n) (hle : n ≤ Span.longestDays) :
      ∃ d, Span.ofDays? n = some d ∧ d.IsDays n :=
    ⟨⟨n * 86400 * 1000000000⟩, Span.ofDays?_eq_some_iff.2 ⟨⟨by omega, hle⟩, rfl⟩, rfl⟩
  obtain ⟨training, htraining, hdays⟩ := hspan hpositive htraining
  obtain ⟨test, htest, hdays'⟩ := hspan hpositive' htest
  obtain ⟨step, hstep, hdays''⟩ := hspan hpositive'' hstep
  refine ⟨⟨c.start, c.stop, training, test, step, c.windowType⟩, ?_, hdays, hdays', hdays''⟩
  rw [schedule?, Schedule.ofDays?, htraining, htest, hstep]
  rfl

theorem IsChecked.isInDays {spec : Schedule} (h : c.IsChecked space)
    (hstart : c.start.IsRepresentable) (hspec : c.schedule? = some spec) :
    spec.IsInDays c.trainingDays c.testDays c.stepDays := by
  obtain ⟨hfrom, -, htraining, htest, hstep⟩ := schedule?_eq_some hspec
  exact ⟨by rw [hfrom]; exact hstart, (Span.ofDays?_eq_some_iff.1 htraining).2,
    (Span.ofDays?_eq_some_iff.1 htest).2, (Span.ofDays?_eq_some_iff.1 hstep).2, h.positive.2⟩

/-- The windows of a checked request, from training and test on. -/
theorem IsChecked.windows_eq {spec : Schedule} (h : c.IsChecked space)
    (hspec : c.schedule? = some spec) :
    c.windows =
      if c.trainingDays + c.testDays ≤ Span.longestDays then
        if c.Fits then spec.windowsFrom spec.windowBound 0 else .ok []
      else .error .outOfCalendar := by
  obtain ⟨hstart, hstop, htraining, htest, -⟩ := schedule?_eq_some hspec
  obtain ⟨hperiods, hrange⟩ := h.schedule hspec
  obtain ⟨-, hpositive, hpositive', -⟩ := h.positive
  have hlongest : 0 ≤ Span.longestDays := by decide
  have hboth := (Span.ofDays?_eq_some_iff.1 htraining).2.add? (Span.ofDays?_eq_some_iff.1 htest).2
  rw [windows, hspec]
  simp only [Schedule.windows, hperiods]
  rw [if_neg (Instant.not_le.2 hrange), hboth]
  by_cases hle : c.trainingDays + c.testDays ≤ Span.longestDays
  · rw [if_pos ⟨by omega, hle⟩, if_pos hle, hstart, hstop]
    by_cases hfits : c.Fits
    · rw [if_pos hfits]
      exact if_neg (Int.not_lt.2 hfits)
    · rw [if_neg hfits]
      exact if_pos (Int.not_le.1 hfits)
  · rw [if_neg fun hboth => hle hboth.2, if_neg hle]

/-- What does not fit into its range has no windows, unless it is longer than any span. -/
theorem IsChecked.windows_of_not_fits (h : c.IsChecked space) (hfits : ¬ c.Fits) :
    c.windows = if c.trainingDays + c.testDays ≤ Span.longestDays ∧ c.stepDays ≤ Span.longestDays
      then .ok [] else .error .outOfCalendar := by
  obtain ⟨-, htraining, htest, hstep⟩ := h.positive
  cases hspec : c.schedule? with
  | none =>
    rw [windows, hspec, if_neg]
    rintro ⟨hboth, hlast⟩
    obtain ⟨spec, hsome, -⟩ := h.exists_schedule (by omega) (by omega) hlast
    rw [hspec] at hsome
    cases hsome
  | some spec =>
    obtain ⟨-, -, -, -, hdays⟩ := schedule?_eq_some hspec
    have hlast := (Span.ofDays?_eq_some_iff.1 hdays).1.2
    rw [h.windows_eq hspec, if_neg hfits]
    simp only [hlast, and_true]

/-- Where training and test fit, they end at most a leap second after the range. -/
theorem Fits.day_le (h : c.Fits) (hstart : c.start.IsRepresentable)
    (hstop : c.stop.IsRepresentable) :
    c.start.day + c.trainingDays + c.testDays ≤ c.stop.day + 1 := by
  have hnano := hstart.nano
  have hnano' := hstop.nano
  simp only [Fits, Instant.spanTo] at h
  simp only [Instant.day]
  split at h <;> omega

/-- A request that fits has windows if a test and a step after its range stay in the calendar, and
the walk over them ends by itself. -/
theorem IsChecked.exists_windows (h : c.IsChecked space) (hstart : c.start.IsRepresentable)
    (hstop : c.stop.IsRepresentable) (hfits : c.Fits)
    (htest : c.stop.day + c.testDays ≤ Date.lastDay)
    (hstep : c.stop.day + c.stepDays ≤ Date.lastDay) :
    ∃ spec ws, c.schedule? = some spec ∧ c.windows = .ok ws ∧
      ∀ fuel, spec.windowBound ≤ fuel → spec.windowsFrom fuel 0 = .ok ws := by
  obtain ⟨-, hpositive, hpositive', -⟩ := h.positive
  have hday := hfits.day_le hstart hstop
  have hfirst := hstart.inCalendar.1
  have hfirst' := hstop.inCalendar.1
  have hlast := hstop.inCalendar.2
  -- The calendar is shorter than the longest span.
  have hlength : Date.lastDay - Date.firstDay < Span.longestDays := by decide
  obtain ⟨spec, hspec, -⟩ := h.exists_schedule (by omega) (by omega) (by omega)
  obtain ⟨hfrom, hto, -⟩ := schedule?_eq_some hspec
  have hdays := h.isInDays hstart hspec
  obtain ⟨fuel, hbound, hfuel⟩ := Schedule.day_lt_windowBound hdays
  obtain ⟨ws, hws⟩ := Schedule.exists_windowsFrom hdays (by rw [hto]; exact htest)
    (by rw [hto]; exact hstep) fuel 0 (by rw [hfrom]; omega) hfuel
  have hwalk : ∀ n, spec.windowBound ≤ n → spec.windowsFrom n 0 = .ok ws := by
    intro n hn
    obtain ⟨more, rfl⟩ := Nat.exists_eq_add_of_le' hn
    rw [hbound, ← Nat.add_assoc]
    exact hws more
  refine ⟨spec, ws, hspec, ?_, hwalk⟩
  rw [h.windows_eq hspec, if_pos (by omega), if_pos hfits]
  exact hwalk spec.windowBound (Nat.le_refl _)

/-- A request whose first window ends early leaves the calendar if its step does. -/
theorem IsChecked.windows_of_long_step (h : c.IsChecked space) (hstart : c.start.IsRepresentable)
    (hstop : c.stop.IsRepresentable) (hfits : c.Fits)
    (hearly : c.start.day + c.trainingDays + c.testDays < c.stop.day)
    (hlong : Date.lastDay < c.start.day + c.stepDays) : c.windows = .error .outOfCalendar := by
  cases hspec : c.schedule? with
  | none => rw [windows, hspec]
  | some spec =>
    obtain ⟨hfrom, hto, -⟩ := schedule?_eq_some hspec
    rw [h.windows_eq hspec, if_pos hfits]
    split
    · refine Schedule.windowsFrom_of_long_step (h.isInDays hstart hspec) ?_ ?_ ?_ _
      · rw [hto]
        exact hstop.inCalendar.2
      · rw [hfrom, hto]
        exact hearly
      · rw [hfrom]
        exact hlong
    · rfl

/-- What becomes of the windows of a request that passes its checks: without room for training and
test there are none unless a period is longer than any span, and with it the walk over them ends by
itself if the calendar goes on after the range for a test and a step. A step out of the calendar is
fatal even where no second window is due. -/
theorem windows_of_validate (hvalid : c.validate = .ok ()) (hstart : c.start.IsRepresentable)
    (hstop : c.stop.IsRepresentable) :
    (¬ c.Fits → c.windows =
      if c.trainingDays + c.testDays ≤ Span.longestDays ∧ c.stepDays ≤ Span.longestDays then .ok []
      else .error .outOfCalendar) ∧
    (c.Fits → c.stop.day + c.testDays ≤ Date.lastDay → c.stop.day + c.stepDays ≤ Date.lastDay →
      ∃ spec ws, c.schedule? = some spec ∧ c.windows = .ok ws ∧
        ∀ fuel, spec.windowBound ≤ fuel → spec.windowsFrom fuel 0 = .ok ws) ∧
    (c.Fits → c.start.day + c.trainingDays + c.testDays < c.stop.day →
      Date.lastDay < c.start.day + c.stepDays → c.windows = .error .outOfCalendar) := by
  obtain ⟨space, h⟩ := validate_eq_ok_iff.1 hvalid
  exact ⟨h.windows_of_not_fits, h.exists_windows hstart hstop, h.windows_of_long_step hstart hstop⟩

/-- The first thirty days of 2024. -/
def month : Request := .new "BTCUSDT" ⟨1704067200, 0⟩ ⟨1706659200, 0⟩

/-- A month has windows, but not with a step beyond the calendar. -/
theorem windows_of_validate_month :
    (∃ ws, month.windows = .ok ws) ∧
      { month with stepDays := 100000000 }.validate = .ok () ∧
      { month with stepDays := 100000000 }.windows = .error .outOfCalendar := by
  obtain ⟨⟨⟩, hvalid⟩ := exists_eq_ok (show month.validate.isOk = true by decide +kernel)
  obtain ⟨⟨⟩, hvalid'⟩ := exists_eq_ok
    (show { month with stepDays := 100000000 }.validate.isOk = true by decide +kernel)
  have hstart : month.start.IsRepresentable := by decide
  have hstop : month.stop.IsRepresentable := by decide
  obtain ⟨-, hwindows, -⟩ := windows_of_validate hvalid hstart hstop
  obtain ⟨-, -, hlong⟩ := windows_of_validate hvalid' hstart hstop
  obtain ⟨spec, ws, -, hws, -⟩ := hwindows (by decide) (by decide) (by decide)
  exact ⟨⟨ws, hws⟩, hvalid', hlong (by decide) (by decide) (by decide)⟩

/-- A range within the calendar and the checks of a request do not make sure of its windows: the
training may be longer than any span. -/
theorem not_all_validated_have_windows :
    ¬ ∀ c : Request, c.validate = .ok () → c.start.IsRepresentable → c.stop.IsRepresentable →
      ∃ ws, c.windows = .ok ws := by
  intro h
  obtain ⟨⟨⟩, hvalid⟩ := exists_eq_ok
    (show { month with trainingDays := 9223372036854775807 }.validate.isOk = true by
      decide +kernel)
  obtain ⟨ws, hws⟩ := h _ hvalid (by decide) (by decide)
  have hnone : { month with trainingDays := 9223372036854775807 }.schedule? = none := by
    decide +kernel
  rw [windows, hnone] at hws
  cases hws

end Request
end Backtest
