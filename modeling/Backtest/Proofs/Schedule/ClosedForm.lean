import Backtest.Proofs.WalkForward.Spacing

/-!
# Schedules in closed form

A window is known from its index alone: its test starts after the training and so many steps, lasts
as long as a test and is clipped at the end of the range. The walk over the windows stops at the
first test that reaches the end, or before the first that would start there. It never looks further
than one step past the end of the range, so whether its dates stay in the calendar is a question of
the indices up to there.

A range that is made longer keeps the windows that were not clipped. That asks for the same first
comparison, of training and test with the length of the range, and it has one exception: from within
a leap second it takes longer to a leap second at the end of a day than to the beginning of the next
day, so a later end may leave too little room.

## Main definitions

* `Schedule.windowAt` — the window of an index.
* `Schedule.StopsAt` — how many windows there are.
* `Schedule.StaysInCalendar` — every date of the walk exists.
* `Schedule.exists_walksTo` — the walk in closed form, by the steps that are left.
* `Schedule.windows_eq_outOfCalendar_iff` — when the walk leaves the calendar.
* `Schedule.Unrolls` — a list of windows in closed form.
* `Schedule.unrolls_windows` — the windows of a schedule.
-/
namespace Backtest

/-- The test of a window, without its training. -/
def Window.testSlice (w : Window) : Instant × Instant := (w.testStart, w.testEnd)

namespace Schedule

/-- The start of a test: after the training and as many steps as its index. -/
def testStartAt (spec : Schedule) (index : Nat) : Instant :=
  spec.start.plus ⟨spec.training.nanos + spec.step.nanos * index⟩

/-- The end of a test that is not clipped. -/
def fullEndAt (spec : Schedule) (index : Nat) : Instant :=
  (spec.testStartAt index).plus spec.test

/-- The start of a training, which only moves if it rolls. -/
def trainStartAt (spec : Schedule) (index : Nat) : Instant :=
  match spec.windowType with
  | .rolling => spec.start.plus (spec.step.times index)
  | .expanding => spec.start

/-- The window of an index. -/
def windowAt (spec : Schedule) (index : Nat) : Window where
  index := index
  trainStart := spec.trainStartAt index
  trainEnd := spec.testStartAt index
  testStart := spec.testStartAt index
  testEnd := Instant.min (spec.fullEndAt index) spec.stop

/-- Training and test fit into the range one after the other. -/
def Fits (spec : Schedule) : Prop :=
  spec.training.nanos + spec.test.nanos ≤ (spec.start.spanTo spec.stop).nanos

instance (spec : Schedule) : Decidable spec.Fits := inferInstanceAs (Decidable (_ ≤ _))

/-- The walk gets to an index: all tests before it have ended early. -/
def Reaches (spec : Schedule) (index : Nat) : Prop :=
  ∀ i < index, spec.fullEndAt i < spec.stop

/-- The dates of an index exist: the start of its test, and its end if it starts in the range. -/
def HasDates (spec : Schedule) (index : Nat) : Prop :=
  (spec.testStartAt index).InCalendar ∧
    (spec.testStartAt index < spec.stop → (spec.fullEndAt index).InCalendar)

/-- Everything that the schedule computes exists: training and test together are a span, and if they
fit, the calendar has the dates of each index that the walk gets to. -/
structure StaysInCalendar (spec : Schedule) : Prop where
  both : (spec.training.add? spec.test).isSome
  dates : spec.Fits → ∀ index, spec.Reaches index → spec.HasDates index

/-- The walk stops after so many windows: they start in the range, all but the last end early, and
either the last reaches the end of the range or the next would not start in it. -/
structure StopsAt (spec : Schedule) (count : Nat) : Prop where
  early : ∀ i < count, spec.testStartAt i < spec.stop
  unclipped : ∀ i, i + 1 < count → spec.fullEndAt i < spec.stop
  last : spec.stop ≤ spec.testStartAt count ∨ ∃ i, count = i + 1 ∧ spec.stop ≤ spec.fullEndAt i

variable {spec : Schedule} {training test step : Int}

section Dates

theorem IsInDays.nanos (h : spec.IsInDays training test step) :
    spec.training.nanos = training * 86400 * 1000000000 ∧
      spec.test.nanos = test * 86400 * 1000000000 ∧
      spec.step.nanos = step * 86400 * 1000000000 :=
  ⟨h.trains, h.tests, h.steps⟩

/-- The time from the start of the range to the start of a test. -/
theorem IsInDays.lead (h : spec.IsInDays training test step) (index : Nat) :
    (⟨spec.training.nanos + spec.step.nanos * index⟩ : Span).IsDays (training + step * index) := by
  have hsteps : (spec.step.times index).nanos = step * index * 86400 * 1000000000 :=
    h.steps.times index
  rw [Span.nanos_times] at hsteps
  rw [Span.IsDays, h.nanos.1, hsteps, ← Int.add_mul, ← Int.add_mul]

theorem second_testStartAt (h : spec.IsInDays training test step) (index : Nat) :
    (spec.testStartAt index).second = spec.start.second + (training + step * index) * 86400 ∧
      (spec.testStartAt index).nano = spec.start.nano % 1000000000 := by
  have htraining := h.positive.1
  have hsteps := h.steps_nonneg index
  have hlead := h.lead index
  obtain ⟨hsecond, -⟩ := Instant.plus_days h.start.nano hlead (by omega)
  have hnano := Instant.nano_plus_days h.start.nano hlead (by omega)
  simp only [testStartAt]
  omega

theorem second_fullEndAt (h : spec.IsInDays training test step) (index : Nat) :
    (spec.fullEndAt index).second =
        spec.start.second + (training + step * index) * 86400 + test * 86400 ∧
      (spec.fullEndAt index).nano = spec.start.nano % 1000000000 := by
  have htest := h.positive.2.1
  obtain ⟨hsecond, hnano⟩ := second_testStartAt h index
  have hle : (spec.testStartAt index).nano < 2000000000 := by omega
  obtain ⟨hsecond', -⟩ := Instant.plus_days hle h.tests (Int.le_of_lt htest)
  have hnano' := Instant.nano_plus_days hle h.tests (Int.le_of_lt htest)
  simp only [fullEndAt]
  omega

theorem testStartAt_lt_fullEndAt (h : spec.IsInDays training test step) (index : Nat) :
    spec.testStartAt index < spec.fullEndAt index := by
  have htest := h.positive.2.1
  have hstart := second_testStartAt h index
  have hend := second_fullEndAt h index
  rw [Instant.lt_def]
  omega

theorem testStartAt_day (h : spec.IsInDays training test step) (index : Nat) :
    (spec.testStartAt index).day = spec.start.day + training + step * index := by
  simp only [Instant.day, (second_testStartAt h index).1]
  omega

theorem fullEndAt_day (h : spec.IsInDays training test step) (index : Nat) :
    (spec.fullEndAt index).day = spec.start.day + training + step * index + test := by
  simp only [Instant.day, (second_fullEndAt h index).1]
  omega

/-- Dates after the start of the range are in the calendar up to its last day. -/
theorem IsInDays.inCalendar_iff (h : spec.IsInDays training test step) {t : Instant}
    (ht : spec.start.day ≤ t.day) : t.InCalendar ↔ t.day ≤ Date.lastDay := by
  have hfirst := h.start.inCalendar.1
  rw [Instant.InCalendar]
  omega

end Dates

section Walk

/-- Start and end of a training are those of its index. -/
theorem eq_of_trainingPart (h : spec.IsInDays training test step) {index : Nat}
    {first last : Instant} (hpart : spec.trainingPart index = some (first, last)) :
    first = spec.trainStartAt index ∧ last = spec.testStartAt index ∧ last.InCalendar := by
  obtain ⟨hsecond, hnano⟩ := end_of_trainingPart h hpart
  obtain ⟨hsecond', hnano'⟩ := second_testStartAt h index
  have hlast : last = spec.testStartAt index := by
    rw [← hsecond'] at hsecond
    rw [← hnano'] at hnano
    exact Instant.ext hsecond hnano
  rw [trainingPart] at hpart
  rw [trainStartAt]
  cases hmode : spec.windowType with
  | rolling =>
    simp only [hmode, Option.bind_eq_bind, Option.bind_eq_some_iff] at hpart
    obtain ⟨start, hstart, stop, hstop, hpart⟩ := hpart
    cases hpart
    exact ⟨(Instant.inCalendar?_eq_some hstart).1, hlast, Instant.inCalendar_of_add? hstop⟩
  | expanding =>
    simp only [hmode, Option.bind_eq_bind, Option.bind_eq_some_iff] at hpart
    obtain ⟨start, -, stop, hstop, hpart⟩ := hpart
    cases hpart
    exact ⟨rfl, hlast, Instant.inCalendar_of_add? hstop⟩

/-- Which training an index has depends on where it ends. -/
theorem trainingPart_eq (h : spec.IsInDays training test step) (index : Nat) :
    spec.trainingPart index = if (spec.testStartAt index).InCalendar then
      some (spec.trainStartAt index, spec.testStartAt index) else none := by
  split
  · rename_i hcalendar
    have hlast := hcalendar.2
    rw [testStartAt_day h index] at hlast
    obtain ⟨first, last, hpart, -⟩ := exists_trainingPart h index hlast
    obtain ⟨rfl, rfl, -⟩ := eq_of_trainingPart h hpart
    exact hpart
  · rename_i hcalendar
    cases hpart : spec.trainingPart index with
    | none => rfl
    | some part =>
      obtain ⟨first, last⟩ := part
      obtain ⟨-, rfl, hcalendar'⟩ := eq_of_trainingPart h hpart
      exact absurd hcalendar' hcalendar

/-- One step of the walk. -/
theorem windowsFrom_succ (h : spec.IsInDays training test step) (fuel : Nat) {index : Nat}
    (hdates : spec.HasDates index) :
    spec.windowsFrom (fuel + 1) index =
      if spec.stop ≤ spec.testStartAt index then .ok []
      else if spec.stop ≤ spec.fullEndAt index then .ok [spec.windowAt index]
      else (spec.windowsFrom fuel (index + 1)).map (spec.windowAt index :: ·) := by
  obtain ⟨hstart, hend⟩ := hdates
  rw [windowsFrom, trainingPart_eq h]
  simp only [if_pos hstart]
  by_cases hstop : spec.stop ≤ spec.testStartAt index
  · rw [if_pos hstop, if_pos hstop]
  · have hadd : (spec.testStartAt index).add? spec.test = some (spec.fullEndAt index) :=
      if_pos (hend (Instant.not_le.1 hstop))
    rw [if_neg hstop, if_neg hstop]
    simp only [hadd]
    by_cases hlast : spec.stop ≤ spec.fullEndAt index
    · rw [if_pos hlast, if_pos hlast]
      rfl
    · rw [if_neg hlast, if_neg hlast]
      cases spec.windowsFrom fuel (index + 1) with
      | error e => rfl
      | ok rest => rfl

/-- One more test that ends early takes the walk to the next index. -/
theorem Reaches.succ {index : Nat} (h : spec.Reaches index)
    (hend : spec.fullEndAt index < spec.stop) : spec.Reaches (index + 1) := by
  intro i hi
  rcases Nat.lt_succ_iff_lt_or_eq.1 hi with hi | rfl
  · exact h i hi
  · exact hend

/-- Tests that end early have started in the range. -/
theorem Reaches.early {index : Nat} (hreaches : spec.Reaches index)
    (h : spec.IsInDays training test step) : ∀ i < index, spec.testStartAt i < spec.stop :=
  fun i hi => Instant.lt_trans (testStartAt_lt_fullEndAt h i) (hreaches i hi)

/-- From an index on, the walk gives the windows up to a count, with any number of steps more than
it takes. -/
def WalksTo (spec : Schedule) (fuel index count : Nat) : Prop :=
  index ≤ count ∧ spec.StopsAt count ∧ ∀ more, spec.windowsFrom (more + fuel + 1) index =
    .ok ((List.range' index (count - index)).map spec.windowAt)

/-- The walk stops before a test that would not start in the range. -/
theorem walksTo_of_stop_le (h : spec.IsInDays training test step) (fuel : Nat) {index : Nat}
    (hreaches : spec.Reaches index) (hdates : spec.HasDates index)
    (hstop : spec.stop ≤ spec.testStartAt index) : spec.WalksTo fuel index index := by
  refine ⟨Nat.le_refl _, ⟨hreaches.early h, fun i hi => hreaches i (by omega), .inl hstop⟩,
    fun more => ?_⟩
  rw [windowsFrom_succ h _ hdates, if_pos hstop, Nat.sub_self]
  rfl

/-- The walk stops after a test that reaches the end of the range. -/
theorem walksTo_succ_of_stop_le (h : spec.IsInDays training test step) (fuel : Nat) {index : Nat}
    (hreaches : spec.Reaches index) (hdates : spec.HasDates index)
    (hstart : spec.testStartAt index < spec.stop) (hend : spec.stop ≤ spec.fullEndAt index) :
    spec.WalksTo fuel index (index + 1) := by
  refine ⟨Nat.le_succ _, ⟨?_, fun i hi => hreaches i (by omega), .inr ⟨index, rfl, hend⟩⟩,
    fun more => ?_⟩
  · intro i hi
    rcases Nat.lt_succ_iff_lt_or_eq.1 hi with hi | rfl
    · exact hreaches.early h i hi
    · exact hstart
  · rw [windowsFrom_succ h _ hdates, if_neg (Instant.not_le.2 hstart), if_pos hend,
      Nat.add_sub_cancel_left]
    rfl

/-- A test that ends early passes the walk on. -/
theorem WalksTo.of_succ (h : spec.IsInDays training test step) {fuel index count : Nat}
    (hwalk : spec.WalksTo fuel (index + 1) count) (hdates : spec.HasDates index)
    (hend : spec.fullEndAt index < spec.stop) : spec.WalksTo (fuel + 1) index count := by
  obtain ⟨hle, hstops, hws⟩ := hwalk
  refine ⟨Nat.le_of_succ_le hle, hstops, fun more => ?_⟩
  have hstart := Instant.lt_trans (testStartAt_lt_fullEndAt h index) hend
  rw [windowsFrom_succ h _ hdates, if_neg (Instant.not_le.2 hstart), if_neg (Instant.not_le.2 hend),
    ← Nat.add_assoc, hws more, show count - index = count - (index + 1) + 1 by omega,
    List.range'_succ]
  rfl

/-- The walk in closed form, as far as the calendar goes. The induction is on the steps that are
left: without any, the test of the index would start after the range. -/
theorem exists_walksTo (h : spec.IsInDays training test step)
    (hdates : ∀ i, spec.Reaches i → spec.HasDates i) (fuel : Nat) {index : Nat}
    (hreaches : spec.Reaches index) (hfuel : spec.stop ≤ spec.testStartAt (index + fuel)) :
    ∃ count, spec.WalksTo fuel index count := by
  induction fuel generalizing index with
  | zero => exact ⟨index, walksTo_of_stop_le h 0 hreaches (hdates index hreaches) hfuel⟩
  | succ fuel ih =>
    have hhere := hdates index hreaches
    by_cases hstop : spec.stop ≤ spec.testStartAt index
    · exact ⟨index, walksTo_of_stop_le h _ hreaches hhere hstop⟩
    · by_cases hend : spec.stop ≤ spec.fullEndAt index
      · exact ⟨index + 1,
          walksTo_succ_of_stop_le h _ hreaches hhere (Instant.not_le.1 hstop) hend⟩
      · rw [← Nat.add_assoc, Nat.add_right_comm] at hfuel
        obtain ⟨count, hwalk⟩ := ih (hreaches.succ (Instant.not_le.1 hend)) hfuel
        exact ⟨count, hwalk.of_succ h hhere (Instant.not_le.1 hend)⟩

/-- The steps that the walk may take lead past the end of the range. -/
theorem exists_windowBound (h : spec.IsInDays training test step) :
    ∃ fuel, spec.windowBound = fuel + 1 ∧ spec.stop < spec.testStartAt fuel := by
  obtain ⟨fuel, hbound, hday⟩ := day_lt_windowBound h
  refine ⟨fuel, hbound, Instant.lt_of_day_lt ?_⟩
  rw [testStartAt_day h, ← Nat.zero_add fuel]
  exact hday

end Walk

section Range

/-- Where training and test fit, the first test starts in the range. -/
theorem Fits.testStartAt_lt (hfits : spec.Fits) (h : spec.IsInDays training test step)
    (hstop : spec.stop.nano < 2000000000) :
    spec.testStartAt 0 < spec.stop := by
  obtain ⟨hsecond, hnano⟩ := second_testStartAt h 0
  have htest := h.positive.2.1
  have hnano' := h.start.nano
  obtain ⟨htrains, htests, -⟩ := h.nanos
  simp only [Fits, Instant.spanTo] at hfits
  rw [Instant.lt_def]
  split at hfits <;> omega

/-- A range that goes on to the end of the first test has room for it, unless it starts in a leap
second. A leap second at its end takes no second off, as it then ends that much later. -/
theorem fits_of_fullEndAt_le (h : spec.IsInDays training test step)
    (hleap : spec.start.isLeap = false) (hend : spec.fullEndAt 0 ≤ spec.stop) : spec.Fits := by
  obtain ⟨hsecond, hnano⟩ := second_fullEndAt h 0
  obtain ⟨htrains, htests, -⟩ := h.nanos
  rw [Instant.isLeap, decide_eq_false_iff_not] at hleap
  rw [Instant.le_iff] at hend
  simp only [Fits, Instant.spanTo, Instant.secondOfDay, Instant.isLeap, decide_eq_true_eq]
  split
  · omega
  · split <;> omega

/-- A later end of the range makes no window fewer. -/
theorem StopsAt.le_of_le {later : Instant} (hlater : spec.stop ≤ later) {count count' : Nat}
    (hstops : spec.StopsAt count) (hstops' : { spec with stop := later }.StopsAt count') :
    count ≤ count' := by
  refine Nat.le_of_not_lt fun hlt => ?_
  rcases hstops'.last with hlast | ⟨i, rfl, hlast⟩
  · exact Instant.le_trans hlater hlast (hstops.early count' hlt)
  · exact Instant.le_trans hlater hlast (hstops.unclipped i hlt)

/-- A walk stops at one place only. -/
theorem StopsAt.unique {count count' : Nat} (hstops : spec.StopsAt count)
    (hstops' : spec.StopsAt count') : count = count' :=
  Nat.le_antisymm (hstops.le_of_le (Instant.le_refl spec.stop) hstops')
    (hstops'.le_of_le (Instant.le_refl spec.stop) hstops)

/-- The calendar has fewer days than a signed counter of 32 bits has values. -/
theorem StopsAt.lt {count : Nat} (hstops : spec.StopsAt count)
    (h : spec.IsInDays training test step) (hstop : spec.stop.InCalendar) :
    count < 2147483647 := by
  have hlength : Date.lastDay - Date.firstDay < 2147483646 := by decide
  have hfirst := h.start.inCalendar.1
  have hlast := hstop.2
  obtain ⟨htraining, -, hstep⟩ := h.positive
  cases count with
  | zero => decide
  | succ i =>
    have hday := Instant.day_le_of_lt (hstops.early i (Nat.lt_succ_self i))
    have hsteps : 1 * (i : Int) ≤ step * i :=
      Int.mul_le_mul_of_nonneg_right hstep (Int.natCast_nonneg i)
    rw [testStartAt_day h] at hday
    omega

end Range

section Windows

/-- The windows, from training and test on. -/
theorem IsInDays.windows_eq (h : spec.IsInDays training test step)
    (hrange : spec.start < spec.stop) :
    spec.windows =
      if (spec.training.add? spec.test).isSome then
        if spec.Fits then spec.windowsFrom spec.windowBound 0 else .ok []
      else .error .outOfCalendar := by
  obtain ⟨htraining, htest, hstep⟩ := h.positive
  obtain ⟨htrains, htests, hsteps⟩ := h.nanos
  have hperiods : spec.nonPositive? = none := by
    rw [nonPositive?, if_neg (by omega), if_neg (by omega), if_neg (by omega)]
  rw [windows, hperiods]
  simp only [if_neg (Instant.not_le.2 hrange)]
  cases hboth : spec.training.add? spec.test with
  | none => rfl
  | some both =>
    have hnanos : both.nanos = spec.training.nanos + spec.test.nanos := by
      rw [Span.add?, Span.ofNanos?] at hboth
      split at hboth <;> cases hboth
      rfl
    simp only [Option.isSome_some, if_true, hnanos]
    by_cases hfits : spec.Fits
    · rw [if_pos hfits, if_neg (Int.not_lt.2 hfits)]
    · rw [if_neg hfits, if_pos (Int.not_le.1 hfits)]

/-- The walk over the windows ends by itself, after the windows of the first indices. -/
theorem StaysInCalendar.exists_count (hstays : spec.StaysInCalendar)
    (h : spec.IsInDays training test step) (hfits : spec.Fits) :
    ∃ count, spec.StopsAt count ∧ ∀ fuel, spec.windowBound ≤ fuel →
      spec.windowsFrom fuel 0 = .ok ((List.range count).map spec.windowAt) := by
  obtain ⟨fuel, hbound, hend⟩ := exists_windowBound h
  have hreaches : spec.Reaches 0 := fun i hi => absurd hi (Nat.not_lt_zero i)
  obtain ⟨count, -, hstops, hwalk⟩ := exists_walksTo h (hstays.dates hfits) fuel hreaches
    (by rw [Nat.zero_add]; exact Instant.le_of_lt hend)
  refine ⟨count, hstops, fun n hn => ?_⟩
  obtain ⟨more, rfl⟩ := Nat.exists_eq_add_of_le' hn
  rw [hbound, ← Nat.add_assoc, List.range_eq_range']
  exact hwalk more

/-- Room for one test and one step after the end of the range is enough for every date. -/
theorem staysInCalendar_of_room (h : spec.IsInDays training test step)
    (hstop : spec.stop.nano < 2000000000) (hboth : training + test ≤ Span.longestDays)
    (htest : spec.stop.day + test ≤ Date.lastDay) (hstep : spec.stop.day + step ≤ Date.lastDay) :
    spec.StaysInCalendar := by
  obtain ⟨hpositive, hpositive', hpositive''⟩ := h.positive
  have hlongest : 0 ≤ Span.longestDays := by decide
  refine ⟨?_, fun hfits index hreaches => ⟨?_, fun hearly => ?_⟩⟩
  · rw [h.trains.add? h.tests, if_pos (by omega)]
    rfl
  · have hsteps := h.steps_nonneg index
    rw [h.inCalendar_iff (by rw [testStartAt_day h]; omega)]
    cases index with
    | zero =>
      have hday := Instant.day_le_of_lt (hfits.testStartAt_lt h hstop)
      omega
    | succ i =>
      have hday := Instant.day_le_of_lt (hreaches i (Nat.lt_succ_self i))
      rw [fullEndAt_day h] at hday
      rw [testStartAt_day h, Int.natCast_add, Int.mul_add]
      omega
  · have hsteps := h.steps_nonneg index
    have hday := Instant.day_le_of_lt hearly
    rw [h.inCalendar_iff (by rw [fullEndAt_day h]; omega)]
    rw [testStartAt_day h] at hday
    rw [fullEndAt_day h]
    omega

/-- A list of windows in closed form. Its last field is about the counter of the walk, which is
converted to 32 bits with a sign. -/
structure Unrolls (spec : Schedule) (ws : List Window) : Prop where
  windows : ws = (List.range ws.length).map spec.windowAt
  empty : ws = [] ↔ ¬ spec.Fits
  stops : spec.Fits → spec.StopsAt ws.length
  tests : ∀ w ∈ ws, w.testStart < w.testEnd ∧ w.testEnd ≤ spec.stop
  terminates : spec.Fits → ∀ fuel, spec.windowBound ≤ fuel → spec.windowsFrom fuel 0 = .ok ws
  counter : ∀ i ≤ ws.length, (Int32.ofNat i).toInt = i

/-- A schedule that stays in the calendar has its windows in closed form. -/
theorem StaysInCalendar.exists_windows (hstays : spec.StaysInCalendar)
    (h : spec.IsInDays training test step) (hrange : spec.start < spec.stop)
    (hstop : spec.stop.IsRepresentable) : ∃ ws, spec.windows = .ok ws ∧ spec.Unrolls ws := by
  rw [h.windows_eq hrange, if_pos hstays.both]
  by_cases hfits : spec.Fits
  · obtain ⟨count, hstops, hwalk⟩ := hstays.exists_count h hfits
    have hlength : ((List.range count).map spec.windowAt).length = count := by
      rw [List.length_map, List.length_range]
    refine ⟨(List.range count).map spec.windowAt, ?_, ?_⟩
    · rw [if_pos hfits]
      exact hwalk _ (Nat.le_refl _)
    constructor
    case windows => rw [hlength]
    case empty =>
      refine ⟨fun hempty => ?_, fun hnot => absurd hfits hnot⟩
      rw [hempty] at hlength
      subst hlength
      rcases hstops.last with hlast | ⟨i, hcount, -⟩
      · exact absurd (hfits.testStartAt_lt h hstop.nano) hlast
      · cases hcount
    case stops => exact fun _ => hlength.symm ▸ hstops
    case tests =>
      intro w hw
      obtain ⟨i, hi, rfl⟩ := List.mem_map.1 hw
      exact ⟨Instant.lt_min (testStartAt_lt_fullEndAt h i)
        (hstops.early i (List.mem_range.1 hi)), Instant.min_le_right _ _⟩
    case terminates => exact fun _ => hwalk
    case counter =>
      intro i hi
      have hlt := hstops.lt h hstop.inCalendar
      exact Int32.toInt_ofNat_of_lt (by omega)
  · refine ⟨[], if_neg hfits, ?_⟩
    constructor
    case windows => rfl
    case empty => exact ⟨fun _ => hfits, fun _ => rfl⟩
    case stops => exact fun hfits' => absurd hfits' hfits
    case tests => exact fun w hw => absurd hw List.not_mem_nil
    case terminates => exact fun hfits' => absurd hfits' hfits
    case counter =>
      intro i hi
      cases Nat.le_zero.1 hi
      rfl

/-- The tests of a schedule do not depend on how its trainings move. -/
theorem testSlice_of_windowType {mode : TrainingMode} {ws ws' : List Window}
    (hws : spec.Unrolls ws) (hws' : { spec with windowType := mode }.Unrolls ws') :
    ws'.map (·.testSlice) = ws.map (·.testSlice) := by
  have hlength : ws'.length = ws.length := by
    by_cases hfits : spec.Fits
    · have hstops := hws'.stops hfits
      have hsame : spec.StopsAt ws'.length := ⟨hstops.early, hstops.unclipped, hstops.last⟩
      exact hsame.unique (hws.stops hfits)
    · rw [hws.empty.2 hfits, hws'.empty.2 hfits]
  rw [hws.windows, hws'.windows, hlength, List.map_map, List.map_map]
  rfl

/-- A window of the list is the one of its index. -/
theorem Unrolls.of_mem {ws : List Window} (hws : spec.Unrolls ws) {w : Window} (hw : w ∈ ws) :
    w.index < ws.length ∧ w = spec.windowAt w.index ∧ spec.Fits := by
  have hfits : spec.Fits := Classical.byContradiction fun hnot =>
    List.ne_nil_of_mem hw (hws.empty.2 hnot)
  rw [hws.windows] at hw
  obtain ⟨i, hi, rfl⟩ := List.mem_map.1 hw
  exact ⟨List.mem_range.1 hi, rfl, hfits⟩

/-- Where any test is not clipped, the first is not. -/
theorem Unrolls.fullEndAt_zero_le {ws : List Window} (hws : spec.Unrolls ws) {w : Window}
    (hw : w ∈ ws) (hunclipped : w.testEnd = spec.fullEndAt w.index) :
    spec.fullEndAt 0 ≤ spec.stop := by
  obtain ⟨hlt, hwindow, hfits⟩ := hws.of_mem hw
  cases hindex : w.index with
  | zero =>
    rw [hindex] at hunclipped
    rw [← hunclipped]
    exact (hws.tests w hw).2
  | succ i =>
    exact Instant.le_of_lt ((hws.stops hfits).unclipped 0 (by omega))

/-- A later end of the range keeps the windows that were not clipped, if there are any windows. -/
theorem Unrolls.getElem?_later {later : Instant} (hlater : spec.stop ≤ later)
    (hfits : { spec with stop := later }.Fits) {ws ws' : List Window} (hws : spec.Unrolls ws)
    (hws' : { spec with stop := later }.Unrolls ws') {w : Window} (hw : w ∈ ws)
    (hunclipped : w.testEnd = spec.fullEndAt w.index) : ws'[w.index]? = some w := by
  obtain ⟨hlt, hwindow, hfits'⟩ := hws.of_mem hw
  have hle := (hws.stops hfits').le_of_le hlater (hws'.stops hfits)
  have hend : w.testEnd = Instant.min w.testEnd later := by
    rw [Instant.min, if_neg]
    exact Instant.le_trans (hws.tests w hw).2 hlater
  have hsame : { spec with stop := later }.windowAt w.index = w := by
    rw [hunclipped] at hend
    rw [hwindow] at hunclipped ⊢
    exact congrArg (Window.mk w.index (spec.trainStartAt w.index) (spec.testStartAt w.index)
      (spec.testStartAt w.index)) (hend.symm.trans hunclipped.symm)
  rw [hws'.windows, List.getElem?_map, List.getElem?_range (by omega), Option.map_some, hsame]

/-- A schedule in positive numbers of days that stays in the calendar has its windows in closed
form. Their tests are the same whether the training rolls or grows, and a later end of the range
keeps those that were not clipped; from within a leap second it must still have room for one
window. -/
theorem unrolls_windows {start stop : Instant} {mode : TrainingMode}
    (hspec : ofDays? start stop training test step mode = some spec)
    (hpositive : 0 < training ∧ 0 < test ∧ 0 < step) (hrange : start < stop)
    (hstart : start.IsRepresentable) (hstop : stop.IsRepresentable)
    (hstays : spec.StaysInCalendar) :
    ∃ ws, spec.windows = .ok ws ∧ spec.Unrolls ws ∧
      (∀ mode', ∃ ws', { spec with windowType := mode' }.windows = .ok ws' ∧
        ws'.map (·.testSlice) = ws.map (·.testSlice)) ∧
      ∀ later, stop ≤ later → later.IsRepresentable → { spec with stop := later }.StaysInCalendar →
        (start.isLeap = true → { spec with stop := later }.Fits) →
        ∃ ws', { spec with stop := later }.windows = .ok ws' ∧
          ∀ w ∈ ws, w.testEnd = spec.fullEndAt w.index → ws'[w.index]? = some w := by
  simp only [ofDays?, Option.bind_eq_bind, Option.bind_eq_some_iff,
    Span.ofDays?_eq_some_iff] at hspec
  obtain ⟨trains, ⟨-, htrains⟩, tests, ⟨-, htests⟩, steps, ⟨-, hsteps⟩, hspec⟩ := hspec
  cases hspec
  have h : IsInDays ⟨start, stop, trains, tests, steps, mode⟩ training test step :=
    ⟨hstart, htrains, htests, hsteps, hpositive⟩
  obtain ⟨ws, hwindows, hws⟩ := hstays.exists_windows h hrange hstop
  refine ⟨ws, hwindows, hws, fun mode' => ?_, fun later hlater hlater' hstays' hleap => ?_⟩
  · have h' : IsInDays ⟨start, stop, trains, tests, steps, mode'⟩ training test step :=
      ⟨hstart, htrains, htests, hsteps, hpositive⟩
    have hstays' : StaysInCalendar ⟨start, stop, trains, tests, steps, mode'⟩ :=
      ⟨hstays.both, hstays.dates⟩
    obtain ⟨ws', hwindows', hws'⟩ := hstays'.exists_windows h' hrange hstop
    exact ⟨ws', hwindows', testSlice_of_windowType hws hws'⟩
  · have h' : IsInDays ⟨start, later, trains, tests, steps, mode⟩ training test step :=
      ⟨hstart, htrains, htests, hsteps, hpositive⟩
    obtain ⟨ws', hwindows', hws'⟩ :=
      hstays'.exists_windows h' (Instant.lt_of_lt_of_le hrange hlater) hlater'
    refine ⟨ws', hwindows', fun w hw hunclipped => ?_⟩
    refine hws.getElem?_later hlater ?_ hws' hw hunclipped
    cases hstartLeap : start.isLeap with
    | true => exact hleap hstartLeap
    | false =>
      exact fits_of_fullEndAt_le h' hstartLeap
        (Instant.le_trans (hws.fullEndAt_zero_le hw hunclipped) hlater)

/-- Two weeks of training and one of test in January 2024, a week after another. -/
def january : Schedule :=
  ⟨⟨1704067200, 0⟩, ⟨1706659200, 0⟩, ⟨14 * 86400 * 1000000000⟩, ⟨7 * 86400 * 1000000000⟩,
    ⟨7 * 86400 * 1000000000⟩, .rolling⟩

/-- January has three windows, the last one clipped. With February the first two are the same. -/
theorem unrolls_windows_january :
    (january.Unrolls ([0, 1, 2].map january.windowAt) ∧
      january.windows = .ok ([0, 1, 2].map january.windowAt)) ∧
      ∃ ws, { january with stop := ⟨1709164800, 0⟩ }.windows = .ok ws ∧
        ws[1]? = some (january.windowAt 1) := by
  have hspec : ofDays? january.start january.stop 14 7 7 .rolling = some january := by decide
  have hdays : january.IsInDays 14 7 7 := ⟨by decide, rfl, rfl, rfl, by decide⟩
  have hstays : january.StaysInCalendar :=
    staysInCalendar_of_room hdays (by decide) (by decide) (by decide) (by decide)
  have hdays' : { january with stop := ⟨1709164800, 0⟩ }.IsInDays 14 7 7 :=
    ⟨by decide, rfl, rfl, rfl, by decide⟩
  have hstays' : { january with stop := ⟨1709164800, 0⟩ }.StaysInCalendar :=
    staysInCalendar_of_room hdays' (by decide) (by decide) (by decide) (by decide)
  have hthree : january.windows = .ok ([0, 1, 2].map january.windowAt) := by rfl
  obtain ⟨ws, hwindows, hws, -, hlater⟩ := unrolls_windows hspec (by decide) (by decide)
    (by decide) (by decide) hstays
  rw [hthree] at hwindows
  cases hwindows
  obtain ⟨ws', hwindows', hkept⟩ := hlater ⟨1709164800, 0⟩ (by decide) (by decide) hstays'
    fun hleap => absurd hleap (by decide)
  exact ⟨⟨hws, hthree⟩, ws', hwindows', hkept (january.windowAt 1) (by decide) (by decide)⟩

/-- Days from the leap second of 2016, one of training and one of test. -/
def afterLeapSecond : Schedule :=
  ⟨⟨1483228799, 1900000000⟩, ⟨1483401599, 1950000000⟩, ⟨86400 * 1000000000⟩,
    ⟨86400 * 1000000000⟩, ⟨86400 * 1000000000⟩, .rolling⟩

/-- A later end does not keep every window that was not clipped. This range ends in a leap second as
it starts in one; the beginning of the next day comes after its end, but sooner after its start, and
too soon for training and test. -/
theorem not_all_windows_kept :
    ¬ ∀ (start stop later : Instant) (training test step : Int) (mode : TrainingMode)
      (spec : Schedule) (ws : List Window),
      ofDays? start stop training test step mode = some spec →
      0 < training ∧ 0 < test ∧ 0 < step → start < stop → start.IsRepresentable →
      stop.IsRepresentable → spec.StaysInCalendar → stop ≤ later → later.IsRepresentable →
      { spec with stop := later }.StaysInCalendar → spec.windows = .ok ws →
      ∃ ws', { spec with stop := later }.windows = .ok ws' ∧
        ∀ w ∈ ws, w.testEnd = spec.fullEndAt w.index → ws'[w.index]? = some w := by
  intro h
  have hspec : ofDays? afterLeapSecond.start afterLeapSecond.stop 1 1 1 .rolling =
      some afterLeapSecond := by decide
  have hdays : afterLeapSecond.IsInDays 1 1 1 := ⟨by decide, rfl, rfl, rfl, by decide⟩
  have hstays : afterLeapSecond.StaysInCalendar :=
    staysInCalendar_of_room hdays (by decide) (by decide) (by decide) (by decide)
  have hdays' : { afterLeapSecond with stop := ⟨1483401600, 100000000⟩ }.IsInDays 1 1 1 :=
    ⟨by decide, rfl, rfl, rfl, by decide⟩
  have hstays' : { afterLeapSecond with stop := ⟨1483401600, 100000000⟩ }.StaysInCalendar :=
    staysInCalendar_of_room hdays' (by decide) (by decide) (by decide) (by decide)
  have htwo : afterLeapSecond.windows = .ok ([0, 1].map afterLeapSecond.windowAt) := by rfl
  have hnone : { afterLeapSecond with stop := ⟨1483401600, 100000000⟩ }.windows = .ok [] := by rfl
  obtain ⟨ws', hwindows', hkept⟩ := h _ _ ⟨1483401600, 100000000⟩ 1 1 1 _ _ _ hspec (by decide)
    (by decide) (by decide) (by decide) hstays (by decide) (by decide) hstays' htwo
  rw [hnone] at hwindows'
  cases hwindows'
  have hfirst := hkept (afterLeapSecond.windowAt 0) (by decide) (by decide)
  cases hfirst

end Windows

end Schedule
end Backtest
