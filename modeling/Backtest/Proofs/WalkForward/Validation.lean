import Backtest.Proofs.Schedule.Windows
import Backtest.Proofs.Time.WholeDays
import Backtest.WalkForward.Request

/-!
# What a checked request is known to have

The checks of a request refuse the first fault they find, so one that passes has none of them: its
range leads forward, its periods are positive, its grid is within the limit and its account is in
order. Its schedule can then only fail for leaving the calendar.

## Main definitions

* `Request.IsChecked` — a request without a fault, and its space.
* `Request.validate_eq_ok_iff` — the checks find exactly that.
* `Request.IsChecked.ends_windows` — the windows of a checked request.
-/
namespace Backtest

namespace Request

variable {c : Request} {space : SearchSpace}

/-- A request that has no fault with a parameter space. -/
structure IsChecked (c : Request) (space : SearchSpace) : Prop where
  request : c.requestFault? = none
  axes : SearchSpace.ofRanges c.paramRanges = .ok space
  search : c.searchFault? space = none
  simulation : c.simulation.fault? = none

theorem checkedSpace_eq_ok_iff : c.checkedSpace = .ok space ↔ c.IsChecked space := by
  rw [checkedSpace]
  constructor
  · intro h
    split at h
    · cases h
    · rename_i hrequest
      split at h
      · cases h
      · rename_i found hfound
        split at h
        · cases h
        · rename_i hsearch
          split at h
          · cases h
          · rename_i hsimulation
            cases h
            exact ⟨hrequest, hfound, hsearch, hsimulation⟩
  · rintro ⟨hrequest, hspace, hsearch, hsimulation⟩
    simp only [hrequest, hspace, hsearch, hsimulation]

theorem validate_eq_ok_iff : c.validate = .ok () ↔ ∃ space, c.IsChecked space := by
  rw [validate]
  cases hspace : c.checkedSpace with
  | error e =>
    refine ⟨fun h => (nomatch h), ?_⟩
    rintro ⟨space, h⟩
    rw [checkedSpace_eq_ok_iff.2 h] at hspace
    cases hspace
  | ok space => exact ⟨fun _ => ⟨space, checkedSpace_eq_ok_iff.1 hspace⟩, fun _ => rfl⟩

theorem nonPositiveField?_eq_none (h : c.nonPositiveField? = none) :
    0 < c.trainingDays ∧ 0 < c.testDays ∧ 0 < c.stepDays := by
  simpa [nonPositiveField?, and_assoc] using h

theorem requestFault?_eq_none (h : c.requestFault? = none) :
    c.start < c.stop ∧ c.nonPositiveField? = none ∧ c.unknownName? = none := by
  rw [requestFault?] at h
  split at h
  · cases h
  · split at h
    · cases h
    · split at h
      · cases h
      · rename_i hstop
        split at h
        · cases h
        · cases h
        · rename_i hfield hname
          exact ⟨Instant.not_le.1 hstop, hfield, hname⟩

/-- A grid that was checked is within its limit. -/
theorem IsChecked.size_le (h : c.IsChecked space) (hgrid : c.method = .grid) :
    space.size ≤ c.maxCombinations := by
  have hsearch := h.search
  rw [searchFault?] at hsearch
  split at hsearch
  · cases hsearch
  · rename_i hsmall
    exact Nat.not_lt.1 fun hlarge => hsmall ⟨hgrid, hlarge⟩

/-- The schedule of a request exists if no period is longer than any span. -/
theorem schedule?_eq_some {spec : Schedule} (h : c.schedule? = some spec) :
    spec.start = c.start ∧ spec.stop = c.stop ∧
      Span.ofDays? c.trainingDays = some spec.training ∧
      Span.ofDays? c.testDays = some spec.test ∧ Span.ofDays? c.stepDays = some spec.step := by
  rw [schedule?, Schedule.ofDays?] at h
  simp only [Option.bind_eq_bind, Option.bind_eq_some_iff] at h
  obtain ⟨training, htraining, test, htest, step, hstep, h⟩ := h
  cases h
  exact ⟨rfl, rfl, htraining, htest, hstep⟩

/-- A request with windows has a schedule. -/
theorem exists_schedule_of_windows {ws : List Window} (h : c.windows = .ok ws) :
    ∃ spec, c.schedule? = some spec ∧ spec.windows = .ok ws := by
  rw [windows] at h
  split at h
  · cases h
  · rename_i spec hspec
    exact ⟨spec, hspec, h⟩

/-- A checked request leads forward by positive periods. -/
theorem IsChecked.positive (h : c.IsChecked space) :
    c.start < c.stop ∧ 0 < c.trainingDays ∧ 0 < c.testDays ∧ 0 < c.stepDays := by
  obtain ⟨hrange, hfield, -⟩ := requestFault?_eq_none h.request
  exact ⟨hrange, nonPositiveField?_eq_none hfield⟩

/-- The schedule of a checked request has positive periods and a range that leads forward. -/
theorem IsChecked.schedule {spec : Schedule} (h : c.IsChecked space)
    (hspec : c.schedule? = some spec) :
    spec.nonPositive? = none ∧ spec.start < spec.stop := by
  obtain ⟨hstart, hstop, htraining, htest, hstep⟩ := schedule?_eq_some hspec
  obtain ⟨hrange, hpositive⟩ := h.positive
  have htraining := (Span.ofDays?_eq_some_iff.1 htraining).2
  have htest := (Span.ofDays?_eq_some_iff.1 htest).2
  have hstep := (Span.ofDays?_eq_some_iff.1 hstep).2
  rw [Span.IsDays] at htraining htest hstep
  refine ⟨?_, by rw [hstart, hstop]; exact hrange⟩
  rw [Schedule.nonPositive?, if_neg (by omega), if_neg (by omega), if_neg (by omega)]

/-- The windows of a checked request are numbered in order, unless a date leaves the calendar. -/
theorem IsChecked.ends_windows (h : c.IsChecked space) :
    Ends (fun ws : List Window => ws.map (·.index) = List.range ws.length) (· = .outOfCalendar)
      c.windows := by
  rw [windows]
  split
  · exact rfl
  · rename_i spec hspec
    obtain ⟨hperiods, hrange⟩ := h.schedule hspec
    exact Schedule.ends_windows hperiods hrange

end Request
end Backtest
