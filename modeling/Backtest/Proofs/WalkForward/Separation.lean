import Backtest.Proofs.Market.Slices
import Backtest.Proofs.Schedule.Windows
import Backtest.Proofs.Search.Conservation
import Backtest.WalkForward.Interruption

/-!
# Windows see their own candles only

The training results of a window depend on no candle outside its training part, and its whole record
on none outside training and test: two series that agree there give the same. Each record is made
of the slices of its own window (`windowRecord_eq_some`), a run that is not cancelled makes one for
every window (`getElem?_runWindows`), and what two series share within wider bounds they share in
the slices.

## Main definitions

* `windowRecord_eq_some` — how a record comes about.
* `runUntil_outcome_eq_ok` — what a run that succeeds has run, stopped on the way or not.
* `WindowRecord.SameTraining` — records with the same training results.
* `run_separates` — records of two series that agree within the bounds of a window.
-/
namespace Backtest

namespace WalkForward

variable {request : Request} {space : SearchSpace} {window : Window} {cancelled : Bool}
  {pool : WorkerPool} {train test : List Candle}

/-! ## One window -/

/-- A record tells of a search of the training candles that found nothing, or of its best candidate
and the replay of it on the test candles. -/
theorem windowRecord_eq_some {r : WindowRecord}
    (h : windowRecord request space window cancelled pool train test = .ok (some r)) :
    ∃ outcome, Search.run train space request.baseParams request.searchPlan window.index cancelled
        pool = .ok outcome ∧
      ((outcome.best? = none ∧
          r = idleWindow request.simulation.initialBalance window outcome) ∨
        ∃ best typed replay, outcome.best? = some best ∧
          CrossoverParams.ofSet best.params = .ok typed ∧
          Simulation.run test typed request.simulation = .ok replay ∧
          r = testedWindow request window outcome best replay) := by
  rw [windowRecord] at h
  split at h
  · cases h
  · cases h
  · rename_i outcome hsearch
    refine ⟨outcome, hsearch, ?_⟩
    split at h
    · rename_i hbest
      cases h
      exact .inl ⟨hbest, rfl⟩
    · rename_i best hbest
      split at h
      · cases h
      · rename_i typed htyped
        split at h
        · cases h
        · rename_i replay hreplay
          cases h
          exact .inr ⟨best, typed, replay, hbest, htyped, hreplay, rfl⟩

theorem window_of_windowRecord {r : WindowRecord}
    (h : windowRecord request space window cancelled pool train test = .ok (some r)) :
    r.window = window := by
  obtain ⟨outcome, -, ⟨-, rfl⟩ | ⟨best, typed, replay, -, -, -, rfl⟩⟩ := windowRecord_eq_some h
  · rfl
  · rfl

/-- A record is the one that there would be with any workers. -/
theorem windowRecord_ready {r : WindowRecord}
    (h : windowRecord request space window cancelled pool train test = .ok (some r)) :
    windowRecord request space window cancelled .ready train test = .ok (some r) := by
  obtain ⟨outcome, hsearch, -⟩ := windowRecord_eq_some h
  rw [windowRecord, hsearch] at h
  rw [windowRecord, Search.run_ready hsearch]
  exact h

/-- A window without a record was cancelled. -/
theorem windowRecord_ne_none :
    windowRecord request space window false pool train test ≠ .ok none := by
  rw [windowRecord]
  split
  · rename_i hsearch
    exact absurd hsearch Search.run_ne_cancelled
  · intro h; cases h
  · split
    · intro h; cases h
    · split
      · intro h; cases h
      · split
        · intro h; cases h
        · intro h; cases h

end WalkForward

/-- Two records agree in all that the training part of a window decides. -/
structure WindowRecord.SameTraining (x y : WindowRecord) : Prop where
  bestParams : x.bestParams = y.bestParams
  trainMetrics : x.trainMetrics = y.trainMetrics
  trainObjective : x.trainObjective = y.trainObjective
  disqualified : x.disqualified = y.disqualified
  disqualifyReason : x.disqualifyReason = y.disqualifyReason
  evaluated : x.candidatesEvaluated = y.candidatesEvaluated
  excluded : x.candidatesDisqualified = y.candidatesDisqualified
  skipped : x.candidatesSkipped = y.candidatesSkipped

namespace WalkForward

variable {request : Request} {space : SearchSpace} {window : Window} {cancelled : Bool}
  {pool : WorkerPool} {pools pools' : Nat → WorkerPool} {train test test' : List Candle}

/-- The test candles decide nothing about the training. -/
theorem sameTraining_of_windowRecord {x y : WindowRecord}
    (hx : windowRecord request space window cancelled pool train test = .ok (some x))
    (hy : windowRecord request space window cancelled pool train test' = .ok (some y)) :
    x.SameTraining y := by
  obtain ⟨outcome, hsearch, hx⟩ := windowRecord_eq_some hx
  obtain ⟨outcome', hsearch', hy⟩ := windowRecord_eq_some hy
  have houtcome := hsearch.symm.trans hsearch'
  cases houtcome
  rcases hx with ⟨hnone, rfl⟩ | ⟨best, typed, replay, hbest, -, -, rfl⟩
  · rcases hy with ⟨-, rfl⟩ | ⟨best', -, -, hbest', -⟩
    · exact ⟨rfl, rfl, rfl, rfl, rfl, rfl, rfl, rfl⟩
    · rw [hnone] at hbest'
      cases hbest'
  · rcases hy with ⟨hnone', -⟩ | ⟨best', typed', replay', hbest', -, -, rfl⟩
    · rw [hnone'] at hbest
      cases hbest
    · rw [hbest] at hbest'
      cases hbest'
      exact ⟨rfl, rfl, rfl, rfl, rfl, rfl, rfl, rfl⟩

/-! ## All windows -/

/-- Windows that all ran leave one record each, made of their own slices. -/
theorem getElem?_runWindows {series : CandleSeries} {total completed : Nat} {ws : List Window}
    {status : RunStatus}
    (h : (runWindows request series space false pools total completed ws).ending = .ok status) :
    (runWindows request series space false pools total completed ws).windows.length = ws.length ∧
      ∀ (i : Nat) w, ws[i]? = some w → ∃ r,
        (runWindows request series space false pools total completed ws).windows[i]? = some r ∧
          windowRecord request space w false .ready (series.slice w.trainStart w.trainEnd)
            (series.slice w.testStart w.testEnd) = .ok (some r) := by
  induction ws generalizing completed with
  | nil => exact ⟨rfl, fun i w hw => nomatch hw⟩
  | cons w rest ih =>
    rw [runWindows, if_neg Bool.false_ne_true] at h ⊢
    cases hrecord : windowRecord request space w false (pools completed)
        (series.slice w.trainStart w.trainEnd) (series.slice w.testStart w.testEnd) with
    | error e =>
      rw [hrecord] at h
      cases h
    | ok found =>
      cases found with
      | none => exact absurd hrecord windowRecord_ne_none
      | some r =>
        simp only [hrecord] at h ⊢
        obtain ⟨hlength, hrest⟩ := ih h
        refine ⟨by rw [List.length_cons, List.length_cons, hlength], fun i v hv => ?_⟩
        cases i with
        | zero =>
          cases hv
          exact ⟨r, rfl, windowRecord_ready hrecord⟩
        | succ j => exact hrest j v hv

/-- What a record looks like in a result. -/
def kept (request : Request) (r : WindowRecord) : WindowRecord :=
  if request.includeTrades then r else withoutTrades r

/-- Only the trades of a record can be left out. -/
theorem kept_eq (r : WindowRecord) : kept request r =
    { r with testTrades := if request.includeTrades then r.testTrades else [] } := by
  rw [kept]
  split
  · rfl
  · rfl

theorem windows_result (total : Nat) (status : RunStatus) (rs : List WindowRecord) :
    (result request total status rs).windows = rs.map (kept request) := by
  unfold result kept
  cases request.includeTrades with
  | true => exact (List.map_id' rs).symm
  | false => rfl

/-- A run that succeeds has a space and windows, and the windows all ran or the run was stopped. -/
theorem runUntil_outcome_eq_ok {series : CandleSeries} {stop : Interruption} {r : RunResult} :
    (runUntil request series stop).outcome = .ok r ↔
      ∃ space ws status, request.checkedSpace = .ok space ∧ request.windows = .ok ws ∧
        (runWindowsUntil request series space stop ws.length 0 ws).ending = .ok status ∧
        r = result request ws.length status
          (runWindowsUntil request series space stop ws.length 0 ws).windows := by
  rw [runUntil]
  constructor
  · intro h
    split at h
    · cases h
    · rename_i space hspace
      split at h
      · cases h
      · cases h
      · rename_i ws hwindows
        simp only at h
        split at h
        · cases h
        · rename_i status hending
          cases h
          exact ⟨space, ws, status, hspace, hwindows, hending, rfl⟩
  · rintro ⟨space, ws, status, hspace, hwindows, hending, rfl⟩
    simp only [hspace, hwindows, hending]

/-- A run that succeeds has a space and windows, and the windows all ran or were cancelled. -/
theorem run_outcome_eq_ok {series : CandleSeries} {r : RunResult}
    (h : (run request series cancelled pools).outcome = .ok r) :
    ∃ space ws status, request.checkedSpace = .ok space ∧ request.windows = .ok ws ∧
      (runWindows request series space cancelled pools ws.length 0 ws).ending = .ok status ∧
      r = result request ws.length status
        (runWindows request series space cancelled pools ws.length 0 ws).windows := by
  rw [← runUntil_constant] at h
  simpa only [runWindowsUntil_constant] using runUntil_outcome_eq_ok.1 h

/-- The record of each window in a result. -/
theorem getElem?_windows_of_run {series : CandleSeries} {r : RunResult}
    (h : (run request series false pools).outcome = .ok r) :
    ∃ space ws, request.checkedSpace = .ok space ∧ request.windows = .ok ws ∧
      r.windows.length = ws.length ∧ ∀ (i : Nat) w, ws[i]? = some w → ∃ x,
        r.windows[i]? = some (kept request x) ∧
          windowRecord request space w false .ready (series.slice w.trainStart w.trainEnd)
            (series.slice w.testStart w.testEnd) = .ok (some x) := by
  obtain ⟨space, ws, status, hspace, hwindows, hending, rfl⟩ := run_outcome_eq_ok h
  obtain ⟨hlength, hrecords⟩ := getElem?_runWindows hending
  refine ⟨space, ws, hspace, hwindows, ?_, fun i w hw => ?_⟩
  · rw [windows_result, List.length_map, hlength]
  · obtain ⟨x, hx, hrecord⟩ := hrecords i w hw
    exact ⟨x, by rw [windows_result, List.getElem?_map, hx]; rfl, hrecord⟩

/-! ## Samples -/

/-- Four candles a day, each at one price. -/
def quarterly (closes : List Float) : List Candle :=
  closes.mapIdx fun i price => ⟨⟨(i : Nat) * 21600, 0⟩, price, price, price, price, 1⟩

/-- A day of training and a day of test, twice. -/
def threeDays : Request :=
  { Request.new "sample" ⟨0, 0⟩ ⟨259200, 0⟩ with
    trainingDays := 1
    testDays := 1
    stepDays := 1
    baseParams :=
      .ofList [("ma_type", .text "sma"), ("fast_period", .int 1), ("slow_period", .int 2)]
    guardrails := { minTrades := 0, lotteryTradeThreshold := 2 } }

/-- Three days that end as the others did. -/
def steadyDays : CandleSeries where
  candles := quarterly [10, 10, 12, 13, 9, 9, 12, 11, 10, 10, 14, 12]
  nonempty := by decide
  pricesValid := by decide +kernel
  timesIncrease := by decide +kernel

/-- Three days that fall on the last of them. -/
def fallingDays : CandleSeries where
  candles := quarterly [10, 10, 12, 13, 9, 9, 12, 11, 10, 9, 8, 7]
  nonempty := by decide
  pricesValid := by decide +kernel
  timesIncrease := by decide +kernel

/-! ## Two series -/

@[simp] theorem window_kept (x : WindowRecord) : (kept request x).window = x.window := by
  rw [kept_eq]

theorem sameTraining_kept {x y : WindowRecord} (h : x.SameTraining y) :
    (kept request x).SameTraining (kept request y) := by
  rw [kept_eq, kept_eq]
  exact ⟨h.1, h.2, h.3, h.4, h.5, h.6, h.7, h.8⟩

/-- Two records of one window agree as far as the series do. -/
structure Separates (w : Window) (a b : CandleSeries) (x y : WindowRecord) : Prop where
  window : x.window = w ∧ y.window = w
  training : a.openWithin w.trainStart w.trainEnd = b.openWithin w.trainStart w.trainEnd →
    x.SameTraining y
  whole : a.openWithin w.trainStart w.testEnd = b.openWithin w.trainStart w.testEnd → x = y

/-- Training and test lie within the bounds of an ordered window. -/
theorem separates_of_windowRecord {w : Window} (hw : w.IsOrdered) {a b : CandleSeries}
    {x y : WindowRecord}
    (hx : windowRecord request space w false .ready (a.slice w.trainStart w.trainEnd)
      (a.slice w.testStart w.testEnd) = .ok (some x))
    (hy : windowRecord request space w false .ready (b.slice w.trainStart w.trainEnd)
      (b.slice w.testStart w.testEnd) = .ok (some y)) :
    Separates w a b (kept request x) (kept request y) := by
  simp only [CandleSeries.slice_eq_openWithin] at hx hy
  refine ⟨?_, ?_, ?_⟩
  · rw [window_kept, window_kept]
    exact ⟨window_of_windowRecord hx, window_of_windowRecord hy⟩
  · intro h
    rw [← h] at hy
    exact sameTraining_kept (sameTraining_of_windowRecord hx hy)
  · intro h
    have hstart : w.trainStart ≤ w.testStart := by
      rw [hw.adjacent]
      exact hw.training
    have hend : w.trainEnd ≤ w.testEnd := by
      rw [← hw.adjacent]
      exact hw.test
    rw [← CandleSeries.openWithin_congr_of_wider h (Instant.le_refl _) hend,
      ← CandleSeries.openWithin_congr_of_wider h hstart (Instant.le_refl _)] at hy
    have heq := hx.symm.trans hy
    cases heq
    rfl

/-- Two runs of a request, whatever workers they get, give records of each window that agree as far
as the series do. -/
theorem run_separates {a b : CandleSeries} {r r' : RunResult}
    (h : (run request a false pools).outcome = .ok r)
    (h' : (run request b false pools').outcome = .ok r') :
    ∃ ws, request.windows = .ok ws ∧ r.windows.length = ws.length ∧
      r'.windows.length = ws.length ∧ ∀ (i : Nat) w, ws[i]? = some w → ∃ x y,
        r.windows[i]? = some x ∧ r'.windows[i]? = some y ∧ Separates w a b x y := by
  obtain ⟨space, ws, hspace, hwindows, hlength, hrecords⟩ := getElem?_windows_of_run h
  obtain ⟨space', ws', hspace', hwindows', hlength', hrecords'⟩ := getElem?_windows_of_run h'
  cases hspace.symm.trans hspace'
  cases hwindows.symm.trans hwindows'
  refine ⟨ws, hwindows, hlength, hlength', fun i w hw => ?_⟩
  obtain ⟨x, hx, hrecord⟩ := hrecords i w hw
  obtain ⟨y, hy, hrecord'⟩ := hrecords' i w hw
  obtain ⟨spec, hspec⟩ : ∃ spec : Schedule, spec.windows = .ok ws := by
    rw [Request.windows] at hwindows
    split at hwindows
    · cases hwindows
    · exact ⟨_, hwindows⟩
  have hordered := Schedule.isOrdered_of_mem_windows hspec (List.mem_of_getElem? hw)
  exact ⟨_, _, hx, hy, separates_of_windowRecord hordered hrecord hrecord'⟩

/-- A window of a day of training and a day of test. -/
def dayWindow (index : Nat) : Window :=
  ⟨index, ⟨index * 86400, 0⟩, ⟨(index + 1) * 86400, 0⟩, ⟨(index + 1) * 86400, 0⟩,
    ⟨(index + 2) * 86400, 0⟩⟩

/-- The two series agree in the first window and in the training part of the second, but not in its
test part. -/
theorem run_separates_lastDay :
    ∃ r r', (run threeDays steadyDays false).outcome = .ok r ∧
      (run threeDays fallingDays false).outcome = .ok r' ∧
      threeDays.windows = .ok [dayWindow 0, dayWindow 1] ∧
      steadyDays.openWithin (dayWindow 0).trainStart (dayWindow 0).testEnd =
        fallingDays.openWithin (dayWindow 0).trainStart (dayWindow 0).testEnd ∧
      steadyDays.openWithin (dayWindow 1).trainStart (dayWindow 1).trainEnd =
        fallingDays.openWithin (dayWindow 1).trainStart (dayWindow 1).trainEnd ∧
      steadyDays.openWithin (dayWindow 1).trainStart (dayWindow 1).testEnd ≠
        fallingDays.openWithin (dayWindow 1).trainStart (dayWindow 1).testEnd ∧
      (∃ x, r.windows[0]? = some x ∧ r'.windows[0]? = some x) ∧
      ∃ x y, r.windows[1]? = some x ∧ r'.windows[1]? = some y ∧ x.SameTraining y := by
  obtain ⟨r, h⟩ := exists_eq_ok
    (show (run threeDays steadyDays false).outcome.isOk = true by decide +kernel)
  obtain ⟨r', h'⟩ := exists_eq_ok
    (show (run threeDays fallingDays false).outcome.isOk = true by decide +kernel)
  have hwindows : threeDays.windows = .ok [dayWindow 0, dayWindow 1] :=
    eq_ok_of_toOption_eq (by decide +kernel)
  have hfirst : steadyDays.openWithin (dayWindow 0).trainStart (dayWindow 0).testEnd =
      fallingDays.openWithin (dayWindow 0).trainStart (dayWindow 0).testEnd := by
    decide +kernel
  have htraining : steadyDays.openWithin (dayWindow 1).trainStart (dayWindow 1).trainEnd =
      fallingDays.openWithin (dayWindow 1).trainStart (dayWindow 1).trainEnd := by
    decide +kernel
  have htest : steadyDays.openWithin (dayWindow 1).trainStart (dayWindow 1).testEnd ≠
      fallingDays.openWithin (dayWindow 1).trainStart (dayWindow 1).testEnd := by
    decide +kernel
  obtain ⟨ws, hws, -, -, hrecords⟩ := run_separates h h'
  obtain rfl : ws = _ := Except.ok.inj (hws.symm.trans hwindows)
  obtain ⟨x, y, hx, hy, hseparates⟩ := hrecords 0 _ rfl
  obtain ⟨x', y', hx', hy', hseparates'⟩ := hrecords 1 _ rfl
  obtain rfl := hseparates.whole hfirst
  exact ⟨r, r', h, h', hwindows, hfirst, htraining, htest, ⟨x, hx, hy⟩, x', y', hx', hy',
    hseparates'.training htraining⟩

end WalkForward
end Backtest
