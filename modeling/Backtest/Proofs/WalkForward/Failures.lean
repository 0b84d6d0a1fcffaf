import Backtest.Proofs.WalkForward.Separation
import Backtest.Proofs.WalkForward.Validation

/-!
# What a checked request can fail with

The checks of a request and of a series leave a run only one way to fail: the values of a parameter
set that cannot be read. Everything else was checked before. The grid is within its limit, the
account is in order, the candles of a slice are priced, and what a search found was read once
already. So a run that gets its workers fails in the search of a window for its parameters, or it
completes with one record for every window.

## Main definitions

* `SearchError.BlamesParams` — the failures of a search that are left.
* `ends_windowRecord` — one window of a checked request.
* `ends_runWindows` — all of them.
* `run_completes_or_blames_params` — every run of a checked request.
-/
namespace Backtest

/-- A search gave up on parameters that cannot be read: the base values, or a combination that is
refused for more than its place. -/
def SearchError.BlamesParams (space : SearchSpace) (base : ParamSet) (e : SearchError) : Prop :=
  (∃ fault, e = .baseParams fault ∧
    CrossoverParams.ofSet (Search.fixedParams space base) = .error fault) ∨
  ∃ i fault, e = .candidateParams (ParamSet.overlay base (space.combination i)) fault ∧
    CrossoverParams.ofSet (ParamSet.overlay base (space.combination i)) = .error fault ∧
    Search.isSkippable fault = false

/-- The candles of a slice are candles of its series. -/
theorem CandleSeries.isPriced_slice (s : CandleSeries) (start stop : Instant) :
    ∀ c ∈ s.slice start stop, c.isPriced = true := by
  intro c hc
  rw [slice_eq_openWithin, openWithin] at hc
  exact s.pricesValid c (List.mem_filter.1 hc).1

namespace WalkForward

variable {request : Request} {space : SearchSpace} {pool : WorkerPool} {pools : Nat → WorkerPool}

/-- A replay of priced candles with readable parameters is not refused. -/
theorem exists_replay (hchecked : request.IsChecked space) {candles : List Candle}
    (hpriced : ∀ c ∈ candles, c.isPriced = true) {p : CrossoverParams} (hp : p.fault? = none) :
    ∃ r, Simulation.run candles p request.simulation = .ok r :=
  ⟨_, Simulation.run_eq_ok_iff.2 ⟨hp, hchecked.simulation, hpriced, rfl⟩⟩

/-- With workers the search of a checked request on priced candles fails for its parameters only. -/
theorem blamesParams_of_failsBy (hchecked : request.IsChecked space)
    (hpool : pool.Serves request.threads) {train : List Candle}
    (htrain : ∀ c ∈ train, c.isPriced = true) {e : SearchError}
    (h : Search.FailsBy train space request.baseParams request.searchPlan false pool e) :
    e.BlamesParams space request.baseParams := by
  cases h with
  | base fault h => exact .inl ⟨fault, rfl, h⟩
  | grid hgrid hsize => exact absurd (hchecked.size_le hgrid) (Nat.not_le.2 hsize)
  | candidate i fault h hrefused => exact .inr ⟨i, fault, rfl, h, hrefused⟩
  | replay p e hp hrun =>
    obtain ⟨r, hr⟩ := exists_replay hchecked htrain hp
    rw [Request.searchPlan, hr] at hrun
    cases hrun
  | pool reason hthreads hreason =>
    rw [Request.searchPlan, hpool.resolve_left hthreads] at hreason
    cases hreason
  | cancelled hcancelled => cases hcancelled

/-- With workers a window of a checked request has a record unless its search fails for its
parameters. -/
theorem ends_windowRecord (hchecked : request.IsChecked space)
    (hpool : pool.Serves request.threads) (window : Window) {train test : List Candle}
    (htrain : ∀ c ∈ train, c.isPriced = true) (htest : ∀ c ∈ test, c.isPriced = true) :
    Ends (fun _ => True)
      (fun e => ∃ s, e = .search window.index s ∧ s.BlamesParams space request.baseParams)
      (windowRecord request space window false pool train test) := by
  have hsearch := Search.ends_run train space request.baseParams request.searchPlan window.index
    false pool
  rw [windowRecord]
  split
  · trivial
  · rename_i e _ hfails
    exact ⟨e, rfl,
      blamesParams_of_failsBy hchecked hpool htrain (hsearch.failure_of_eq_error hfails)⟩
  · rename_i outcome houtcome
    split
    · trivial
    · rename_i best hbest
      obtain ⟨p, hp⟩ := hsearch.value_of_eq_ok houtcome best (List.mem_of_mem_head? hbest)
      obtain ⟨r, hr⟩ := exists_replay hchecked htest (CrossoverParams.ofSet_eq_ok_iff.1 hp).2
      simp only [hp, hr]
      trivial

/-- With workers the windows of a checked request all run, or the search of one fails for its
parameters. -/
theorem ends_runWindows (hchecked : request.IsChecked space)
    (hpools : ∀ completed, (pools completed).Serves request.threads) (series : CandleSeries)
    (total completed : Nat) (ws : List Window) :
    Ends (· = .completed)
      (fun e => ∃ w ∈ ws, ∃ s, e = .search w.index s ∧ s.BlamesParams space request.baseParams)
      (runWindows request series space false pools total completed ws).ending := by
  induction ws generalizing completed with
  | nil => exact rfl
  | cons w rest ih =>
    have hrecord := ends_windowRecord hchecked (hpools completed) w
      (series.isPriced_slice w.trainStart w.trainEnd) (series.isPriced_slice w.testStart w.testEnd)
    rw [runWindows, if_neg Bool.false_ne_true]
    split
    · rename_i e hfails
      obtain ⟨s, hs, hblames⟩ := hrecord.failure_of_eq_error hfails
      exact ⟨w, List.mem_cons_self, s, hs, hblames⟩
    · rename_i hnone
      exact absurd hnone windowRecord_ne_none
    · have hrest := ih (completed + 1)
      cases hending :
          (runWindows request series space false pools total (completed + 1) rest).ending with
      | ok status => exact hrest.value_of_eq_ok hending
      | error e =>
        obtain ⟨v, hv, hblames⟩ := hrest.failure_of_eq_error hending
        exact ⟨v, List.mem_cons_of_mem w hv, hblames⟩

/-- The records of windows that all ran are of these windows in order. -/
theorem map_window_runWindows {series : CandleSeries} {total completed : Nat} {ws : List Window}
    {status : RunStatus}
    (h : (runWindows request series space false pools total completed ws).ending = .ok status) :
    (runWindows request series space false pools total completed ws).windows.map (·.window) =
      ws := by
  obtain ⟨hlength, hrecords⟩ := getElem?_runWindows h
  refine List.ext_getElem? fun i => ?_
  rw [List.getElem?_map]
  cases hw : ws[i]? with
  | none =>
    rw [List.getElem?_eq_none_iff, ← hlength] at hw
    rw [List.getElem?_eq_none_iff.2 hw]
    rfl
  | some w =>
    obtain ⟨r, hr, hrecord⟩ := hrecords i w hw
    rw [hr, Option.map_some, window_of_windowRecord hrecord]

/-- A run of a checked request whose dates stay in the calendar, and which gets its workers for
every search, completes with one record for every window, in the order of their numbers, or fails in
the search of one for parameters that cannot be read. -/
theorem run_completes_or_blames_params (hvalid : request.validate = .ok ())
    (hcalendar : request.windows ≠ .error .outOfCalendar)
    (hpools : ∀ completed, (pools completed).Serves request.threads) (series : CandleSeries) :
    ∃ space ws, request.checkedSpace = .ok space ∧ request.windows = .ok ws ∧
      ws.map (·.index) = List.range ws.length ∧
      ((∃ r, (run request series false pools).outcome = .ok r ∧ r.status = .completed ∧
          r.totalWindows = ws.length ∧ r.windows.map (·.window) = ws) ∨
        ∃ w ∈ ws, ∃ e, (run request series false pools).outcome = .error (.search w.index e) ∧
          e.BlamesParams space request.baseParams) := by
  obtain ⟨space, hchecked⟩ := Request.validate_eq_ok_iff.1 hvalid
  have hspace := Request.checkedSpace_eq_ok_iff.2 hchecked
  have hends := hchecked.ends_windows
  cases hwindows : request.windows with
  | error e =>
    obtain rfl := hends.failure_of_eq_error hwindows
    exact absurd hwindows hcalendar
  | ok ws =>
    refine ⟨space, ws, hspace, rfl, hends.value_of_eq_ok hwindows, ?_⟩
    have hdone := ends_runWindows hchecked hpools series ws.length 0 ws
    rw [run]
    simp only [hspace, hwindows]
    cases hending : (runWindows request series space false pools ws.length 0 ws).ending with
    | error e =>
      obtain ⟨w, hw, s, rfl, hblames⟩ := hdone.failure_of_eq_error hending
      exact .inr ⟨w, hw, s, rfl, hblames⟩
    | ok status =>
      obtain rfl := hdone.value_of_eq_ok hending
      refine .inl ⟨_, rfl, rfl, rfl, ?_⟩
      rw [windows_result, List.map_map]
      exact (List.map_congr_left fun x _ => window_kept x).trans (map_window_runWindows hending)

/-- Three days whose two windows both run. -/
theorem run_completes_or_blames_params_threeDays :
    threeDays.validate = .ok () ∧ threeDays.windows ≠ .error .outOfCalendar ∧
      WorkerPool.ready.Serves threeDays.threads ∧
      ∃ ws r, threeDays.windows = .ok ws ∧ ws.map (·.index) = [0, 1] ∧
        (run threeDays steadyDays false).outcome = .ok r ∧ r.status = .completed ∧
        r.totalWindows = 2 ∧ r.windows.map (·.window) = ws := by
  obtain ⟨⟨⟩, hvalid⟩ := exists_eq_ok (show threeDays.validate.isOk = true by decide +kernel)
  have hcount : threeDays.windows.toOption.map (·.length) = some 2 := by decide +kernel
  have hcalendar : threeDays.windows ≠ .error .outOfCalendar := by
    intro h
    rw [h] at hcount
    cases hcount
  have hpool : WorkerPool.ready.Serves threeDays.threads := .inr rfl
  refine ⟨hvalid, hcalendar, hpool, ?_⟩
  obtain ⟨space, ws, -, hwindows, hindex, hends⟩ :=
    run_completes_or_blames_params hvalid hcalendar (fun _ => hpool) steadyDays
  have hlength : ws.length = 2 := by
    rw [hwindows] at hcount
    exact Option.some.inj hcount
  rw [hlength] at hindex
  rcases hends with ⟨r, hrun, hstatus, htotal, hrecords⟩ | ⟨w, -, e, hrun, -⟩
  · exact ⟨ws, r, hwindows, hindex, hrun, hstatus, htotal.trans hlength, hrecords⟩
  · have hok : (run threeDays steadyDays false).outcome.isOk = true := by decide +kernel
    rw [hrun] at hok
    cases hok

end WalkForward
end Backtest
