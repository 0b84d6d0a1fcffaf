import Backtest.Proofs.Simulation.Ledger
import Backtest.Proofs.WalkForward.Records
import Backtest.Proofs.WalkForward.Spacing

/-!
# The order of the stitched curve

The trades of one replay close one after the other on the candles of a slice, so the points of one
window are in order of time and lie within its test. The stitched curve has the windows one after
the other, so it is in order where the tests of its windows are. A step as long as a test makes sure
of that; a shorter one lets a later window close a trade before an earlier one is done.

## Main definitions

* `WindowRecord.ClosesInOrder` — the trades of one record.
* `RunResult.Stitches` — a result and the records that its curve is made of.
* `equity_chronological_of_long_step` — the order of every curve.
* `not_all_equity_chronological` — a curve that goes back.
-/
namespace Backtest

namespace Simulation

variable {candles : List Candle} {params : CrossoverParams} {settings : AccountSettings}
  {r : Replay}

theorem IsLedger.exitsAt (h : IsLedger candles params settings r) {t : Trade} (ht : t ∈ r.trades) :
    ExitsAt candles settings t := by
  obtain ⟨i, hi⟩ := List.getElem?_of_mem ht
  obtain ⟨point, -, -, hexits, -⟩ := h.trade i t hi
  exact hexits

/-- A trade closes after the one before it, as it was opened no earlier than on its candle. -/
theorem IsLedger.exitTimes_increase (h : IsLedger candles params settings r)
    (htimes : candles.Pairwise fun a b => a.openTime < b.openTime) :
    r.trades.Pairwise fun t u => t.exitTime < u.exitTime := by
  refine h.ordered.imp_of_mem fun {t u} ht hu hordered => ?_
  obtain ⟨c, hc, htime, -⟩ := (h.exitsAt ht).candle
  obtain ⟨c', hc', htime', -⟩ := (h.exitsAt hu).candle
  obtain ⟨hi, rfl⟩ := List.getElem?_eq_some_iff.1 hc
  obtain ⟨hj, rfl⟩ := List.getElem?_eq_some_iff.1 hc'
  rw [htime, htime']
  exact List.pairwise_iff_getElem.1 htimes _ _ hi hj
    (Nat.lt_of_le_of_lt hordered (h.exitsAt hu).later)

/-- The trades of a run close one after the other on its candles. -/
theorem exitTimes_of_run (h : run candles params settings = .ok r)
    (htimes : candles.Pairwise fun a b => a.openTime < b.openTime) :
    (r.trades.Pairwise fun t u => t.exitTime < u.exitTime) ∧
      ∀ t ∈ r.trades, ∃ c ∈ candles, t.exitTime = c.openTime := by
  by_cases hne : candles = []
  · -- Only candles make a ledger; without one there is no trade either.
    obtain ⟨-, -, -, rfl⟩ := run_eq_ok_iff.1 h
    subst hne
    exact ⟨.nil, fun t ht => nomatch ht⟩
  · have hledger := run_isLedger hne h
    refine ⟨hledger.exitTimes_increase htimes, fun t ht => ?_⟩
    obtain ⟨c, hc, htime, -⟩ := (hledger.exitsAt ht).candle
    exact ⟨c, List.mem_of_getElem? hc, htime⟩

end Simulation

namespace CandleSeries

variable (s : CandleSeries) (start stop : Instant)

theorem timesIncrease_slice :
    (s.slice start stop).Pairwise fun a b => a.openTime < b.openTime := by
  rw [slice_eq_openWithin]
  exact s.timesIncrease.filter _

theorem openTime_of_mem_slice {c : Candle} (h : c ∈ s.slice start stop) :
    start ≤ c.openTime ∧ c.openTime < stop := by
  rw [slice_eq_openWithin] at h
  exact of_decide_eq_true (List.mem_filter.1 h).2

end CandleSeries

/-- The trades of a record close one after the other within its test. -/
structure WindowRecord.ClosesInOrder (w : WindowRecord) : Prop where
  ordered : w.testTrades.Pairwise fun t u => t.exitTime < u.exitTime
  within : ∀ t ∈ w.testTrades, w.window.testStart ≤ t.exitTime ∧ t.exitTime < w.window.testEnd

namespace RunSummary

theorem map_time_balancesFrom (balance : Float) (trades : List Trade) :
    (balancesFrom balance trades).map (·.time) = trades.map (·.exitTime) := by
  induction trades generalizing balance with
  | nil => rfl
  | cons t rest ih => rw [balancesFrom, List.map_cons, List.map_cons, ih]

theorem map_time_stitchedEquity (first : WindowRecord) (rest : List WindowRecord)
    (initial : Float) :
    (stitchedEquity (first :: rest) initial).map (·.time) =
      first.window.testStart :: (testTrades (first :: rest)).map (·.exitTime) := by
  rw [stitchedEquity, List.map_cons, map_time_balancesFrom]

end RunSummary

/-- The curve of a result is made of records, window after window: each closes its trades in order,
nothing is before the first point, and two windows keep their order if the steps between them are as
long as a test. -/
structure RunResult.Stitches (request : Request) (records : List WindowRecord) (r : RunResult) :
    Prop where
  windows : r.windows = records.map (WalkForward.kept request)
  curve : r.summary.equity =
    RunSummary.stitchedEquity records request.simulation.initialBalance
  closes : ∀ w ∈ records, w.ClosesInOrder
  first : ∀ p ∈ r.summary.equity.head?, ∀ q ∈ r.summary.equity, p.time ≤ q.time
  apart : records.Pairwise fun v w =>
    request.stepDays * v.window.index + request.testDays ≤ request.stepDays * w.window.index →
      ∀ t ∈ v.testTrades, ∀ u ∈ w.testTrades, t.exitTime < u.exitTime

namespace WalkForward

variable {request : Request} {series : CandleSeries} {space : SearchSpace} {stop : Interruption}
  {ws : List Window} {records : List WindowRecord}

/-! ## Records -/

theorem RecordsIn.closesInOrder (h : RecordsIn request series space ws records)
    {w : WindowRecord} (hw : w ∈ records) : w.ClosesInOrder := by
  obtain ⟨cancelled, hmade⟩ := h.made w hw
  obtain ⟨outcome, -, ⟨-, hidle⟩ | ⟨best, typed, replay, -, -, hrun, htested⟩⟩ :=
    windowRecord_eq_some hmade
  · have hnone : w.testTrades = [] := congrArg WindowRecord.testTrades hidle
    exact ⟨hnone ▸ .nil, hnone ▸ fun t ht => nomatch ht⟩
  · have htrades : w.testTrades = replay.trades := congrArg WindowRecord.testTrades htested
    obtain ⟨hordered, hcandle⟩ :=
      Simulation.exitTimes_of_run hrun (series.timesIncrease_slice _ _)
    refine ⟨htrades ▸ hordered, fun t ht => ?_⟩
    obtain ⟨c, hc, htime⟩ := hcandle t (htrades ▸ ht)
    rw [htime]
    exact series.openTime_of_mem_slice _ _ hc

theorem RecordsIn.mem_windows (h : RecordsIn request series space ws records)
    {w : WindowRecord} (hw : w ∈ records) : w.window ∈ ws :=
  h.front.subset (List.mem_map.2 ⟨w, hw, rfl⟩)

/-- Records follow each other as their windows do. -/
theorem RecordsIn.index_lt (h : RecordsIn request series space ws records)
    (hindex : ws.map (·.index) = List.range ws.length) :
    records.Pairwise fun v w => v.window.index < w.window.index := by
  have hfront := (h.front.map (·.index)).sublist
  rw [hindex, List.map_map] at hfront
  exact List.pairwise_map.1 (List.pairwise_lt_range.sublist hfront)

/-! ## The curve -/

section Curve

variable {spec : Schedule} {training test step : Int}
  (hdays : spec.IsInDays training test step) (hwindows : spec.windows = .ok ws)
  (hrecords : RecordsIn request series space ws records)
  (hindex : ws.map (·.index) = List.range ws.length)
include hdays hwindows hrecords

theorem RecordsIn.exitTime_lt {v w : WindowRecord} (hv : v ∈ records) (hw : w ∈ records)
    (hgap : step * v.window.index + test ≤ step * w.window.index) {t u : Trade}
    (ht : t ∈ v.testTrades) (hu : u ∈ w.testTrades) : t.exitTime < u.exitTime := by
  have hcuts := (Schedule.cuts_of_mem_windows hwindows (hrecords.mem_windows hv)).2
  have hcuts' := (Schedule.cuts_of_mem_windows hwindows (hrecords.mem_windows hw)).2
  have hend := ((hrecords.closesInOrder hv).within t ht).2
  have hstart := ((hrecords.closesInOrder hw).within u hu).1
  exact Instant.lt_of_lt_of_le hend
    (Instant.le_trans (Schedule.testEnd_le_testStart hdays hcuts hcuts' hgap) hstart)

include hindex

/-- No trade closes before the first test starts. -/
theorem RecordsIn.testStart_le_exitTime {first : WindowRecord} (hfirst : records.head? = some first)
    {t : Trade} (ht : t ∈ RunSummary.testTrades records) : first.window.testStart ≤ t.exitTime := by
  obtain ⟨w, hw, ht⟩ := List.mem_flatMap.1 ht
  have hle : first.window.index ≤ w.window.index := by
    obtain ⟨rest, rfl⟩ := List.head?_eq_some_iff.1 hfirst
    rcases List.mem_cons.1 hw with rfl | hw
    · exact Nat.le_refl _
    · exact Nat.le_of_lt (List.rel_of_pairwise_cons (hrecords.index_lt hindex) hw)
  have hcuts := (Schedule.cuts_of_mem_windows hwindows
    (hrecords.mem_windows (List.mem_of_mem_head? hfirst))).2
  have hcuts' := (Schedule.cuts_of_mem_windows hwindows (hrecords.mem_windows hw)).2
  exact Instant.le_trans (Schedule.testStart_le_testStart hdays hcuts hcuts' hle)
    ((hrecords.closesInOrder hw).within t ht).1

/-- Where a step is as long as a test, all trades close one after the other. -/
theorem RecordsIn.exitTimes_increase (hstep : test ≤ step) :
    (RunSummary.testTrades records).Pairwise fun t u => t.exitTime < u.exitTime := by
  refine List.pairwise_flatMap.2 ⟨fun w hw => (hrecords.closesInOrder hw).ordered, ?_⟩
  refine (hrecords.index_lt hindex).imp_of_mem fun {v w} hv hw hlt t ht u hu => ?_
  -- A later window has a larger index, so one step at least lies between the two.
  have hgap : step * ((v.window.index + 1 : Nat) : Int) ≤ step * (w.window.index : Int) :=
    Int.mul_le_mul_of_nonneg_left (Int.ofNat_le.2 hlt) (Int.le_of_lt hdays.positive.2.2)
  rw [Int.natCast_add, Int.mul_add] at hgap
  exact hrecords.exitTime_lt hdays hwindows hv hw (by omega) ht hu

end Curve

/-- Every point of a stitched curve is its first, or the close of a trade. -/
theorem first_le_of_mem_stitchedEquity {initial : Float}
    (h : ∀ first ∈ records.head?, ∀ t ∈ RunSummary.testTrades records,
      first.window.testStart ≤ t.exitTime) :
    ∀ p ∈ (RunSummary.stitchedEquity records initial).head?,
      ∀ q ∈ RunSummary.stitchedEquity records initial, p.time ≤ q.time := by
  cases records with
  | nil => intro p hp; cases hp
  | cons first rest =>
    intro p hp q hq
    cases hp
    have htime : q.time ∈ (RunSummary.stitchedEquity (first :: rest) initial).map (·.time) :=
      List.mem_map_of_mem hq
    rw [RunSummary.map_time_stitchedEquity] at htime
    rcases List.mem_cons.1 htime with hstart | hclose
    · rw [hstart]
      exact Instant.le_refl _
    · obtain ⟨t, ht, hexit⟩ := List.mem_map.1 hclose
      exact hexit ▸ h first rfl t ht

/-- A curve of trades that close one after the other. -/
theorem pairwise_stitchedEquity {initial : Float}
    (hfirst : ∀ first ∈ records.head?, ∀ t ∈ RunSummary.testTrades records,
      first.window.testStart ≤ t.exitTime)
    (htrades : (RunSummary.testTrades records).Pairwise fun t u => t.exitTime < u.exitTime) :
    (RunSummary.stitchedEquity records initial).Pairwise fun p q => p.time ≤ q.time := by
  cases records with
  | nil => exact .nil
  | cons first rest =>
    have htimes : ((RunSummary.stitchedEquity (first :: rest) initial).map (·.time)).Pairwise
        (· ≤ ·) := by
      rw [RunSummary.map_time_stitchedEquity, List.pairwise_cons]
      refine ⟨fun time htime => ?_, List.pairwise_map.2 (htrades.imp Instant.le_of_lt)⟩
      obtain ⟨t, ht, rfl⟩ := List.mem_map.1 htime
      exact hfirst first rfl t ht
    exact List.pairwise_map.1 htimes

/-- The curve of every result, stopped on the way or not. With a step as long as a test its times
never decrease. -/
theorem equity_chronological_of_long_step {r : RunResult} (hstart : request.start.IsRepresentable)
    (h : (runUntil request series stop).outcome = .ok r) :
    (request.testDays ≤ request.stepDays →
      r.summary.equity.Pairwise fun p q => p.time ≤ q.time) ∧
    ∃ records, r.Stitches request records := by
  obtain ⟨space, ws, records, status, hspace, hwindows, hrecords, rfl⟩ :=
    exists_records_of_runUntil h
  have hchecked := Request.checkedSpace_eq_ok_iff.1 hspace
  have hindex := hchecked.ends_windows.value_of_eq_ok hwindows
  obtain ⟨spec, hspec, hwindows⟩ := Request.exists_schedule_of_windows hwindows
  have hdays := hchecked.isInDays hstart hspec
  have hfirst : ∀ first ∈ records.head?, ∀ t ∈ RunSummary.testTrades records,
      first.window.testStart ≤ t.exitTime :=
    fun first hfirst t ht => hrecords.testStart_le_exitTime hdays hwindows hindex hfirst ht
  refine ⟨fun hstep => ?_, records, windows_result _ _ _, rfl,
    fun w hw => hrecords.closesInOrder hw, first_le_of_mem_stitchedEquity hfirst, ?_⟩
  · exact pairwise_stitchedEquity hfirst
      (hrecords.exitTimes_increase hdays hwindows hindex hstep)
  · refine (hrecords.index_lt hindex).imp_of_mem fun {v w} hv hw _ hgap t ht u hu => ?_
    exact hrecords.exitTime_lt hdays hwindows hv hw hgap ht hu

/-- Two runs of three days each, a day apart. -/
def overlapping : Request := { threeDays with stop := ⟨432000, 0⟩, testDays := 3 }

/-- Five days with a loss and a gain on each. -/
def choppyDays : CandleSeries where
  candles := quarterly
    [10, 10, 12, 9, 10, 10, 12, 9, 10, 10, 12, 9, 10, 10, 12, 9, 10, 10, 12, 9]
  nonempty := by decide
  pricesValid := by decide +kernel
  timesIncrease := by decide +kernel

/-- Tests of one day over the same days do not overlap. -/
theorem equity_chronological_of_long_step_oneDay :
    let request := { overlapping with testDays := 1 }
    request.start.IsRepresentable ∧ request.testDays ≤ request.stepDays ∧
      ∃ r, (runUntil request choppyDays (.constant false)).outcome = .ok r ∧
        r.summary.equity.map (·.time.second) = [86400, 151200, 237600, 324000, 410400] ∧
        (r.summary.equity.Pairwise fun p q => p.time ≤ q.time) ∧
        ∃ records, r.Stitches request records := by
  intro request
  have hstart : request.start.IsRepresentable := by decide
  have hstep : request.testDays ≤ request.stepDays := by decide
  have htimes : ((runUntil request choppyDays (.constant false)).outcome.toOption.map fun r =>
      r.summary.equity.map (·.time.second)) = some [86400, 151200, 237600, 324000, 410400] := by
    decide +kernel
  obtain ⟨r, hrun, htimes⟩ := exists_of_toOption_map htimes
  obtain ⟨hordered, hrecords⟩ := equity_chronological_of_long_step hstart hrun
  exact ⟨hstart, hstep, r, hrun, htimes, hordered hstep, hrecords⟩

/-- A test that is longer than a step overlaps the next, which closes its first trades before the
last ones of the test before it. -/
theorem not_all_equity_chronological :
    ¬ ∀ (request : Request) (series : CandleSeries) (r : RunResult),
      request.start.IsRepresentable → (run request series false).outcome = .ok r →
        r.summary.equity.Pairwise fun p q => p.time ≤ q.time := by
  intro h
  have htimes : ((run overlapping choppyDays false).outcome.toOption.map fun r =>
      decide (r.summary.equity.Pairwise fun p q => p.time ≤ q.time)) = some false := by
    decide +kernel
  obtain ⟨r, hr, htimes⟩ := exists_of_toOption_map htimes
  exact of_decide_eq_false htimes (h overlapping choppyDays r (by decide) hr)

end WalkForward
end Backtest
