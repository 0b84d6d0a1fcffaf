import Backtest.Proofs.Market.RoundTrip
import Backtest.Proofs.Params.Canonical
import Backtest.Proofs.Performance.Finiteness
import Backtest.WalkForward.Result

/-!
# Results through documents

A result is a record of records. Each of them is encoded by its document if its doubles are finite,
its counts have 64 bits and its times stand on the clock; the records it holds are then encoded in
their fields, one level further down. Optional parts are null or encoded, and a null belongs to no
value of theirs.

## Main definitions

* `RiskLevel.ofName?_name`, `Degradation.ofName?_name`, … — names stand for their cases.
* `encodes_optional` — optional parts.
* `Trade.IsStorable`, `WindowRecord.IsStorable`, `RunSummary.IsStorable`, … — what a document can
  hold.
* `Trade.encodes`, `WindowRecord.encodes`, `RunSummary.encodes`, … — each record by its document.
* `RunResult.encodes` — whole results.
-/
namespace Backtest

open Document (Encodes)

variable {room : ℕ}

/-! ## Names -/

@[simp] theorem Side.ofName?_name (s : Side) : Side.ofName? s.name = some s := by
  cases s <;> rfl

@[simp] theorem ExitReason.ofName?_name (r : ExitReason) : ExitReason.ofName? r.name = some r := by
  cases r <;> decide

@[simp] theorem Objective.ofName?_name (o : Objective) : Objective.ofName? o.name = some o := by
  cases o <;> decide

@[simp] theorem RunStatus.ofName?_name (s : RunStatus) : RunStatus.ofName? s.name = some s := by
  cases s <;> decide

@[simp] theorem Degradation.ofName?_name (d : Degradation) :
    Degradation.ofName? d.name = some d := by
  cases d <;> decide

@[simp] theorem RiskLevel.ofName?_name (r : RiskLevel) : RiskLevel.ofName? r.name = some r := by
  cases r <;> decide

/-! ## Optional parts -/

theorem encodes_optional {α : Type} {encode : α → Document} {decode : Document → Option α}
    {o : Option α} (hnull : decode .null = none)
    (h : ∀ x, o = some x → Encodes room decode (encode x) x) :
    Encodes room (Document.nullable? decode) (optionalDocument encode o) o := by
  cases o with
  | none => exact ⟨.null, rfl⟩
  | some x => exact Document.encodes_nullable_some hnull (h x rfl)

theorem encodes_optionalReal {o : Option Float} (h : ∀ x, o = some x → x.isFinite = true) :
    Encodes room (Document.nullable? Document.real?) (optionalDocument .real o) o :=
  encodes_optional rfl fun x hx => ⟨.real (h x hx), rfl⟩

/-! ## Trades and figures -/

/-- A trade that a document can hold. -/
structure Trade.IsStorable (t : Trade) : Prop where
  entryTime : t.entryTime.IsOnClock
  entryPrice : t.entryPrice.isFinite = true
  entryIndex : t.entryIndex < 18446744073709551616
  exitTime : t.exitTime.IsOnClock
  exitPrice : t.exitPrice.isFinite = true
  exitIndex : t.exitIndex < 18446744073709551616
  quantity : t.quantity.isFinite = true
  fee : t.fee.isFinite = true
  pnlUsd : t.pnlUsd.isFinite = true
  pnlPct : t.pnlPct.isFinite = true
  candlesHeld : t.candlesHeld < 18446744073709551616

theorem Trade.encodes {t : Trade} (h : t.IsStorable) :
    Encodes (room + 1) ofDocument? t.toDocument t := by
  have hentry := Instant.ofDocument?_toDocument h.entryTime
  have hexit := Instant.ofDocument?_toDocument h.exitTime
  refine Record.encodes_table rfl (by decide) (.table ?_) ?_
  · simp [h.entryPrice, h.entryIndex, h.exitPrice, h.exitIndex, h.quantity, h.fee, h.pnlUsd,
      h.pnlPct, h.candlesHeld]
  · simp [hentry, hexit, h.entryIndex, h.exitIndex, h.candlesHeld]

/-- A point of the equity curve that a document can hold. -/
structure BalancePoint.IsStorable (p : BalancePoint) : Prop where
  time : p.time.IsOnClock
  balance : p.balance.isFinite = true

theorem BalancePoint.encodes {p : BalancePoint} (h : p.IsStorable) :
    Encodes (room + 1) ofDocument? p.toDocument p := by
  refine Record.encodes_table rfl (by decide) (.table ?_) ?_
  · simp [h.balance]
  · simp [Instant.ofDocument?_toDocument h.time]

/-- Figures that a document can hold. -/
structure Metrics.IsStorable (m : Metrics) : Prop extends m.IsFinite where
  totalTrades : m.totalTrades < 18446744073709551616
  winningTrades : m.winningTrades < 18446744073709551616
  losingTrades : m.losingTrades < 18446744073709551616

theorem Metrics.optionalReal_eq (o : Option Float) : optionalReal o = optionalDocument .real o := by
  cases o <;> rfl

theorem Metrics.encodes {m : Metrics} (h : m.IsStorable) :
    Encodes (room + 1) ofDocument? m.toDocument m := by
  have hfactor : Encodes room _ _ _ := encodes_optionalReal h.profitFactor
  have hshare : Encodes room _ _ _ := encodes_optionalReal h.largestWinShare
  refine Record.encodes_table rfl (by decide) (.table ?_) ?_
  · simp [optionalReal_eq, hfactor.fits, hshare.fits, h.totalReturnPct, h.totalTrades,
      h.winningTrades, h.losingTrades, h.winRate, h.maxDrawdownPct, h.sharpeLikeRatio,
      h.robustScore, h.grossProfitUsd, h.grossLossUsd, h.netProfitUsd, h.finalBalance,
      h.avgTradePct]
  · simp [optionalReal_eq, hfactor.decodes, hshare.decodes, h.totalTrades, h.winningTrades,
      h.losingTrades]

/-! ## Windows -/

/-- A window that a document can hold. -/
structure Window.IsStorable (w : Window) : Prop where
  index : w.index < 18446744073709551616
  trainStart : w.trainStart.IsOnClock
  trainEnd : w.trainEnd.IsOnClock
  testStart : w.testStart.IsOnClock
  testEnd : w.testEnd.IsOnClock

theorem Window.encodes {w : Window} (h : w.IsStorable) :
    Encodes (room + 1) ofDocument? w.toDocument w := by
  refine Record.encodes_table rfl (by decide) (.table ?_) ?_
  · simp [h.index]
  · simp [Instant.ofDocument?_toDocument, h.index, h.trainStart, h.trainEnd, h.testStart, h.testEnd]

/-- The record of a window that a document can hold. -/
structure WindowRecord.IsStorable (w : WindowRecord) : Prop where
  window : w.window.IsStorable
  bestParams : ∀ s, w.bestParams = some s → s.IsFinite
  trainMetrics : ∀ m, w.trainMetrics = some m → m.IsStorable
  testMetrics : w.testMetrics.IsStorable
  trainObjective : ∀ x, w.trainObjective = some x → x.isFinite = true
  testObjective : ∀ x, w.testObjective = some x → x.isFinite = true
  testTrades : ∀ t ∈ w.testTrades, t.IsStorable
  testTradeCount : w.testTradeCount < 18446744073709551616
  candidatesEvaluated : w.candidatesEvaluated < 18446744073709551616
  candidatesDisqualified : w.candidatesDisqualified < 18446744073709551616
  candidatesSkipped : w.candidatesSkipped < 18446744073709551616

theorem WindowRecord.encodes {w : WindowRecord} (h : w.IsStorable) :
    Encodes (room + 3) ofDocument? w.toDocument w := by
  have hwindow : Encodes (room + 2) _ _ _ := Window.encodes h.window
  have hparams : Encodes (room + 2) _ _ _ :=
    encodes_optional rfl fun s hs => ParamSet.encodes (h.bestParams s hs)
  have htrain : Encodes (room + 2) _ _ _ :=
    encodes_optional rfl fun m hm => Metrics.encodes (h.trainMetrics m hm)
  have htest : Encodes (room + 2) _ _ _ := Metrics.encodes h.testMetrics
  have htrainObjective : Encodes (room + 2) _ _ _ := encodes_optionalReal h.trainObjective
  have htestObjective : Encodes (room + 2) _ _ _ := encodes_optionalReal h.testObjective
  have htrades : Encodes (room + 2) _ _ _ :=
    Document.encodes_list fun t ht => Trade.encodes (h.testTrades t ht)
  have hreason : Encodes (room + 2) (Document.nullable? Document.text?)
      (optionalDocument .text w.disqualifyReason) _ :=
    encodes_optional rfl fun t _ => ⟨.text t, rfl⟩
  refine Record.encodes_table rfl (by decide) (.table ?_) ?_
  · simp [hwindow.fits, hparams.fits, htrain.fits, htest.fits, htrainObjective.fits,
      htestObjective.fits, htrades.fits, hreason.fits, h.testTradeCount, h.candidatesEvaluated,
      h.candidatesDisqualified, h.candidatesSkipped]
  · simp [hwindow.decodes, hparams.decodes, htrain.decodes, htest.decodes, htrainObjective.decodes,
      htestObjective.decodes, htrades.decodes, hreason.decodes, h.testTradeCount,
      h.candidatesEvaluated, h.candidatesDisqualified, h.candidatesSkipped]

/-! ## Summaries -/

/-- A pair without infinite or undefined figures. -/
structure MeanAndMedian.IsFinite (s : MeanAndMedian) : Prop where
  mean : s.mean.isFinite = true
  median : s.median.isFinite = true

theorem MeanAndMedian.encodes {s : MeanAndMedian} (h : s.IsFinite) :
    Encodes (room + 1) ofDocument? s.toDocument s := by
  refine Record.encodes_table rfl (by decide) (.table ?_) ?_
  · simp [h.mean, h.median]
  · simp

/-- Statistics without infinite or undefined figures. -/
structure TestStats.IsFinite (s : TestStats) : Prop where
  totalReturnPct : s.totalReturnPct.IsFinite
  winRate : s.winRate.IsFinite
  maxDrawdownPct : s.maxDrawdownPct.IsFinite
  sharpeLikeRatio : s.sharpeLikeRatio.IsFinite
  robustScore : s.robustScore.IsFinite
  totalTrades : s.totalTrades.IsFinite

theorem TestStats.encodes {s : TestStats} (h : s.IsFinite) :
    Encodes (room + 2) ofDocument? s.toDocument s := by
  have hpair : ∀ {p : MeanAndMedian}, p.IsFinite →
      Encodes (room + 1) MeanAndMedian.ofDocument? p.toDocument p := MeanAndMedian.encodes
  refine Record.encodes_table rfl (by decide) (.table ?_) ?_
  · simp [(hpair h.totalReturnPct).fits, (hpair h.winRate).fits, (hpair h.maxDrawdownPct).fits,
      (hpair h.sharpeLikeRatio).fits, (hpair h.robustScore).fits, (hpair h.totalTrades).fits]
  · simp [(hpair h.totalReturnPct).decodes, (hpair h.winRate).decodes,
      (hpair h.maxDrawdownPct).decodes, (hpair h.sharpeLikeRatio).decodes,
      (hpair h.robustScore).decodes, (hpair h.totalTrades).decodes]

/-- A summary that a document can hold. -/
structure RunSummary.IsStorable (s : RunSummary) : Prop where
  qualifyingWindows : s.qualifyingWindows < 18446744073709551616
  disqualifiedWindows : s.disqualifiedWindows < 18446744073709551616
  testStats : s.testStats.IsFinite
  overallMetrics : s.overallMetrics.IsStorable
  equity : ∀ p ∈ s.equity, p.IsStorable
  overfitWindows : s.overfitWindows < 18446744073709551616
  meanTrainObjective : s.meanTrainObjective.isFinite = true
  meanTestObjective : s.meanTestObjective.isFinite = true
  degradationRatio : ∀ x, s.degradationRatio = some x → x.isFinite = true

theorem RunSummary.encodes {s : RunSummary} (h : s.IsStorable) :
    Encodes (room + 3) ofDocument? s.toDocument s := by
  have hstats : Encodes (room + 2) _ _ _ := TestStats.encodes h.testStats
  have hmetrics : Encodes (room + 2) _ _ _ := Metrics.encodes h.overallMetrics
  have hequity : Encodes (room + 2) _ _ _ :=
    Document.encodes_list fun p hp => BalancePoint.encodes (h.equity p hp)
  have hratio : Encodes (room + 2) _ _ _ := encodes_optionalReal h.degradationRatio
  have hrisk : Encodes (room + 2) (Document.nullable? (Document.choice? RiskLevel.ofName?))
      (optionalDocument (fun r => .text (RiskLevel.name r)) s.overfittingRisk) _ :=
    encodes_optional rfl fun r _ => ⟨.text _, RiskLevel.ofName?_name r⟩
  refine Record.encodes_table rfl (by decide) (.table ?_) ?_
  · simp [hstats.fits, hmetrics.fits, hequity.fits, hratio.fits, hrisk.fits, h.qualifyingWindows,
      h.disqualifiedWindows, h.overfitWindows, h.meanTrainObjective, h.meanTestObjective]
  · simp [hstats.decodes, hmetrics.decodes, hequity.decodes, hratio.decodes, hrisk.decodes,
      h.qualifyingWindows, h.disqualifiedWindows, h.overfitWindows]

/-! ## Results -/

@[simp] theorem Request.strategy?_strategyName : strategy? strategyName = some () := if_pos rfl

/-- A result that a document can hold. -/
structure RunResult.IsStorable (r : RunResult) : Prop where
  schemaVersion : r.schemaVersion < 4294967296
  totalWindows : r.totalWindows < 18446744073709551616
  windows : ∀ w ∈ r.windows, w.IsStorable
  summary : r.summary.IsStorable

/-- A result is read with all its windows and its summary. -/
theorem RunResult.encodes {r : RunResult} (h : r.IsStorable) :
    Encodes (room + 5) ofDocument? r.toDocument r := by
  have hversion : r.schemaVersion < 18446744073709551616 := by
    have := h.schemaVersion
    omega
  have hwindows : Encodes (room + 4) _ _ _ :=
    Document.encodes_list fun w hw => WindowRecord.encodes (h.windows w hw)
  have hsummary : Encodes (room + 4) _ _ _ := RunSummary.encodes h.summary
  refine Record.encodes_table rfl (by decide) (.table ?_) ?_
  · simp [hwindows.fits, hsummary.fits, hversion, h.totalWindows]
  · simp [hwindows.decodes, hsummary.decodes, h.schemaVersion, h.totalWindows]

end Backtest
