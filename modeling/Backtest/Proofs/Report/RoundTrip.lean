import Backtest.Proofs.WalkForward.Encoding
import Backtest.Report.Artifacts

/-!
# Results through their texts

The text of a result is read as the same result, with every instant to the last digit and every
double that the reader of numbers gives back, unless its version is later than the one that is
supported: then it is refused, and the refusal names the version.

## Main definitions

* `ofJsonText_jsonText` — a result is read back, or refused for its version.
-/
namespace Backtest.Report

/-- A result whose doubles are read back is read from its own text exactly if its version is
supported; a later version is refused. -/
theorem ofJsonText_jsonText {r : RunResult} {numbers : Json.NumberReader} (h : r.IsStorable)
    (hreals : ∀ x ∈ r.toDocument.reals, numbers.ReadsBack x) :
    (r.schemaVersion ≤ schemaVersion → ofJsonText (jsonText r) numbers = .ok r) ∧
      (schemaVersion < r.schemaVersion →
        ofJsonText (jsonText r) numbers = .error (.unsupportedVersion r.schemaVersion)) := by
  have hread : (Json.read? (jsonText r) numbers).bind RunResult.ofDocument? = some r :=
    (RunResult.encodes h).read?_pretty hreals
  constructor
  · intro hsupported
    rw [ofJsonText, hread]
    exact if_neg (Nat.not_lt.2 hsupported)
  · intro hlater
    rw [ofJsonText, hread]
    exact if_pos hlater

/-! ## A result of two windows -/

section Sample

/-- An instant in a leap second. -/
def leapSecond : Instant := ⟨1483228799, 1900000000⟩

/-- The first nanosecond after it. -/
def nextDay : Instant := ⟨1483228800, 1⟩

def sampleMetrics : Metrics :=
  { Metrics.idle 10000 with
    totalTrades := 18446744073709551615, avgTradePct := 5e-324, largestWinShare := some 0.1 }

def sampleTrade : Trade where
  side := .short
  entryTime := leapSecond
  entryPrice := 1e23
  entryIndex := 0
  exitTime := nextDay
  exitPrice := 9.999e22
  exitIndex := 1
  exitReason := .takeProfit
  quantity := 1e-19
  fee := 0
  pnlUsd := 10
  pnlPct := 0.1
  candlesHeld := 1

/-- A window with parameters of all kinds. -/
def qualifyingWindow : WindowRecord where
  window := ⟨0, leapSecond, nextDay, nextDay, nextDay⟩
  bestParams := some ParamSet.lookalikes
  trainMetrics := some sampleMetrics
  testMetrics := sampleMetrics
  trainObjective := some 0.5
  testObjective := some (-0.0)
  testTrades := [sampleTrade]
  testTradeCount := 1
  disqualified := false
  disqualifyReason := none
  candidatesEvaluated := 2
  candidatesDisqualified := 1
  candidatesSkipped := 0

/-- A window where no candidate qualified. -/
def disqualifiedWindow : WindowRecord :=
  { qualifyingWindow with
    bestParams := none, trainMetrics := none, trainObjective := none, testObjective := none
    testTrades := [], testTradeCount := 0, disqualified := true
    disqualifyReason := some "no \"qualifying\" parameters" }

def sampleSummary : RunSummary where
  qualifyingWindows := 1
  disqualifiedWindows := 1
  testStats := .ofMetrics [sampleMetrics]
  overallMetrics := sampleMetrics
  equity := [⟨leapSecond, 10000⟩, ⟨nextDay, 10010⟩]
  overfitWindows := 0
  meanTrainObjective := 0.5
  meanTestObjective := -0.0
  degradationRatio := some 1
  degradationFlag := .normal
  overfittingRisk := some .severe

/-- A result of a version. -/
def sampleResult (version : ℕ) : RunResult where
  schemaVersion := version
  symbol := "BTC/USDT"
  objective := .robustScore
  configFingerprint := ""
  status := .completed
  totalWindows := 2
  windows := [qualifyingWindow, disqualifiedWindow]
  summary := sampleSummary

theorem isStorable_sampleMetrics : sampleMetrics.IsStorable where
  totalReturnPct := by decide +kernel
  winRate := by decide +kernel
  profitFactor := nofun
  maxDrawdownPct := by decide +kernel
  sharpeLikeRatio := by decide +kernel
  robustScore := by decide +kernel
  netProfitUsd := by decide +kernel
  finalBalance := by decide +kernel
  avgTradePct := by decide +kernel
  largestWinShare := by decide +kernel
  grossProfitUsd := by decide +kernel
  grossLossUsd := by decide +kernel
  totalTrades := by decide
  winningTrades := by decide +kernel
  losingTrades := by decide +kernel

theorem isStorable_sampleTrade : sampleTrade.IsStorable := by
  constructor <;> decide +kernel

theorem isStorable_qualifyingWindow : qualifyingWindow.IsStorable where
  window := by constructor <;> decide +kernel
  bestParams := by decide +kernel
  trainMetrics := by rintro _ ⟨⟩; exact isStorable_sampleMetrics
  testMetrics := isStorable_sampleMetrics
  trainObjective := by decide +kernel
  testObjective := by decide +kernel
  testTrades := List.forall_mem_singleton.2 isStorable_sampleTrade
  testTradeCount := by decide
  candidatesEvaluated := by decide
  candidatesDisqualified := by decide
  candidatesSkipped := by decide

theorem isStorable_disqualifiedWindow : disqualifiedWindow.IsStorable :=
  { isStorable_qualifyingWindow with
    bestParams := nofun, trainMetrics := nofun, trainObjective := nofun, testObjective := nofun
    testTrades := nofun, testTradeCount := by decide }

theorem isStorable_sampleSummary : sampleSummary.IsStorable where
  qualifyingWindows := by decide
  disqualifiedWindows := by decide
  testStats := by constructor <;> constructor <;> decide +kernel
  overallMetrics := isStorable_sampleMetrics
  equity := by
    refine List.forall_mem_cons.2 ⟨?_, List.forall_mem_singleton.2 ?_⟩ <;>
      constructor <;> decide +kernel
  overfitWindows := by decide
  meanTrainObjective := by decide +kernel
  meanTestObjective := by decide +kernel
  degradationRatio := by decide +kernel

theorem isStorable_sampleResult {version : ℕ} (h : version < 4294967296) :
    (sampleResult version).IsStorable where
  schemaVersion := h
  totalWindows := show 2 < 18446744073709551616 by decide
  windows := List.forall_mem_cons.2
    ⟨isStorable_qualifyingWindow, List.forall_mem_singleton.2 isStorable_disqualifiedWindow⟩
  summary := isStorable_sampleSummary

theorem ofJsonText_jsonText_sampleResult :
    (sampleResult 1).IsStorable ∧
      (∀ x ∈ (sampleResult 1).toDocument.reals, Json.NumberReader.scaling.ReadsBack x) ∧
      ofJsonText (jsonText (sampleResult 1)) = .ok (sampleResult 1) ∧
      (sampleResult 2).IsStorable ∧
      (∀ x ∈ (sampleResult 2).toDocument.reals, Json.NumberReader.scaling.ReadsBack x) ∧
      ofJsonText (jsonText (sampleResult 2)) = .error (.unsupportedVersion 2) := by
  have hfirst : (sampleResult 1).IsStorable := isStorable_sampleResult (by decide)
  have hsecond : (sampleResult 2).IsStorable := isStorable_sampleResult (by decide)
  have hfirstReals : ∀ x ∈ (sampleResult 1).toDocument.reals,
      Json.NumberReader.scaling.ReadsBack x := by decide +kernel
  have hsecondReals : ∀ x ∈ (sampleResult 2).toDocument.reals,
      Json.NumberReader.scaling.ReadsBack x := by decide +kernel
  exact ⟨hfirst, hfirstReals, (ofJsonText_jsonText hfirst hfirstReals).1 (by decide), hsecond,
    hsecondReals, (ofJsonText_jsonText hsecond hsecondReals).2 (by decide)⟩

end Sample

end Backtest.Report
