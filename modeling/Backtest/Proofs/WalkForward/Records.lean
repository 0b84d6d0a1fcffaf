import Backtest.Proofs.WalkForward.Separation

/-!
# Records and their summary

However a run is interrupted, the windows it has are a front of its schedule, and each record is
made of the slices of its own window. A record tells of one outcome throughout, and the summary
counts what the records say. Whether the trades are kept in the result changes nothing else, as the
summary is made before they are left out.

## Main definitions

* `RecordsIn` — records of the first windows of a schedule in a series.
* `exists_records_of_runUntil` — a result is made of such records, also when the run was stopped.
* `WindowRecord.TellsOneOutcome` — a record that is of one kind in all its fields.
* `RunResult.AddsUp` — a summary that counts what the records say.
* `RunResult.KeepsTradesOf` — results that differ in the trades they keep.
* `records_agree_of_runUntil` — every result of a run has all of this.
-/
namespace Backtest

namespace WalkForward

variable {request : Request} {series : CandleSeries} {space : SearchSpace} {stop : Interruption}

/-! ## Interrupted runs -/

/-- Records of the first windows of a list, each made of the slices of its own window. -/
structure RecordsIn (request : Request) (series : CandleSeries) (space : SearchSpace)
    (ws : List Window) (records : List WindowRecord) : Prop where
  front : records.map (·.window) <+: ws
  made : ∀ r ∈ records, ∃ cancelled, windowRecord request space r.window cancelled .ready
    (series.slice r.window.trainStart r.window.trainEnd)
    (series.slice r.window.testStart r.window.testEnd) = .ok (some r)

theorem recordsIn_nil {ws : List Window} : RecordsIn request series space ws [] :=
  ⟨List.nil_prefix, fun _ hr => nomatch hr⟩

/-- A run has the records of its first windows, whatever it ends with. -/
theorem recordsIn_runWindowsUntil (total completed : Nat) (ws : List Window) :
    RecordsIn request series space ws
      (runWindowsUntil request series space stop total completed ws).windows := by
  induction ws generalizing completed with
  | nil => exact recordsIn_nil
  | cons w rest ih =>
    rw [runWindowsUntil]
    split
    · exact recordsIn_nil
    · split
      · exact recordsIn_nil
      · exact recordsIn_nil
      · rename_i r hr
        -- The record is that of its own window, so both parts go on by one.
        have hwindow := window_of_windowRecord hr
        obtain ⟨hfront, hmade⟩ := ih (completed + 1)
        refine ⟨?_, List.forall_mem_cons.2 ⟨⟨stop.duringSearch completed, ?_⟩, hmade⟩⟩
        · rw [List.map_cons, hwindow]
          exact List.cons_prefix_cons.2 ⟨rfl, hfront⟩
        · rw [hwindow]
          exact windowRecord_ready hr

theorem recordsIn_runWindows (cancelled : Bool) (pools : Nat → WorkerPool) (total completed : Nat)
    (ws : List Window) :
    RecordsIn request series space ws
      (runWindows request series space cancelled pools total completed ws).windows := by
  rw [← runWindowsUntil_constant]
  exact recordsIn_runWindowsUntil total completed ws

/-- The result of a run is made of the records of its first windows. -/
theorem exists_records_of_runUntil {r : RunResult}
    (h : (runUntil request series stop).outcome = .ok r) :
    ∃ space ws records status, request.checkedSpace = .ok space ∧ request.windows = .ok ws ∧
      RecordsIn request series space ws records ∧
      r = result request ws.length status records := by
  obtain ⟨space, ws, status, hspace, hwindows, -, rfl⟩ := runUntil_outcome_eq_ok.1 h
  exact ⟨space, ws, _, status, hspace, hwindows, recordsIn_runWindowsUntil ws.length 0 ws, rfl⟩

/-! ## Kept trades -/

/-- Whether trades are kept is asked after all windows ran. -/
theorem runWindowsUntil_includeTrades (request : Request) (b : Bool) (total completed : Nat)
    (ws : List Window) :
    runWindowsUntil { request with includeTrades := b } series space stop total completed ws =
      runWindowsUntil request series space stop total completed ws := by
  induction ws generalizing completed with
  | nil => rfl
  | cons w rest ih =>
    rw [runWindowsUntil, runWindowsUntil, ih]
    rfl

/-- With its trades or without them, a run succeeds with the same records. -/
theorem runUntil_includeTrades (b : Bool) {ws : List Window} {status : RunStatus}
    (hspace : request.checkedSpace = .ok space) (hwindows : request.windows = .ok ws)
    (hending : (runWindowsUntil request series space stop ws.length 0 ws).ending = .ok status) :
    (runUntil { request with includeTrades := b } series stop).outcome =
      .ok (result { request with includeTrades := b } ws.length status
        (runWindowsUntil request series space stop ws.length 0 ws).windows) := by
  have hsame :
      runWindowsUntil { request with includeTrades := b } series space stop ws.length 0 ws =
        runWindowsUntil request series space stop ws.length 0 ws :=
    runWindowsUntil_includeTrades request b ws.length 0 ws
  refine runUntil_outcome_eq_ok.2 ⟨space, ws, status, hspace, hwindows, ?_, ?_⟩
  · rw [hsame]
    exact hending
  · rw [hsame]

end WalkForward

namespace WindowRecord

/-- A record of one kind in all its fields: nothing qualified and there is a reason, or there are
parameters, training figures and both objectives. -/
structure TellsOneOutcome (w : WindowRecord) : Prop where
  disqualified_iff : w.disqualified = true ↔
    w.bestParams = none ∧ w.trainMetrics = none ∧ w.trainObjective = none ∧ w.testObjective = none
  qualified_iff : w.disqualified = false ↔
    w.bestParams.isSome ∧ w.trainMetrics.isSome ∧ w.trainObjective.isSome ∧ w.testObjective.isSome
  reason_iff : w.disqualified = true ↔ w.disqualifyReason.isSome
  idle : w.disqualified = true → w.testTrades = [] ∧ w.testTradeCount = 0

/-- The count of a record is that of its trades. -/
def CountsTrades (w : WindowRecord) : Prop := w.testTradeCount = w.testTrades.length

end WindowRecord

/-- How many trades records count together. -/
def WindowRecord.countedTrades : List WindowRecord → Nat
  | [] => 0
  | w :: rest => w.testTradeCount + countedTrades rest

/-- A summary counts what the records of its result say. -/
structure RunResult.AddsUp (r : RunResult) : Prop where
  qualifying : r.summary.qualifyingWindows = r.windows.countP fun w => !w.disqualified
  windows : r.summary.qualifyingWindows + r.summary.disqualifiedWindows = r.windows.length
  trades : r.summary.overallMetrics.totalTrades = WindowRecord.countedTrades r.windows
  noEquity : r.summary.equity = [] ↔ r.windows = []
  equity : r.windows ≠ [] →
    r.summary.equity.length = 1 + WindowRecord.countedTrades r.windows

/-- Two results that differ in their trades: one keeps those that the other leaves out. -/
structure RunResult.KeepsTradesOf (full bare : RunResult) : Prop where
  status : full.status = bare.status
  totalWindows : full.totalWindows = bare.totalWindows
  summary : full.summary = bare.summary
  windows : bare.windows = full.windows.map WalkForward.withoutTrades
  counted : ∀ w ∈ full.windows, w.CountsTrades

namespace RunSummary

theorem length_balancesFrom (balance : Float) (trades : List Trade) :
    (balancesFrom balance trades).length = trades.length := by
  induction trades generalizing balance with
  | nil => rfl
  | cons t rest ih => rw [balancesFrom, List.length_cons, List.length_cons, ih]

theorem stitchedEquity_eq_nil_iff {records : List WindowRecord} {initial : Float} :
    stitchedEquity records initial = [] ↔ records = [] := by
  cases records with
  | nil => exact ⟨fun _ => rfl, fun _ => rfl⟩
  | cons first rest => exact ⟨fun h => (nomatch h), fun h => (nomatch h)⟩

theorem length_stitchedEquity {records : List WindowRecord} (h : records ≠ []) (initial : Float) :
    (stitchedEquity records initial).length = 1 + (testTrades records).length := by
  cases records with
  | nil => exact absurd rfl h
  | cons first rest => rw [stitchedEquity, List.length_cons, length_balancesFrom, Nat.add_comm]

theorem length_testTrades {records : List WindowRecord} (h : ∀ r ∈ records, r.CountsTrades) :
    (testTrades records).length = WindowRecord.countedTrades records := by
  induction records with
  | nil => rfl
  | cons r rest ih =>
    obtain ⟨hr, hrest⟩ := List.forall_mem_cons.1 h
    rw [WindowRecord.countedTrades, ← ih hrest, hr]
    exact List.length_append

theorem length_qualifying (records : List WindowRecord) :
    (qualifying records).length = records.countP fun w => !w.disqualified :=
  List.countP_eq_length_filter.symm

theorem length_qualifying_le (records : List WindowRecord) :
    (qualifying records).length ≤ records.length :=
  List.length_filter_le _ _

end RunSummary

namespace WalkForward

variable {request : Request} {series : CandleSeries} {space : SearchSpace} {stop : Interruption}

/-! ## One record -/

theorem tellsOneOutcome_of_windowRecord {window : Window} {cancelled : Bool}
    {train test : List Candle} {r : WindowRecord}
    (h : windowRecord request space window cancelled .ready train test = .ok (some r)) :
    r.TellsOneOutcome ∧ r.CountsTrades := by
  obtain ⟨outcome, -, ⟨-, rfl⟩ | ⟨best, typed, replay, -, -, -, rfl⟩⟩ := windowRecord_eq_some h
  · exact ⟨⟨by simp [idleWindow], by simp [idleWindow], by simp [idleWindow],
      fun _ => ⟨rfl, rfl⟩⟩, rfl⟩
  · exact ⟨⟨by simp [testedWindow], by simp [testedWindow], by simp [testedWindow],
      fun h => nomatch h⟩, rfl⟩

/-- Leaving out the trades changes neither the kind of a record nor its count. -/
theorem tellsOneOutcome_kept {r : WindowRecord} (h : r.TellsOneOutcome) :
    (kept request r).TellsOneOutcome := by
  rw [kept_eq]
  refine ⟨h.disqualified_iff, h.qualified_iff, h.reason_iff, fun hr => ⟨?_, (h.idle hr).2⟩⟩
  simp only [(h.idle hr).1, ite_self]

@[simp] theorem testTradeCount_kept (r : WindowRecord) :
    (kept request r).testTradeCount = r.testTradeCount := by
  rw [kept_eq]

theorem countedTrades_map_kept (records : List WindowRecord) :
    WindowRecord.countedTrades (records.map (kept request)) =
      WindowRecord.countedTrades records := by
  induction records with
  | nil => rfl
  | cons r rest ih =>
    rw [List.map_cons, WindowRecord.countedTrades, ih, testTradeCount_kept,
      WindowRecord.countedTrades]

@[simp] theorem disqualified_kept (r : WindowRecord) :
    (kept request r).disqualified = r.disqualified := by
  rw [kept_eq]

/-! ## The summary -/

/-- The summary of records that count their trades adds up, also over records without trades. -/
theorem addsUp_result (total : Nat) (status : RunStatus) {records : List WindowRecord}
    (h : ∀ r ∈ records, r.CountsTrades) : (result request total status records).AddsUp := by
  have hcounts : WindowRecord.countedTrades (result request total status records).windows =
      (RunSummary.testTrades records).length := by
    rw [windows_result, countedTrades_map_kept, RunSummary.length_testTrades h]
  have hnil : (result request total status records).windows = [] ↔ records = [] := by
    rw [windows_result, List.map_eq_nil_iff]
  -- The summary is made of the records with their trades, the result may be without.
  refine ⟨?_, ?_, ?_, ?_, fun hne => ?_⟩
  · rw [windows_result, List.countP_map]
    refine (RunSummary.length_qualifying records).trans (List.countP_congr fun r _ => ?_)
    rw [Function.comp, disqualified_kept]
  · rw [windows_result, List.length_map]
    exact Nat.add_sub_cancel' (RunSummary.length_qualifying_le records)
  · rw [hcounts]
    rfl
  · rw [hnil]
    exact RunSummary.stitchedEquity_eq_nil_iff
  · rw [hcounts]
    exact RunSummary.length_stitchedEquity (mt hnil.2 hne) _

/-- The two results of records that count their trades. -/
theorem keepsTradesOf_result (request : Request) (total : Nat) (status : RunStatus)
    {records : List WindowRecord} (h : ∀ r ∈ records, r.CountsTrades) :
    (result { request with includeTrades := true } total status records).KeepsTradesOf
      (result { request with includeTrades := false } total status records) :=
  ⟨rfl, rfl, rfl, rfl, h⟩

/-- A request with its own choice of trades is the same. -/
theorem includeTrades_eq {b : Bool} (h : request.includeTrades = b) :
    { request with includeTrades := b } = request := by
  subst h
  rfl

theorem result_eq_ite (request : Request) (total : Nat) (status : RunStatus)
    (records : List WindowRecord) :
    result request total status records =
      if request.includeTrades then
        result { request with includeTrades := true } total status records
      else result { request with includeTrades := false } total status records := by
  split
  · rename_i h
    rw [includeTrades_eq h]
  · rename_i h
    rw [includeTrades_eq (Bool.eq_false_iff.2 h)]

/-- Every result of a run, stopped on the way or not, has records that tell of one outcome each and
a summary that adds up; and it is one of two that differ in nothing but the trades they keep. -/
theorem records_agree_of_runUntil {r : RunResult}
    (h : (runUntil request series stop).outcome = .ok r) :
    (∀ w ∈ r.windows, w.TellsOneOutcome) ∧ r.AddsUp ∧
      ∃ full bare,
        (runUntil { request with includeTrades := true } series stop).outcome = .ok full ∧
        (runUntil { request with includeTrades := false } series stop).outcome = .ok bare ∧
        full.KeepsTradesOf bare ∧ r = if request.includeTrades then full else bare := by
  obtain ⟨space, ws, status, hspace, hwindows, hending, rfl⟩ := runUntil_outcome_eq_ok.1 h
  have hrecords : RecordsIn request series space ws
      (runWindowsUntil request series space stop ws.length 0 ws).windows :=
    recordsIn_runWindowsUntil ws.length 0 ws
  have hcounts : ∀ w ∈ (runWindowsUntil request series space stop ws.length 0 ws).windows,
      w.TellsOneOutcome ∧ w.CountsTrades := by
    intro w hw
    obtain ⟨cancelled, hmade⟩ := hrecords.made w hw
    exact tellsOneOutcome_of_windowRecord hmade
  refine ⟨fun w hw => ?_, addsUp_result _ _ fun w hw => (hcounts w hw).2, _, _,
    runUntil_includeTrades true hspace hwindows hending,
    runUntil_includeTrades false hspace hwindows hending,
    keepsTradesOf_result request _ _ fun w hw => (hcounts w hw).2, ?_⟩
  · rw [windows_result] at hw
    obtain ⟨x, hx, rfl⟩ := List.mem_map.1 hw
    exact tellsOneOutcome_kept (hcounts x hx).1
  · exact result_eq_ite request _ _ _

/-- Stopped between two windows, with one done. -/
def afterFirst : Interruption where
  beforeWindow completed := 1 ≤ completed
  duringSearch completed := 1 ≤ completed

/-- A run that is stopped after the first of its two windows. -/
theorem records_agree_of_runUntil_firstDay :
    ∃ r, (runUntil threeDays steadyDays afterFirst).outcome = .ok r ∧
      r.status = .cancelled ∧ r.windows.map (fun w => (w.disqualified, w.testTradeCount)) =
        [(false, 1)] ∧
      (∀ w ∈ r.windows, w.TellsOneOutcome) ∧ r.AddsUp ∧ ∃ full bare,
        (runUntil { threeDays with includeTrades := true } steadyDays afterFirst).outcome =
          .ok full ∧
        (runUntil { threeDays with includeTrades := false } steadyDays afterFirst).outcome =
          .ok bare ∧
        full.KeepsTradesOf bare ∧ r = if threeDays.includeTrades then full else bare := by
  have hrun : ((runUntil threeDays steadyDays afterFirst).outcome.toOption.map fun r =>
      (r.status, r.windows.map fun w => (w.disqualified, w.testTradeCount))) =
        some (.cancelled, [(false, 1)]) := by
    decide +kernel
  obtain ⟨r, h, hfound⟩ := exists_of_toOption_map hrun
  obtain ⟨hstatus, hwindows⟩ := Prod.mk.inj hfound
  exact ⟨r, h, hstatus, hwindows, records_agree_of_runUntil h⟩

end WalkForward
end Backtest
