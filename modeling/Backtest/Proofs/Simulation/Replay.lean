import Backtest.Proofs.Simulation.Signals
import Backtest.Simulation.Run

/-!
# Replays as runs of steps

A replay is a left-to-right run of steps; only its last candle knows that it is the last. `advance`
runs the candles that are not: replaying a list is advancing over its front and then replaying its
end, whatever the end is.

What a whole replay keeps follows from what each step keeps by `replay_induction`. Its invariants
speak of the count of candles taken, the state after them, and the trades closed so far with the
balance after each.

## Main definitions

* `booked` — what one candle adds to the record of closed trades.
* `advance` — candles of which none is the end of the data.
* `replay_append`, `replay_concat` — a replay cut in two, and its last candle cut off.
* `replay_induction` — the invariant of a replay.
* `run_eq_ok_iff`, `runValid_eq_result` — a run that is not refused reports its replay.
* `hourly`, `quickCrossover`, `reversing`, `cooling`, `trailing` — candles and parameters to run.
-/
namespace Backtest.Simulation

variable {params : CrossoverParams} {settings : AccountSettings}

/-- The trade that a step closed, with the balance after the step. -/
def booked (r : SimulationState × CandleOutcome) : List (Trade × Float) :=
  match r.2.closed with
  | none => []
  | some trade => [(trade, r.1.account.balance)]

theorem booked_of_closed_eq_none {r : SimulationState × CandleOutcome} (h : r.2.closed = none) :
    booked r = [] := by rw [booked, h]

theorem booked_of_closed_eq_some {r : SimulationState × CandleOutcome} {trade : Trade}
    (h : r.2.closed = some trade) : booked r = [(trade, r.1.account.balance)] := by rw [booked, h]

/-- A candle books the trade of the position that it forces out. -/
theorem booked_step (s : SimulationState) (c : Candle) (ctx : CandleContext) :
    booked (s.step c ctx) =
      ((s.account.position.bind fun p => (s.exitOn c ctx p).map fun reason =>
        (SimulationState.tradeOn c ctx p reason,
          s.account.balance + (SimulationState.tradeOn c ctx p reason).pnlUsd))).toList := by
  rcases s.step_cases c ctx with ⟨p, hp, hexit, -, -, -, hclosed, -⟩ | ⟨hflat, -, -, hclosed, -⟩ |
    ⟨p, reason, hp, hexit, hbalance, -, hclosed, -⟩
  · rw [booked_of_closed_eq_none hclosed, hp, Option.bind_some, hexit]; rfl
  · rw [booked_of_closed_eq_none hclosed, hflat]; rfl
  · rw [booked_of_closed_eq_some hclosed, hbalance, hp, Option.bind_some, hexit]; rfl

theorem exitIndex_of_mem_booked {s : SimulationState} {c : Candle} {ctx : CandleContext}
    {t : Trade × Float} (h : t ∈ booked (s.step c ctx)) : t.1.exitIndex = ctx.index := by
  rw [booked_step, Option.mem_toList, Option.bind_eq_some_iff] at h
  obtain ⟨p, -, h⟩ := h
  obtain ⟨reason, -, rfl⟩ := Option.map_eq_some_iff.1 h
  rfl

theorem length_booked_le (r : SimulationState × CandleOutcome) : (booked r).length ≤ 1 := by
  rw [booked]
  split
  · exact Nat.zero_le 1
  · exact Nat.le_refl 1

@[simp] theorem replay_nil (k : Nat) (s : SimulationState) :
    replay params settings k s [] = (s, []) := rfl

theorem replay_cons (k : Nat) (s : SimulationState) (c : Candle) (rest : List Candle) :
    replay params settings k s (c :: rest) =
      ((replay params settings (k + 1) (s.step c ⟨params, settings, k, rest.isEmpty⟩).1 rest).1,
        booked (s.step c ⟨params, settings, k, rest.isEmpty⟩) ++
          (replay params settings (k + 1)
            (s.step c ⟨params, settings, k, rest.isEmpty⟩).1 rest).2) := by
  simp only [replay, booked]
  split <;> rename_i h <;> rw [h] <;> rfl

/-- No candle closes more than one trade. -/
theorem length_replay_le (k : Nat) (s : SimulationState) (candles : List Candle) :
    (replay params settings k s candles).2.length ≤ candles.length := by
  induction candles generalizing k s with
  | nil => exact Nat.le_refl 0
  | cons c rest ih =>
    have hbooked := length_booked_le (s.step c ⟨params, settings, k, rest.isEmpty⟩)
    have hrest := ih (k + 1) (s.step c ⟨params, settings, k, rest.isEmpty⟩).1
    rw [replay_cons, List.length_append, List.length_cons]
    omega

/-! ## Cutting a replay -/

/-- The state after candles that start at an index and of which none is the end of the data, and the
trades closed on them with the balance after each. -/
def advance (params : CrossoverParams) (settings : AccountSettings) :
    Nat → SimulationState → List Candle → SimulationState × List (Trade × Float)
  | _, s, [] => (s, [])
  | k, s, c :: rest =>
    ((advance params settings (k + 1) (s.step c ⟨params, settings, k, false⟩).1 rest).1,
      booked (s.step c ⟨params, settings, k, false⟩) ++
        (advance params settings (k + 1) (s.step c ⟨params, settings, k, false⟩).1 rest).2)

/-- Candles that are followed by others do not know what follows them. -/
theorem replay_append (k : Nat) (s : SimulationState) (xs : List Candle) {ys : List Candle}
    (hys : ys ≠ []) :
    replay params settings k s (xs ++ ys) =
      ((replay params settings (k + xs.length) (advance params settings k s xs).1 ys).1,
        (advance params settings k s xs).2 ++
          (replay params settings (k + xs.length) (advance params settings k s xs).1 ys).2) := by
  induction xs generalizing k s with
  | nil => simp only [List.nil_append, advance, List.length_nil, Nat.add_zero]
  | cons c rest ih =>
    have hlast : (rest ++ ys).isEmpty = false := by
      cases rest <;> cases ys <;> simp_all
    rw [List.cons_append, replay_cons, hlast, ih, advance, List.length_cons,
      Nat.add_comm rest.length 1, ← Nat.add_assoc, List.append_assoc]

/-- A replay advances over all candles but the last. -/
theorem replay_concat (k : Nat) (s : SimulationState) (xs : List Candle) (c : Candle) :
    replay params settings k s (xs ++ [c]) =
      (((advance params settings k s xs).1.step c ⟨params, settings, k + xs.length, true⟩).1,
        (advance params settings k s xs).2 ++
          booked ((advance params settings k s xs).1.step c
            ⟨params, settings, k + xs.length, true⟩)) := by
  rw [replay_append k s xs (by simp), replay_cons, List.isEmpty_nil, replay_nil, List.append_nil]

theorem advance_concat (k : Nat) (s : SimulationState) (xs : List Candle) (c : Candle) :
    advance params settings k s (xs ++ [c]) =
      (((advance params settings k s xs).1.step c ⟨params, settings, k + xs.length, false⟩).1,
        (advance params settings k s xs).2 ++
          booked ((advance params settings k s xs).1.step c
            ⟨params, settings, k + xs.length, false⟩)) := by
  induction xs generalizing k s with
  | nil => simp only [List.nil_append, advance, List.length_nil, Nat.add_zero, List.append_nil]
  | cons d rest ih =>
    rw [List.cons_append, advance, ih, advance, List.length_cons, Nat.add_comm rest.length 1,
      ← Nat.add_assoc, List.append_assoc]

/-! ## Invariants of a replay -/

/-- What the candle at an index is judged by. -/
def contextAt (params : CrossoverParams) (settings : AccountSettings) (candles : List Candle)
    (k : Nat) : CandleContext :=
  ⟨params, settings, k, decide (k + 1 = candles.length)⟩

/-- A property of the count of candles taken, the state and the record that holds before the first
candle and is kept by every candle holds after the last. Each step may use that its state has taken
the closes so far. -/
theorem replay_induction (params : CrossoverParams) (settings : AccountSettings)
    (candles : List Candle) (P : Nat → SimulationState → List (Trade × Float) → Prop)
    (hnew : P 0 (.new params settings) [])
    (hstep : ∀ k s ts c, candles[k]? = some c →
      Follows params ((candles.map (·.close)).take k) s → P k s ts →
      P (k + 1) (s.step c (contextAt params settings candles k)).1
        (ts ++ booked (s.step c (contextAt params settings candles k)))) :
    P candles.length (replay params settings 0 (.new params settings) candles).1
      (replay params settings 0 (.new params settings) candles).2 := by
  have key : ∀ (rest : List Candle) (k : Nat) (s : SimulationState) (ts : List (Trade × Float)),
      k + rest.length = candles.length → candles.drop k = rest →
      Follows params ((candles.map (·.close)).take k) s → P k s ts →
      P candles.length (replay params settings k s rest).1
        (ts ++ (replay params settings k s rest).2) := by
    intro rest
    induction rest with
    | nil =>
      intro k s ts hlength _ _ hP
      rw [replay_nil, List.append_nil, ← hlength]
      exact hP
    | cons c rest ih =>
      intro k s ts hlength hdrop hfollows hP
      rw [List.length_cons] at hlength
      have hk : candles[k]? = some c := by
        rw [← List.head?_drop, hdrop]; rfl
      have hctx : contextAt params settings candles k = ⟨params, settings, k, rest.isEmpty⟩ := by
        have hlast : decide (k + 1 = candles.length) = rest.isEmpty := by
          cases rest with
          | nil => simp only [List.length_nil] at hlength; simp; omega
          | cons d rest => simp only [List.length_cons] at hlength; simp; omega
        rw [contextAt, hlast]
      have htake : (candles.map (·.close)).take (k + 1) =
          (candles.map (·.close)).take k ++ [c.close] := by
        rw [List.take_add_one, getElem?_closes hk]; rfl
      have hnext := hstep k s ts c hk hfollows hP
      have hfollows' := follows_step hfollows c (contextAt params settings candles k)
      rw [← htake] at hfollows'
      rw [hctx] at hnext hfollows'
      rw [replay_cons, ← List.append_assoc]
      refine ih (k + 1) _ _ (by omega) ?_ hfollows' hnext
      rw [← List.drop_drop, hdrop, List.drop_one, List.tail_cons]
  have hall := key candles 0 (.new params settings) [] (by omega) List.drop_zero
    (follows_new params settings) hnew
  rwa [List.nil_append] at hall

/-! ## What a run reports -/

theorem firstInvalid_eq_none_iff {k : Nat} {candles : List Candle} :
    firstInvalid k candles = none ↔ ∀ c ∈ candles, c.isPriced = true := by
  induction candles generalizing k with
  | nil => simp [firstInvalid]
  | cons c rest ih =>
    rw [firstInvalid, List.forall_mem_cons]
    by_cases hc : c.isPriced = true
    · rw [if_pos hc, ih]
      exact ⟨fun h => ⟨hc, h⟩, fun h => h.2⟩
    · rw [if_neg hc]
      exact ⟨fun h => (nomatch h), fun h => absurd h.1 hc⟩

theorem firstInvalid_eq_some {k : Nat} {candles : List Candle} {e : SimulationError}
    (h : firstInvalid k candles = some e) :
    ∃ i c, candles[i]? = some c ∧ c.isPriced = false ∧ e = .invalidPrice (k + i) c.openTime := by
  induction candles generalizing k with
  | nil => cases h
  | cons c rest ih =>
    rw [firstInvalid] at h
    by_cases hc : c.isPriced = true
    · rw [if_pos hc] at h
      obtain ⟨i, d, hi, hd, rfl⟩ := ih h
      exact ⟨i + 1, d, hi, hd, by rw [Nat.add_assoc, Nat.add_comm 1 i]⟩
    · rw [if_neg hc] at h
      exact ⟨0, c, rfl, Bool.eq_false_iff.2 hc, (Option.some.inj h).symm⟩

/-- A run is refused unless parameters, settings and all prices are in order. -/
theorem run_eq_ok_iff {candles : List Candle} {r : Replay} :
    run candles params settings = .ok r ↔
      params.fault? = none ∧ settings.fault? = none ∧ (∀ c ∈ candles, c.isPriced = true) ∧
        runValid candles params settings = r := by
  rw [← firstInvalid_eq_none_iff (k := 0), run]
  cases params.fault? with
  | some e => simp
  | none =>
    cases settings.fault? with
    | some f => simp
    | none =>
      cases firstInvalid 0 candles with
      | some e => simp
      | none => simp

/-- An account that is not refused starts from a balance above zero. -/
theorem initialBalance_pos_of_run {candles : List Candle} {r : Replay}
    (h : run candles params settings = .ok r) : 0 < settings.initialBalance := by
  have hsettings := (run_eq_ok_iff.1 h).2.1
  rw [AccountSettings.fault?] at hsettings
  split at hsettings
  · cases hsettings
  · rename_i hbalance
    exact (Classical.not_not.1 hbalance).2

/-- An account that is flat stays so on a candle without a crossing. -/
theorem step_of_no_cross {s : SimulationState} {c : Candle} (ctx : CandleContext)
    (hflat : s.account.position = none) (hcross : s.crossOn c.close = none) :
    (s.step c ctx).1.account.position = none ∧
      (s.step c ctx).1.account.balance = s.account.balance ∧ (s.step c ctx).2.closed = none := by
  rcases s.step_cases c ctx with ⟨p, hp, -⟩ | ⟨-, hbalance, -, hclosed, hopens⟩ | ⟨p, reason, hp, -⟩
  · rw [hflat] at hp; cases hp
  · rcases hopens with ⟨hpos, -, -⟩ | ⟨side, hadmits, -⟩
    · exact ⟨hpos, hbalance, hclosed⟩
    · have hsignal := hadmits.signalled
      rw [hcross] at hsignal
      cases hsignal
  · rw [hflat] at hp; cases hp

/-- Before the slow average is warm nothing happens. -/
theorem replay_of_short (settings : AccountSettings) {candles : List Candle}
    (hshort : candles.length < params.slowPeriod) :
    (replay params settings 0 (.new params settings) candles).1.account.position = none ∧
      (replay params settings 0 (.new params settings) candles).1.account.balance =
        settings.initialBalance ∧
      (replay params settings 0 (.new params settings) candles).2 = [] := by
  refine replay_induction params settings candles
    (fun _ s ts => s.account.position = none ∧
      s.account.balance = settings.initialBalance ∧ ts = [])
    ⟨rfl, rfl, rfl⟩ ?_
  rintro k s ts c hk hfollows ⟨hflat, hbalance, rfl⟩
  have hcross : s.crossOn c.close = none := by
    rw [crossOn_eq_crossAt hfollows (getElem?_closes hk)]
    cases hat : crossAt params (candles.map (·.close)) k with
    | none => rfl
    | some cross =>
      have hwarm := slowPeriod_le_of_crossAt hat
      have hlt := (List.getElem?_eq_some_iff.1 hk).1
      omega
  obtain ⟨hpos, hbal, hclosed⟩ :=
    step_of_no_cross (contextAt params settings candles k) hflat hcross
  exact ⟨hpos, hbal.trans hbalance, by rw [booked_of_closed_eq_none hclosed]; rfl⟩

theorem trades_result (first : Candle) (candles : List Candle) (last : SimulationState)
    (ts : List (Trade × Float)) :
    (result settings first candles last ts).trades = ts.map (·.1) := rfl

/-- The shortcut for few candles reports what the replay would. -/
theorem runValid_eq_result {candles : List Candle} {first : Candle}
    (hfirst : candles.head? = some first) :
    runValid candles params settings =
      result settings first candles (replay params settings 0 (.new params settings) candles).1
        (replay params settings 0 (.new params settings) candles).2 := by
  cases candles with
  | nil => cases hfirst
  | cons c rest =>
    cases hfirst
    rw [runValid]
    split
    · rename_i hshort
      obtain ⟨hpos, hbalance, htrades⟩ := replay_of_short settings hshort
      rw [result, hpos, hbalance, htrades]
      rfl
    · rfl

theorem length_trades_le_of_run {candles : List Candle} {r : Replay}
    (h : run candles params settings = .ok r) : r.trades.length ≤ candles.length := by
  obtain ⟨-, -, -, rfl⟩ := run_eq_ok_iff.1 h
  cases candles with
  | nil => exact Nat.le_refl 0
  | cons first rest =>
    rw [runValid_eq_result rfl, trades_result, List.length_map]
    exact length_replay_le 0 _ _

/-! ## Samples -/

/-- Candles from an hour on, each at one price. -/
def hourly (hour : Nat) (closes : List Float) : List Candle :=
  closes.mapIdx fun i price => ⟨⟨(hour + i : Nat) * 3600, 0⟩, price, price, price, price, 1⟩

/-- Averages that cross as soon as the close does. -/
def quickCrossover : CrossoverParams := { averageKind := .simple, fastPeriod := 1, slowPeriod := 2 }

/-- The same on both sides, closed by the opposite crossing alone. -/
def reversing : CrossoverParams :=
  { quickCrossover with enableShort := true, takeProfitPct := 0, stopLossPct := 0 }

/-- A profit is taken early, and two candles rest after it. -/
def cooling : CrossoverParams := { quickCrossover with cooldownCandles := 2 }

/-- Closed by a trailing stop unless the price halves or doubles. -/
def trailing : CrossoverParams :=
  { quickCrossover with
    takeProfitPct := 1
    stopLossPct := 0.5
    trailingStopEnabled := true
    trailingActivationPct := 0.05
    trailingDistancePct := 0.05 }

end Backtest.Simulation
