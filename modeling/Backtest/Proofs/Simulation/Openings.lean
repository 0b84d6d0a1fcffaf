import Backtest.Proofs.Simulation.Ledger

/-!
# When positions are opened

A candle opens a position exactly when the closes ask for one and the report leaves room for it: no
position is open after its exits, the realized balance is above zero, the position may be held on,
and no exit is so recent that its cooldown still runs. The countdown that a state carries says the
same as the indices of the exits (`KeepsOpenings.cools`), and what a report says about a candle is
not changed by the candles after it (`eligible_step_iff`).

## Main definitions

* `Signals` — a crossing asks for a side, and the filters let it pass.
* `Replay.IsFlatAt`, `Replay.balanceAt?`, `Replay.IsRestedAt` — the account on a candle, as the
  report has it.
* `Eligible` — everything that lets a candle open a position.
* `run_opens_iff` — a run opens a position on a candle exactly if the candle is eligible.
-/
namespace Backtest

namespace EntryFilter

theorem allows_iff (side : Side) (trend : Option Trend) : allows side trend = true ↔
    (side = .short → ∀ t, trend = some t → t.isFalling = true) := by
  cases side with
  | long => simp [allows]
  | short =>
    cases trend with
    | none => simp [allows]
    | some t => simp [allows]

theorem verdict_eq_passed_iff (side : Side) (fast slow close minimum : Float)
    (trend : Option Trend) : verdict side fast slow close minimum trend = .passed ↔
      isSeparated fast slow close minimum = true ∧ allows side trend = true := by
  rw [verdict]
  cases isSeparated fast slow close minimum <;> cases allows side trend <;> simp

end EntryFilter

/-! ## What a report says about a candle -/

namespace Replay

/-- The entries of a report: those of its trades, then that of the open trade. -/
def entries (r : Replay) : List Entry :=
  r.trades.map (·.entry) ++ (r.openTrade.map (·.entry)).toList

/-- After the exits of a candle no position is open: whatever was opened before it has been closed
by then. -/
structure IsFlatAt (r : Replay) (k : Nat) : Prop where
  trades : ∀ t ∈ r.trades, t.entryIndex < k → t.exitIndex ≤ k
  openTrade : ∀ t, r.openTrade = some t → k ≤ t.entryIndex

/-- The realized balance after the exits of a candle: the point of the equity curve that the trades
closed by then lead to. -/
def balanceAt? (r : Replay) (k : Nat) : Option Float :=
  (r.equity.map (·.balance))[r.trades.countP fun t => decide (t.exitIndex ≤ k)]?

/-- No cooldown runs on a candle: every exit by then is further back than the cooldown lasts. -/
def IsRestedAt (r : Replay) (cooldown k : Nat) : Prop :=
  ∀ t ∈ r.trades, t.exitIndex ≤ k → ¬ (0 < cooldown ∧ k - t.exitIndex ≤ cooldown)

end Replay

namespace Simulation

variable {candles : List Candle} {params : CrossoverParams} {settings : AccountSettings}

/-- The trend of the higher time frame after the candle at an index. -/
def trendAt (params : CrossoverParams) (closes : List Float) (k : Nat) : Trend :=
  (Trend.new params.trendMultiplier params.trendPeriod).updateAll (closes.take (k + 1))

/-- A crossing on a candle asks for a side, and the filters let it pass. -/
structure Signals (params : CrossoverParams) (closes : List Float) (k : Nat) (side : Side) :
    Prop where
  crosses : (crossAt params closes k = some .golden ∧ side = .long) ∨
    (crossAt params closes k = some .death ∧ params.enableShort = true ∧ side = .short)
  separated : ∃ fast slow close,
    averageAt params.averageKind params.fastPeriod closes k = some fast ∧
    averageAt params.averageKind params.slowPeriod closes k = some slow ∧
    closes[k]? = some close ∧
    EntryFilter.isSeparated fast slow close params.minSeparationPct = true
  withTrend : side = .short → params.trendEnabled = true →
    (trendAt params closes k).isFalling = true

/-- Everything that lets a candle open a position on a side. -/
structure Eligible (candles : List Candle) (params : CrossoverParams) (settings : AccountSettings)
    (r : Replay) (k : Nat) (side : Side) : Prop where
  isFlat : r.IsFlatAt k
  signals : Signals params (candles.map (·.close)) k side
  solvent : ∃ balance, r.balanceAt? k = some balance ∧ 0 < balance
  notClosing : k + 1 ≠ candles.length ∨ settings.closeAtEnd = false
  rested : r.IsRestedAt params.cooldownCandles k

/-! ## What a state admits -/

/-- By the closes it has taken, a state sees the signals of the next candle. -/
theorem signals_iff {k : Nat} {s : SimulationState} {c : Candle} (hk : candles[k]? = some c)
    (hfollows : Follows params ((candles.map (·.close)).take k) s) (side : Side) :
    Signals params (candles.map (·.close)) k side ↔
      Account.signal (s.crossOn c.close) params.enableShort = some side ∧
        ∃ f g, (s.fast.update c.close).value? = some f ∧
          (s.slow.update c.close).value? = some g ∧
          EntryFilter.verdict side f g c.close params.minSeparationPct
            (s.trend.map (·.update c.close)) = .passed := by
  have hclose := getElem?_closes hk
  have htake : (candles.map (·.close)).take (k + 1) =
      (candles.map (·.close)).take k ++ [c.close] := by
    rw [List.take_add_one, hclose]; rfl
  have hnext := follows_step hfollows c ⟨params, {}, k, false⟩
  rw [← htake] at hnext
  have hfast := hnext.fast
  have hslow := hnext.slow
  have htrend := hnext.trend
  rw [SimulationState.fast_step] at hfast
  rw [SimulationState.slow_step] at hslow
  rw [SimulationState.trend_step] at htrend
  have hallows : EntryFilter.allows side (s.trend.map (·.update c.close)) = true ↔
      (side = .short → params.trendEnabled = true →
        (trendAt params (candles.map (·.close)) k).isFalling = true) := by
    rw [EntryFilter.allows_iff, htrend, trendAt]
    cases params.trendEnabled <;> simp
  rw [Account.signal_eq_some_iff, crossOn_eq_crossAt hfollows hclose, hfast, hslow]
  constructor
  · rintro ⟨hcross, ⟨f, g, close, hf, hg, hc, hseparated⟩, hwith⟩
    cases hclose.symm.trans hc
    exact ⟨hcross, f, g, hf, hg, (EntryFilter.verdict_eq_passed_iff _ _ _ _ _ _).2
      ⟨hseparated, hallows.2 hwith⟩⟩
  · rintro ⟨hcross, f, g, hf, hg, hpassed⟩
    obtain ⟨hseparated, hallowed⟩ := (EntryFilter.verdict_eq_passed_iff _ _ _ _ _ _).1 hpassed
    exact ⟨hcross, ⟨f, g, c.close, hf, hg, hclose, hseparated⟩, hallows.1 hallowed⟩

/-- What a flat state admits, by the closes, its countdown and its balance. -/
theorem admits_iff {k : Nat} {s : SimulationState} {c : Candle} (hk : candles[k]? = some c)
    (hfollows : Follows params ((candles.map (·.close)).take k) s)
    (hflat : (s.settled c (contextAt params settings candles k)).position = none) (side : Side) :
    s.Admits c (contextAt params settings candles k) side ↔
      Signals params (candles.map (·.close)) k side ∧
        0 < (s.step c (contextAt params settings candles k)).1.account.balance ∧
        (k + 1 ≠ candles.length ∨ settings.closeAtEnd = false) ∧
        (s.settled c (contextAt params settings candles k)).cooldown = 0 := by
  have hclosing : ¬ ((contextAt params settings candles k).isLast = true ∧
      (contextAt params settings candles k).settings.closeAtEnd = true) ↔
        (k + 1 ≠ candles.length ∨ settings.closeAtEnd = false) := by
    simp only [contextAt, decide_eq_true_eq]
    rw [Classical.not_and_iff_not_or_not, Bool.not_eq_true]
  rw [signals_iff hk hfollows side, ← hclosing, SimulationState.balance_step]
  constructor
  · intro h
    exact ⟨⟨h.signalled, h.passed⟩, h.solvent, h.notClosing, h.noCooldown⟩
  · rintro ⟨⟨hsignalled, hpassed⟩, hsolvent, hnotClosing, hcooldown⟩
    exact ⟨hflat, hcooldown, hnotClosing, hsolvent, hsignalled, hpassed⟩

/-! ## The report so far -/

section Report

variable {first : Candle} {s : SimulationState} {ts : List (Trade × Float)} {k : Nat}

theorem entries_result : (result settings first candles s ts).entries = entries (s, ts) := by
  rw [Replay.entries, entries, heldEntry, result, List.map_map, Option.map_map]
  rfl

theorem isFlatAt_result : (result settings first candles s ts).IsFlatAt k ↔
    (∀ t ∈ ts, t.1.entryIndex < k → t.1.exitIndex ≤ k) ∧
      ∀ p, s.account.position = some p → k ≤ p.entryIndex := by
  constructor
  · intro h
    exact ⟨fun t ht => h.trades t.1 (List.mem_map_of_mem ht),
      fun p hp => h.openTrade _ (Option.map_eq_some_iff.2 ⟨p, hp, rfl⟩)⟩
  · rintro ⟨htrades, hposition⟩
    refine ⟨fun t ht => ?_, fun t ht => ?_⟩
    · obtain ⟨u, hu, rfl⟩ := List.mem_map.1 ht
      exact htrades u hu
    · obtain ⟨p, hp, rfl⟩ := Option.map_eq_some_iff.1 ht
      exact hposition p hp

theorem balanceAt?_result : (result settings first candles s ts).balanceAt? k =
    (balances settings.initialBalance ts)[ts.countP fun t => decide (t.1.exitIndex ≤ k)]? := by
  rw [Replay.balanceAt?, map_balance_equity_result, trades_result, List.countP_map]
  rfl

theorem isRestedAt_result {cooldown : Nat} :
    (result settings first candles s ts).IsRestedAt cooldown k ↔
      ∀ t ∈ ts, t.1.exitIndex ≤ k → ¬ (0 < cooldown ∧ k - t.1.exitIndex ≤ cooldown) := by
  rw [Replay.IsRestedAt, trades_result]
  exact List.forall_mem_map

end Report

/-! ## One candle -/

section Step

variable {first : Candle} {k j : Nat} {s : SimulationState} {ts : List (Trade × Float)} {c : Candle}

theorem entryIndex_of_opensOn {ctx : CandleContext} {p : Position} (h : s.OpensOn c ctx)
    (hp : (s.step c ctx).1.account.position = some p) : p.entryIndex = ctx.index := by
  rcases h with ⟨hnone, -, -⟩ | ⟨side, -, hpos, -⟩
  · rw [hnone] at hp
    cases hp
  · rw [hpos] at hp
    cases hp
    rfl

theorem isFlatAt_step_iff (hj : j < k) :
    (result settings first candles (s.step c (contextAt params settings candles k)).1
        (ts ++ booked (s.step c (contextAt params settings candles k)))).IsFlatAt j ↔
      (result settings first candles s ts).IsFlatAt j := by
  have hlater (h : s.OpensOn c (contextAt params settings candles k)) (p : Position)
      (hp : (s.step c (contextAt params settings candles k)).1.account.position = some p) :
      j ≤ p.entryIndex := by
    rw [entryIndex_of_opensOn h hp]
    exact Nat.le_of_lt hj
  rw [isFlatAt_result, isFlatAt_result]
  rcases s.step_cases c (contextAt params settings candles k) with
    ⟨p, hp, -, hpos, -, -, hclosed, -⟩ | ⟨hflat, -, -, hclosed, hopens⟩ |
    ⟨p, reason, hp, -, -, -, hclosed, hopens⟩
  · -- The position that is held has kept its entry.
    rw [booked_of_closed_eq_none hclosed, List.append_nil, hpos, hp]
    refine and_congr_right fun _ => ⟨fun h q hq => ?_, fun h q hq => ?_⟩
    · cases hq
      exact h (p.track c.close params) rfl
    · cases hq
      exact h p rfl
  · rw [booked_of_closed_eq_none hclosed, List.append_nil, hflat]
    exact and_congr_right fun _ => ⟨fun _ q hq => (nomatch hq), fun _ => hlater hopens⟩
  · -- The position that is closed has become the last trade, with an exit after the candle.
    rw [booked_of_closed_eq_some hclosed, List.forall_mem_append, List.forall_mem_singleton, hp]
    constructor
    · rintro ⟨⟨htrades, htrade⟩, -⟩
      refine ⟨htrades, fun q hq => ?_⟩
      cases hq
      exact Nat.le_of_not_lt fun hlt => absurd (htrade hlt) (Nat.not_le.2 hj)
    · rintro ⟨htrades, hposition⟩
      exact ⟨⟨htrades, fun hlt => absurd (hposition p rfl) (Nat.not_le.2 hlt)⟩, hlater hopens⟩

theorem balanceAt?_step (hj : j < k) :
    (result settings first candles (s.step c (contextAt params settings candles k)).1
        (ts ++ booked (s.step c (contextAt params settings candles k)))).balanceAt? j =
      (result settings first candles s ts).balanceAt? j := by
  have hbooked : (booked (s.step c (contextAt params settings candles k))).countP
      (fun t => decide (t.1.exitIndex ≤ j)) = 0 := by
    rw [List.countP_eq_zero]
    intro t ht
    rw [exitIndex_of_mem_booked ht, decide_eq_true_eq]
    exact Nat.not_le.2 hj
  have hle := List.countP_le_length (p := fun t : Trade × Float => decide (t.1.exitIndex ≤ j))
    (l := ts)
  rw [balanceAt?_result, balanceAt?_result, List.countP_append, hbooked, Nat.add_zero, balances,
    balances, List.map_append, ← List.cons_append, List.getElem?_append_left]
  rw [List.length_cons, List.length_map]
  exact Nat.lt_succ_of_le hle

theorem isRestedAt_step_iff (hj : j < k) {cooldown : Nat} :
    (result settings first candles (s.step c (contextAt params settings candles k)).1
        (ts ++ booked (s.step c (contextAt params settings candles k)))).IsRestedAt cooldown j ↔
      (result settings first candles s ts).IsRestedAt cooldown j := by
  rw [isRestedAt_result, isRestedAt_result, List.forall_mem_append]
  refine and_iff_left fun t ht hle => ?_
  rw [exitIndex_of_mem_booked ht] at hle
  exact absurd hle (Nat.not_le.2 hj)

/-- What a report says about a candle is not changed by later ones. -/
theorem eligible_step_iff (hj : j < k) (side : Side) :
    Eligible candles params settings (result settings first candles
        (s.step c (contextAt params settings candles k)).1
        (ts ++ booked (s.step c (contextAt params settings candles k)))) j side ↔
      Eligible candles params settings (result settings first candles s ts) j side := by
  constructor
  · rintro ⟨hflat, hsignals, ⟨balance, hat, hsolvent⟩, hclosing, hrested⟩
    exact ⟨(isFlatAt_step_iff hj).1 hflat, hsignals,
      ⟨balance, (balanceAt?_step hj).symm.trans hat, hsolvent⟩, hclosing,
      (isRestedAt_step_iff hj).1 hrested⟩
  · rintro ⟨hflat, hsignals, ⟨balance, hat, hsolvent⟩, hclosing, hrested⟩
    exact ⟨(isFlatAt_step_iff hj).2 hflat, hsignals,
      ⟨balance, (balanceAt?_step hj).trans hat, hsolvent⟩, hclosing,
      (isRestedAt_step_iff hj).2 hrested⟩

/-- After a candle the realized balance on it is that of the state. -/
theorem balanceAt?_eq_some (h : KeepsLedger candles params settings (k + 1) s ts) :
    (result settings first candles s ts).balanceAt? k = some s.account.balance := by
  have hall : ts.countP (fun t => decide (t.1.exitIndex ≤ k)) = ts.length := by
    rw [List.countP_eq_length]
    intro t ht
    exact decide_eq_true (Nat.le_of_lt_succ (h.past t ht))
  have hlength : (balances settings.initialBalance ts).length = ts.length + 1 := by
    rw [balances, List.length_cons, List.length_map]
  have hlast := h.last
  rw [List.getLast?_eq_getElem?, hlength, Nat.add_sub_cancel] at hlast
  rw [balanceAt?_result, hall]
  exact hlast

/-- The countdown of a state has run out on a candle exactly if the report says that no cooldown
runs there, with the exit of the candle itself counted. -/
theorem isRestedAt_now_iff (hpast : ∀ t ∈ ts, t.1.exitIndex < k)
    (hcools : s.account.cooldown ≤ 0 ↔
      ∀ t ∈ ts, params.cooldownCandles + t.1.exitIndex + 1 ≤ 0 + k) :
    (result settings first candles (s.step c (contextAt params settings candles k)).1
        (ts ++ booked (s.step c (contextAt params settings candles k)))).IsRestedAt
          params.cooldownCandles k ↔
      (s.settled c (contextAt params settings candles k)).cooldown = 0 := by
  rw [isRestedAt_result, SimulationState.cooldown_settled]
  cases hclosed : (s.step c (contextAt params settings candles k)).2.closed with
  | none =>
    rw [booked_of_closed_eq_none hclosed, List.append_nil, Option.isSome_none,
      if_neg Bool.false_ne_true, ← Nat.le_zero, hcools]
    refine forall₂_congr fun t ht => ?_
    have hlt := hpast t ht
    omega
  | some trade =>
    have hmem : (trade, (s.step c (contextAt params settings candles k)).1.account.balance) ∈
        booked (s.step c (contextAt params settings candles k)) := by
      rw [booked_of_closed_eq_some hclosed]
      exact List.mem_singleton_self _
    have hexit : trade.exitIndex = k := exitIndex_of_mem_booked hmem
    rw [booked_of_closed_eq_some hclosed, Option.isSome_some, if_pos rfl, List.forall_mem_append,
      List.forall_mem_singleton, hexit]
    change _ ↔ params.cooldownCandles = 0
    constructor
    · rintro ⟨-, hnow⟩
      omega
    · intro hzero
      exact ⟨fun t _ _ => by omega, fun _ => by omega⟩

/-- A state that is flat after its exits admits a side exactly if the report says that the candle is
eligible for it. -/
theorem eligible_now_iff (hk : candles[k]? = some c)
    (hfollows : Follows params ((candles.map (·.close)).take k) s)
    (hflat : (s.settled c (contextAt params settings candles k)).position = none)
    (hnext : KeepsLedger candles params settings (k + 1)
      (s.step c (contextAt params settings candles k)).1
      (ts ++ booked (s.step c (contextAt params settings candles k))))
    (hpast : ∀ t ∈ ts, t.1.exitIndex < k)
    (hcools : s.account.cooldown ≤ 0 ↔
      ∀ t ∈ ts, params.cooldownCandles + t.1.exitIndex + 1 ≤ 0 + k) (side : Side) :
    Eligible candles params settings (result settings first candles
        (s.step c (contextAt params settings candles k)).1
        (ts ++ booked (s.step c (contextAt params settings candles k)))) k side ↔
      s.Admits c (contextAt params settings candles k) side := by
  rw [admits_iff hk hfollows hflat]
  constructor
  · rintro ⟨-, hsignals, ⟨balance, hat, hsolvent⟩, hclosing, hrested⟩
    cases (balanceAt?_eq_some hnext).symm.trans hat
    exact ⟨hsignals, hsolvent, hclosing, (isRestedAt_now_iff hpast hcools).1 hrested⟩
  · rintro ⟨hsignals, hsolvent, hclosing, hcooldown⟩
    refine ⟨isFlatAt_result.2 ⟨fun t ht _ => Nat.le_of_lt_succ (hnext.past t ht), ?_⟩, hsignals,
      ⟨_, balanceAt?_eq_some hnext, hsolvent⟩, hclosing,
      (isRestedAt_now_iff hpast hcools).2 hcooldown⟩
    intro p hp
    exact Nat.le_of_eq
      (entryIndex_of_opensOn (SimulationState.opensOn_of_flat s c _ hflat) hp).symm

/-- Trades have been entered before the last candle taken, so what is entered on it is held. -/
theorem exists_entry_now_iff (h : KeepsLedger candles params settings (k + 1) s ts) (side : Side) :
    (∃ e ∈ entries (s, ts), e.index = k ∧ e.side = side) ↔
      ∃ p, s.account.position = some p ∧ p.entryIndex = k ∧ p.side = side := by
  constructor
  · rintro ⟨e, he, hindex, hside⟩
    rcases List.mem_append.1 he with he | he
    · obtain ⟨t, ht, rfl⟩ := List.mem_map.1 he
      have hlater := h.later ht
      have hexit := h.past t ht
      change t.1.entryIndex = k at hindex
      omega
    · obtain ⟨p, hp, rfl⟩ := Option.map_eq_some_iff.1 (Option.mem_toList.1 he)
      exact ⟨p, hp, hindex, hside⟩
  · rintro ⟨p, hp, hindex, hside⟩
    refine ⟨p.entry, List.mem_append_right _ ?_, hindex, hside⟩
    rw [heldEntry, hp]
    exact List.mem_singleton_self _

/-- A candle that opens a position opens it on the side that is admitted. -/
theorem exists_position_iff_admits {ctx : CandleContext} (h : s.OpensOn c ctx) (side : Side) :
    (∃ p, (s.step c ctx).1.account.position = some p ∧ p.entryIndex = ctx.index ∧ p.side = side) ↔
      s.Admits c ctx side := by
  rcases h with ⟨hnone, -, hnot⟩ | ⟨other, hadmits, hpos, -⟩
  · rw [hnone]
    exact ⟨fun ⟨p, hp, _⟩ => (nomatch hp), fun hside => absurd hside (hnot side)⟩
  · rw [hpos]
    constructor
    · rintro ⟨p, hp, -, rfl⟩
      cases hp
      exact hadmits
    · intro hside
      cases hadmits.signalled.symm.trans hside.signalled
      exact ⟨_, rfl, rfl, rfl⟩

/-- A candle adds to the entries so far none but its own. -/
theorem entries_append_booked (s : SimulationState) (ts : List (Trade × Float)) (c : Candle)
    (ctx : CandleContext) :
    ∃ added, entries ((s.step c ctx).1, ts ++ booked (s.step c ctx)) = entries (s, ts) ++ added ∧
      ∀ e ∈ added, e.index = ctx.index := by
  obtain ⟨added, hadded, hindex⟩ := entries_step s c ctx
  refine ⟨added, ?_, hindex⟩
  rw [entries] at hadded
  rw [entries, entries, List.map_append, List.append_assoc, hadded, List.append_assoc]

end Step

/-! ## The record -/

/-- After `k` candles the countdown is what the latest exit leaves of its cooldown, and each candle
so far has opened a position exactly if it was eligible. -/
structure KeepsOpenings (candles : List Candle) (params : CrossoverParams)
    (settings : AccountSettings) (first : Candle) (k : Nat) (s : SimulationState)
    (ts : List (Trade × Float)) : Prop where
  ledger : KeepsLedger candles params settings k s ts
  cools : ∀ n, s.account.cooldown ≤ n ↔
    ∀ t ∈ ts, params.cooldownCandles + t.1.exitIndex + 1 ≤ n + k
  opens : ∀ j < k, ∀ side,
    (∃ e ∈ (result settings first candles s ts).entries, e.index = j ∧ e.side = side) ↔
      Eligible candles params settings (result settings first candles s ts) j side

section Record

variable {first : Candle} {k : Nat} {s : SimulationState} {ts : List (Trade × Float)} {c : Candle}

/-- The countdown starts on an exit and loses one on every other candle, which is one candle more
since each exit. -/
theorem cools_step (hpast : ∀ t ∈ ts, t.1.exitIndex < k)
    (h : ∀ n, s.account.cooldown ≤ n ↔
      ∀ t ∈ ts, params.cooldownCandles + t.1.exitIndex + 1 ≤ n + k) (n : Nat) :
    (s.step c (contextAt params settings candles k)).1.account.cooldown ≤ n ↔
      ∀ t ∈ ts ++ booked (s.step c (contextAt params settings candles k)),
        params.cooldownCandles + t.1.exitIndex + 1 ≤ n + (k + 1) := by
  have hticks : s.account.cooldown - 1 ≤ n ↔
      ∀ t ∈ ts, params.cooldownCandles + t.1.exitIndex + 1 ≤ n + (k + 1) := by
    rw [Nat.sub_le_iff_le_add, h (n + 1)]
    exact forall₂_congr fun t _ => by omega
  rcases s.step_cases c (contextAt params settings candles k) with
    ⟨p, -, -, -, -, hcooldown, hclosed, -⟩ | ⟨-, -, hcooldown, hclosed, -⟩ |
    ⟨p, reason, -, -, -, hcooldown, hclosed, -⟩
  · rw [booked_of_closed_eq_none hclosed, List.append_nil, hcooldown]
    exact hticks
  · rw [booked_of_closed_eq_none hclosed, List.append_nil, hcooldown]
    exact hticks
  · rw [booked_of_closed_eq_some hclosed, hcooldown, List.forall_mem_append,
      List.forall_mem_singleton]
    change params.cooldownCandles ≤ n ↔ _ ∧ params.cooldownCandles + k + 1 ≤ n + (k + 1)
    constructor
    · intro hle
      refine ⟨fun t ht => ?_, by omega⟩
      have hlt := hpast t ht
      omega
    · rintro ⟨-, hle⟩
      omega

/-- Every candle keeps the record. -/
theorem keepsOpenings_step (hk : candles[k]? = some c)
    (hfollows : Follows params ((candles.map (·.close)).take k) s)
    (h : KeepsOpenings candles params settings first k s ts) :
    KeepsOpenings candles params settings first (k + 1)
      (s.step c (contextAt params settings candles k)).1
      (ts ++ booked (s.step c (contextAt params settings candles k))) := by
  have hnext := keepsLedger_step hk hfollows h.ledger
  refine ⟨hnext, cools_step h.ledger.past h.cools, fun j hj side => ?_⟩
  rcases Nat.lt_succ_iff_lt_or_eq.1 hj with hlt | rfl
  · -- An earlier candle: nothing that concerns it has changed.
    obtain ⟨added, hentries, hindex⟩ :=
      entries_append_booked s ts c (contextAt params settings candles k)
    rw [eligible_step_iff hlt, ← h.opens j hlt side, entries_result, entries_result, hentries]
    constructor
    · rintro ⟨e, he, rfl, hside⟩
      rcases List.mem_append.1 he with he | he
      · exact ⟨e, he, rfl, hside⟩
      · exact absurd (hindex e he) (Nat.ne_of_lt hlt)
    · rintro ⟨e, he, hat, hside⟩
      exact ⟨e, List.mem_append_left _ he, hat, hside⟩
  · rw [entries_result, exists_entry_now_iff hnext]
    rcases s.settled_cases c (contextAt params settings candles j) with hflat | ⟨p, hp, hpos⟩
    · exact (exists_position_iff_admits (SimulationState.opensOn_of_flat s c _ hflat) side).trans
        (eligible_now_iff hk hfollows hflat hnext h.ledger.past (h.cools 0) side).symm
    · -- The position that is held was opened before, and stands in the way of another.
      have hbefore := (h.ledger.held p hp).2.1
      change p.entryIndex < j at hbefore
      rw [hpos]
      constructor
      · rintro ⟨q, hq, hindex, -⟩
        cases hq
        change p.entryIndex = j at hindex
        omega
      · intro heligible
        have hle := (isFlatAt_result.1 heligible.isFlat).2 _ hpos
        change j ≤ p.entryIndex at hle
        omega

theorem keepsOpenings_replay (candles : List Candle) (params : CrossoverParams)
    (settings : AccountSettings) (first : Candle) :
    KeepsOpenings candles params settings first candles.length
      (replay params settings 0 (.new params settings) candles).1
      (replay params settings 0 (.new params settings) candles).2 := by
  refine replay_induction params settings candles (KeepsOpenings candles params settings first)
    ⟨keepsLedger_new, fun n => ?_, ?_⟩
    fun _ _ _ _ hk hfollows h => keepsOpenings_step hk hfollows h
  · constructor
    · intro _ t ht
      cases ht
    · intro _
      exact Nat.zero_le n
  · intro j hj
    exact absurd hj (Nat.not_lt_zero j)

end Record

/-! ## The report -/

/-- While the cooldown of an exit runs no position is opened, and the candle after it is rested. -/
structure CoolsDown (cooldown : Nat) (r : Replay) (t : Trade) : Prop where
  blocked : ∀ e ∈ r.entries, t.exitIndex ≤ e.index → t.exitIndex + cooldown < e.index
  rested : r.IsRestedAt cooldown (t.exitIndex + cooldown + 1)

/-- What is entered after an exit is entered after its cooldown, and so no other exit comes before
the first candle that is rested again. -/
theorem coolsDown_of_rested {r : Replay} {cooldown : Nat} (hcooldown : 0 < cooldown)
    (hordered : r.trades.Pairwise fun t u => t.exitIndex ≤ u.entryIndex)
    (hlater : ∀ t ∈ r.trades, t.entryIndex < t.exitIndex)
    (hrested : ∀ e ∈ r.entries, r.IsRestedAt cooldown e.index) {t : Trade} (ht : t ∈ r.trades) :
    CoolsDown cooldown r t := by
  have hblocked : ∀ e ∈ r.entries, t.exitIndex ≤ e.index → t.exitIndex + cooldown < e.index := by
    intro e he hle
    have hnot := hrested e he t ht hle
    omega
  have hdisjoint : ∀ u ∈ r.trades, t.exitIndex ≤ u.entryIndex ∨ u.exitIndex ≤ t.exitIndex := by
    intro u hu
    obtain ⟨i, hi, rfl⟩ := List.getElem_of_mem ht
    obtain ⟨j, hj, rfl⟩ := List.getElem_of_mem hu
    rw [List.pairwise_iff_getElem] at hordered
    rcases Nat.lt_trichotomy i j with hlt | rfl | hlt
    · exact .inl (hordered i j hi hj hlt)
    · exact .inr (Nat.le_refl _)
    · exact .inr (Nat.le_trans (hordered j i hj hi hlt) (Nat.le_of_lt (hlater _ ht)))
  refine ⟨hblocked, fun u hu hle => ?_⟩
  rcases hdisjoint u hu with hafter | hbefore
  · have hentry := hblocked u.entry (List.mem_append_left _ (List.mem_map_of_mem hu)) hafter
    have hexit := hlater u hu
    change t.exitIndex + cooldown < u.entryIndex at hentry
    omega
  · omega

/-- A run opens a position on a candle exactly if the candle is eligible for its side; so an exit
blocks the candles of its cooldown, if it has one, and the next candle is rested. -/
theorem run_opens_iff {r : Replay} (h : run candles params settings = .ok r) :
    (∀ k < candles.length, ∀ side, (∃ e ∈ r.entries, e.index = k ∧ e.side = side) ↔
      Eligible candles params settings r k side) ∧
    (0 < params.cooldownCandles → ∀ t ∈ r.trades, CoolsDown params.cooldownCandles r t) := by
  obtain ⟨-, -, -, rfl⟩ := run_eq_ok_iff.1 h
  cases hfirst : candles.head? with
  | none =>
    rw [List.head?_eq_none_iff] at hfirst
    subst hfirst
    exact ⟨fun k hk => absurd hk (Nat.not_lt_zero k), fun _ t ht => (nomatch ht)⟩
  | some first =>
    rw [runValid_eq_result hfirst]
    have hkeeps := keepsOpenings_replay candles params settings first
    refine ⟨hkeeps.opens, fun hcooldown t ht => coolsDown_of_rested hcooldown
      (List.pairwise_map.2 hkeeps.ledger.ordered) (fun u hu => ?_) (fun e he => ?_) ht⟩
    · obtain ⟨v, hv, rfl⟩ := List.mem_map.1 hu
      exact hkeeps.ledger.later hv
    · have hlt := hkeeps.ledger.index_lt (entries_result ▸ he)
      exact ((hkeeps.opens e.index hlt e.side).1 ⟨e, he, rfl, rfl⟩).rested

/-- A long that takes its profit, a crossing two candles later that its cooldown blocks, and one two
candles after that, which opens the next. -/
theorem run_opens_iff_cooling :
    ∃ r, run (hourly 0 [10, 10, 12, 13, 12, 13, 12, 13]) cooling { closeAtEnd := false } = .ok r ∧
      r.entries.map (fun e => (e.index, e.side)) = [(2, .long), (7, .long)] ∧
      (∀ k < 8, ∀ side, (∃ e ∈ r.entries, e.index = k ∧ e.side = side) ↔
        Eligible (hourly 0 [10, 10, 12, 13, 12, 13, 12, 13]) cooling { closeAtEnd := false } r k
          side) ∧
      ∀ t ∈ r.trades, CoolsDown 2 r t := by
  have hrun : run (hourly 0 [10, 10, 12, 13, 12, 13, 12, 13]) cooling { closeAtEnd := false } =
      .ok _ := run_eq_ok_iff.2 ⟨by decide +kernel, by decide +kernel, by decide +kernel, rfl⟩
  obtain ⟨hopens, hcools⟩ := run_opens_iff hrun
  exact ⟨_, hrun, by decide +kernel, hopens, hcools (by decide)⟩

end Simulation
end Backtest
