import Backtest.Proofs.Simulation.Entries

/-!
# The ledger of a run

Trades, equity curve and balance belong together: each trade is opened with the balance that the
trades before it left, on a candle no earlier than their exits, and its own exit adds its profit as
the next point of the curve. This holds after every candle (`keepsLedger_step`), also after one that
closes a position and opens the next, and so it holds of the report.

## Main definitions

* `EntersAt`, `ExitsAt` — what an entry and an exit have to do with the candles and a balance.
* `KeepsLedger` — the invariant of a replay.
* `IsLedger` — what a report says about its trades, its curve and its balance.
* `run_isLedger` — every run over candles reports a ledger.
-/
namespace Backtest.Simulation

variable {candles : List Candle} {params : CrossoverParams} {settings : AccountSettings}

/-- An entry made on a candle of the list, with warm averages, on a side that may be opened, and of
the size that a balance allows. -/
structure EntersAt (candles : List Candle) (params : CrossoverParams) (settings : AccountSettings)
    (balance : Float) (e : Entry) : Prop where
  warm : params.slowPeriod ≤ e.index
  candle : ∃ c, candles[e.index]? = some c ∧ e.time = c.openTime ∧ e.price = c.close
  quantity : e.quantity = balance * settings.positionFraction * settings.leverage / e.price
  allowed : e.side = .short → params.enableShort = true

/-- An exit on a later candle of the list than the entry; only the last one ends the data. -/
structure ExitsAt (candles : List Candle) (settings : AccountSettings) (t : Trade) : Prop where
  later : t.entryIndex < t.exitIndex
  inRange : t.exitIndex < candles.length
  candle : ∃ c, candles[t.exitIndex]? = some c ∧ t.exitTime = c.openTime ∧ t.exitPrice = c.close
  held : t.candlesHeld = t.exitIndex - t.entryIndex
  endOfData : t.exitReason = .endOfData →
    settings.closeAtEnd = true ∧ t.exitIndex + 1 = candles.length

/-- The balances of a record: the one at the start and the one after each trade. -/
def balances (initial : Float) (ts : List (Trade × Float)) : List Float := initial :: ts.map (·.2)

/-- A trade that was opened with a balance and leaves the next. -/
structure Books (candles : List Candle) (params : CrossoverParams) (settings : AccountSettings)
    (balance : Float) (t : Trade × Float) : Prop where
  enters : EntersAt candles params settings balance t.1.entry
  exits : ExitsAt candles settings t.1
  leaves : t.2 = balance + t.1.pnlUsd

/-- The record and the state after `k` candles agree. -/
structure KeepsLedger (candles : List Candle) (params : CrossoverParams)
    (settings : AccountSettings) (k : Nat) (s : SimulationState) (ts : List (Trade × Float)) :
    Prop where
  last : (balances settings.initialBalance ts).getLast? = some s.account.balance
  books : ∀ (i : Nat) t, ts[i]? = some t →
    ∃ a, (balances settings.initialBalance ts)[i]? = some a ∧ Books candles params settings a t
  ordered : ts.Pairwise fun a b => a.1.exitIndex ≤ b.1.entryIndex
  past : ∀ t ∈ ts, t.1.exitIndex < k
  held : ∀ p, s.account.position = some p →
    EntersAt candles params settings s.account.balance p.entry ∧ p.entryIndex < k ∧
      ∀ t ∈ ts, t.1.exitIndex ≤ p.entryIndex
  closing : k = candles.length → settings.closeAtEnd = true → s.account.position = none

/-! ## One candle -/

/-- A position is opened on a crossing only, and short only where that is enabled. -/
theorem signal_eq_some {cross : Option Cross} {enableShort : Bool} {side : Side}
    (h : Account.signal cross enableShort = some side) :
    (∃ x, cross = some x) ∧ (side = .short → enableShort = true) := by
  rcases (Account.signal_eq_some_iff cross enableShort side).1 h with
    ⟨hcross, rfl⟩ | ⟨hcross, hshort, rfl⟩
  · exact ⟨⟨_, hcross⟩, fun hside => nomatch hside⟩
  · exact ⟨⟨_, hcross⟩, fun _ => hshort⟩

/-- What a candle opens is an entry with the balance after the candle. -/
theorem entersAt_of_opensOn {k : Nat} {s : SimulationState} {c : Candle} {isLast : Bool}
    (hk : candles[k]? = some c) (hfollows : Follows params ((candles.map (·.close)).take k) s)
    (hopens : s.OpensOn c ⟨params, settings, k, isLast⟩) {p : Position}
    (hp : (s.step c ⟨params, settings, k, isLast⟩).1.account.position = some p) :
    EntersAt candles params settings (s.step c ⟨params, settings, k, isLast⟩).1.account.balance
      p.entry ∧ p.entryIndex = k := by
  rcases hopens with ⟨hnone, -, -⟩ | ⟨side, hadmits, hpos, -⟩
  · rw [hnone] at hp
    cases hp
  · rw [hpos] at hp
    cases hp
    obtain ⟨⟨x, hx⟩, hshort⟩ := signal_eq_some hadmits.signalled
    rw [crossOn_eq_crossAt hfollows (getElem?_closes hk)] at hx
    exact ⟨⟨slowPeriod_le_of_crossAt hx, ⟨c, hk, rfl, rfl⟩, rfl, hshort⟩, rfl⟩

/-- What a candle closes is an exit from the position before it. -/
theorem exitsAt_tradeOn {k : Nat} {s : SimulationState} {c : Candle} {p : Position}
    {reason : ExitReason} (hk : candles[k]? = some c) (hentry : p.entryIndex < k)
    (hexit : s.exitOn c (contextAt params settings candles k) p = some reason) :
    ExitsAt candles settings
      (SimulationState.tradeOn c (contextAt params settings candles k) p reason) where
  later := hentry
  inRange := (List.getElem?_eq_some_iff.1 hk).1
  candle := ⟨c, hk, rfl, rfl⟩
  held := if_pos (Nat.le_of_lt hentry)
  endOfData := by
    intro hreason
    change reason = .endOfData at hreason
    subst hreason
    rw [SimulationState.exitOn, Position.exitFor?_eq_find?] at hexit
    have hmeets := List.find?_some hexit
    simp only [Position.meets, contextAt, Bool.and_eq_true, decide_eq_true_eq] at hmeets
    exact ⟨hmeets.2, hmeets.1⟩

/-- Where positions are closed at the end, the last candle leaves none. -/
theorem position_step_of_closing (params : CrossoverParams) (s : SimulationState) (c : Candle)
    {k : Nat} (hk : k + 1 = candles.length) (hclose : settings.closeAtEnd = true) :
    (s.step c (contextAt params settings candles k)).1.account.position = none := by
  have hlast : (contextAt params settings candles k).isLast = true := decide_eq_true hk
  have hflat (h : s.OpensOn c (contextAt params settings candles k)) :
      (s.step c (contextAt params settings candles k)).1.account.position = none := by
    rcases h with ⟨hnone, -, -⟩ | ⟨side, hadmits, -, -⟩
    · exact hnone
    · exact absurd ⟨hlast, hclose⟩ hadmits.notClosing
  rcases s.step_cases c (contextAt params settings candles k) with
    ⟨p, -, hexit, -⟩ | ⟨-, -, -, -, hopens⟩ | ⟨p, reason, -, -, -, -, -, hopens⟩
  · rw [SimulationState.exitOn, Position.exitFor?_eq_find?, List.find?_eq_none] at hexit
    refine absurd ?_ (hexit .endOfData (by decide))
    rw [Position.meets, hlast, Bool.true_and]
    exact hclose
  · exact hflat hopens
  · exact hflat hopens

/-! ## The record -/

theorem balances_concat (initial : Float) (ts : List (Trade × Float)) (t : Trade × Float) :
    balances initial (ts ++ [t]) = balances initial ts ++ [t.2] := by
  rw [balances, List.map_append, ← List.cons_append]
  rfl

theorem getLast?_balances_concat (initial : Float) (ts : List (Trade × Float)) (t : Trade × Float) :
    (balances initial (ts ++ [t])).getLast? = some t.2 := by
  rw [balances_concat]
  exact List.getLast?_concat

/-- A trade that books the last balance continues a record in which each books the one before. -/
theorem books_concat {initial a : Float} {ts : List (Trade × Float)} {t : Trade × Float}
    (hbooks : ∀ (i : Nat) t, ts[i]? = some t →
      ∃ a, (balances initial ts)[i]? = some a ∧ Books candles params settings a t)
    (hlast : (balances initial ts).getLast? = some a) (ht : Books candles params settings a t) :
    ∀ (i : Nat) u, (ts ++ [t])[i]? = some u →
      ∃ a, (balances initial (ts ++ [t]))[i]? = some a ∧ Books candles params settings a u := by
  intro i u hu
  have hlength : (balances initial ts).length = ts.length + 1 := by simp [balances]
  by_cases hi : i < ts.length
  · rw [List.getElem?_append_left hi] at hu
    rw [balances_concat, List.getElem?_append_left (by omega)]
    exact hbooks i u hu
  · have hlt := (List.getElem?_eq_some_iff.1 hu).1
    rw [List.length_append, List.length_singleton] at hlt
    obtain rfl : i = ts.length := by omega
    rw [List.getElem?_concat_length] at hu
    cases hu
    rw [List.getLast?_eq_getElem?, hlength, Nat.add_sub_cancel] at hlast
    rw [balances_concat, List.getElem?_append_left (by omega)]
    exact ⟨a, hlast, ht⟩

/-- The first state keeps an empty record. -/
theorem keepsLedger_new : KeepsLedger candles params settings 0 (.new params settings) [] where
  last := rfl
  books := by intro i t h; cases h
  ordered := .nil
  past := by intro t h; cases h
  held := by intro p h; cases h
  closing := fun _ _ => rfl

theorem KeepsLedger.later {k : Nat} {s : SimulationState} {ts : List (Trade × Float)}
    (h : KeepsLedger candles params settings k s ts) {t : Trade × Float} (ht : t ∈ ts) :
    t.1.entryIndex < t.1.exitIndex := by
  obtain ⟨i, hi⟩ := List.getElem?_of_mem ht
  obtain ⟨a, -, hbooks⟩ := h.books i t hi
  exact hbooks.exits.later

/-- Everything on record was entered on a candle so far. -/
theorem KeepsLedger.index_lt {k : Nat} {s : SimulationState} {ts : List (Trade × Float)}
    (h : KeepsLedger candles params settings k s ts) {e : Entry} (he : e ∈ entries (s, ts)) :
    e.index < k := by
  rcases List.mem_append.1 he with he | he
  · obtain ⟨t, ht, rfl⟩ := List.mem_map.1 he
    exact Nat.lt_trans (h.later ht) (h.past t ht)
  · obtain ⟨p, hp, rfl⟩ := Option.map_eq_some_iff.1 (Option.mem_toList.1 he)
    exact (h.held p hp).2.1

/-- A candle that closes nothing leaves the record as it is. -/
theorem KeepsLedger.succ {k : Nat} {s next : SimulationState} {ts : List (Trade × Float)}
    (h : KeepsLedger candles params settings k s ts)
    (hbalance : next.account.balance = s.account.balance)
    (hheld : ∀ p, next.account.position = some p →
      EntersAt candles params settings next.account.balance p.entry ∧ p.entryIndex < k + 1 ∧
        ∀ t ∈ ts, t.1.exitIndex ≤ p.entryIndex)
    (hclosing : k + 1 = candles.length → settings.closeAtEnd = true →
      next.account.position = none) :
    KeepsLedger candles params settings (k + 1) next ts where
  last := by rw [hbalance]; exact h.last
  books := h.books
  ordered := h.ordered
  past := fun t ht => Nat.lt_succ_of_lt (h.past t ht)
  held := hheld
  closing := hclosing

/-- Every candle keeps the record. -/
theorem keepsLedger_step {k : Nat} {s : SimulationState} {ts : List (Trade × Float)} {c : Candle}
    (hk : candles[k]? = some c) (hfollows : Follows params ((candles.map (·.close)).take k) s)
    (h : KeepsLedger candles params settings k s ts) :
    KeepsLedger candles params settings (k + 1)
      (s.step c (contextAt params settings candles k)).1
      (ts ++ booked (s.step c (contextAt params settings candles k))) := by
  have hclosing := fun (hlength : k + 1 = candles.length) (hclose : settings.closeAtEnd = true) =>
    position_step_of_closing params s c hlength hclose
  rcases s.step_cases c (contextAt params settings candles k) with
    ⟨p, hp, -, hpos, hbalance, -, hclosed, -⟩ | ⟨-, hbalance, -, hclosed, hopens⟩ |
    ⟨p, reason, hp, hexit, hbalance, -, hclosed, hopens⟩
  · -- The position is held.
    obtain ⟨henters, hentry, hexits⟩ := h.held p hp
    rw [booked_of_closed_eq_none hclosed, List.append_nil]
    refine h.succ hbalance (fun q hq => ?_) hclosing
    rw [hpos] at hq
    cases hq
    rw [hbalance, Position.entry_track]
    exact ⟨henters, Nat.lt_succ_of_lt hentry, hexits⟩
  · -- There was none, and one may be opened.
    rw [booked_of_closed_eq_none hclosed, List.append_nil]
    refine h.succ hbalance (fun q hq => ?_) hclosing
    obtain ⟨henters, rfl⟩ := entersAt_of_opensOn hk hfollows hopens hq
    exact ⟨henters, Nat.lt_succ_self _, fun t ht => Nat.le_of_lt (h.past t ht)⟩
  · -- It is closed, and the next may be opened on the same candle.
    obtain ⟨henters, hentry, hexits⟩ := h.held p hp
    have hbook : Books candles params settings s.account.balance
        (SimulationState.tradeOn c (contextAt params settings candles k) p reason,
          (s.step c (contextAt params settings candles k)).1.account.balance) :=
      ⟨henters, exitsAt_tradeOn hk hentry hexit, hbalance⟩
    have hpast : ∀ t ∈ ts ++ [(SimulationState.tradeOn c (contextAt params settings candles k) p
        reason, (s.step c (contextAt params settings candles k)).1.account.balance)],
        t.1.exitIndex ≤ k := by
      intro t ht
      rcases List.mem_append.1 ht with ht | ht
      · exact Nat.le_of_lt (h.past t ht)
      · rw [List.mem_singleton.1 ht]
        exact Nat.le_refl k
    rw [booked_of_closed_eq_some hclosed]
    refine ⟨getLast?_balances_concat _ _ _, books_concat h.books h.last hbook, ?_,
      fun t ht => Nat.lt_succ_of_le (hpast t ht), fun q hq => ?_, hclosing⟩
    · rw [List.pairwise_append]
      refine ⟨h.ordered, List.pairwise_singleton _ _, ?_⟩
      intro t ht u hu
      rw [List.mem_singleton.1 hu]
      exact hexits t ht
    · obtain ⟨henters', rfl⟩ := entersAt_of_opensOn hk hfollows hopens hq
      exact ⟨henters', Nat.lt_succ_self _, hpast⟩

theorem keepsLedger_replay (candles : List Candle) (params : CrossoverParams)
    (settings : AccountSettings) :
    KeepsLedger candles params settings candles.length
      (replay params settings 0 (.new params settings) candles).1
      (replay params settings 0 (.new params settings) candles).2 :=
  replay_induction params settings candles (KeepsLedger candles params settings) keepsLedger_new
    fun _ _ _ _ hk hfollows h => keepsLedger_step hk hfollows h

/-! ## The report -/

/-- What a report over candles says about its trades, its equity curve and its balance. -/
structure IsLedger (candles : List Candle) (params : CrossoverParams) (settings : AccountSettings)
    (r : Replay) : Prop where
  length : r.equity.length = r.trades.length + 1
  /-- The curve starts on the first candle with the balance of the settings. -/
  start : ∃ first, candles.head? = some first ∧
    r.equity[0]? = some ⟨first.openTime, settings.initialBalance⟩
  /-- Each trade is sized by the point before it and adds its profit as the next. -/
  trade : ∀ (i : Nat) t, r.trades[i]? = some t → ∃ point, r.equity[i]? = some point ∧
    EntersAt candles params settings point.balance t.entry ∧ ExitsAt candles settings t ∧
    r.equity[i + 1]? = some ⟨t.exitTime, point.balance + t.pnlUsd⟩
  ordered : r.trades.Pairwise fun t u => t.exitIndex ≤ u.entryIndex
  final : r.equity.getLast?.map (·.balance) = some r.finalBalance
  /-- The open trade is sized by the last point. -/
  held : ∀ t, r.openTrade = some t →
    EntersAt candles params settings r.finalBalance t.entry ∧
      ∀ u ∈ r.trades, u.exitIndex ≤ t.entryIndex
  closing : settings.closeAtEnd = true → r.openTrade = none

theorem map_balance_equity_result (first : Candle) (last : SimulationState)
    (ts : List (Trade × Float)) :
    (result settings first candles last ts).equity.map (·.balance) =
      balances settings.initialBalance ts := by
  rw [result, balances, List.map_cons, List.map_map]
  rfl

/-- A record that was kept over all candles is reported as a ledger. -/
theorem isLedger_result {first : Candle} (hfirst : candles.head? = some first)
    {s : SimulationState} {ts : List (Trade × Float)}
    (h : KeepsLedger candles params settings candles.length s ts) :
    IsLedger candles params settings (result settings first candles s ts) where
  length := by simp only [result, List.length_cons, List.length_map]
  start := ⟨first, hfirst, rfl⟩
  trade := by
    intro i t ht
    rw [result, List.getElem?_map, Option.map_eq_some_iff] at ht
    obtain ⟨u, hu, rfl⟩ := ht
    obtain ⟨a, ha, hbooks⟩ := h.books i u hu
    rw [← map_balance_equity_result first s, List.getElem?_map, Option.map_eq_some_iff] at ha
    obtain ⟨point, hpoint, rfl⟩ := ha
    refine ⟨point, hpoint, hbooks.enters, hbooks.exits, ?_⟩
    rw [result, List.getElem?_cons_succ, List.getElem?_map, hu, ← hbooks.leaves]
    rfl
  ordered := List.pairwise_map.2 h.ordered
  final := by
    rw [← List.getLast?_map, map_balance_equity_result, h.last]
    rfl
  held := by
    intro t ht
    obtain ⟨p, hp, rfl⟩ := Option.map_eq_some_iff.1 ht
    obtain ⟨henters, -, hexits⟩ := h.held p hp
    refine ⟨henters, fun u hu => ?_⟩
    obtain ⟨v, hv, rfl⟩ := List.mem_map.1 hu
    exact hexits v hv
  closing := fun hclose => Option.map_eq_none_iff.2 (h.closing rfl hclose)

/-- Every run over candles reports a ledger. -/
theorem run_isLedger {r : Replay} (hne : candles ≠ []) (h : run candles params settings = .ok r) :
    IsLedger candles params settings r := by
  obtain ⟨-, -, -, rfl⟩ := run_eq_ok_iff.1 h
  obtain ⟨first, hfirst⟩ := Option.ne_none_iff_exists'.1 (mt List.head?_eq_none_iff.1 hne)
  rw [runValid_eq_result hfirst]
  exact isLedger_result hfirst (keepsLedger_replay candles params settings)

/-- A run that reverses its position twice and ends with one open. -/
theorem run_isLedger_reversing :
    ∃ r, run (hourly 0 [10, 10, 12, 9, 8, 11, 12]) reversing { closeAtEnd := false } = .ok r ∧
      r.trades.map (fun t => (t.entryIndex, t.exitIndex)) = [(2, 3), (3, 5)] ∧
      IsLedger (hourly 0 [10, 10, 12, 9, 8, 11, 12]) reversing { closeAtEnd := false } r := by
  have hrun : run (hourly 0 [10, 10, 12, 9, 8, 11, 12]) reversing { closeAtEnd := false } = .ok _ :=
    run_eq_ok_iff.2 ⟨by decide +kernel, by decide +kernel, by decide +kernel, rfl⟩
  exact ⟨_, hrun, by decide +kernel, run_isLedger (by decide +kernel) hrun⟩

end Backtest.Simulation
