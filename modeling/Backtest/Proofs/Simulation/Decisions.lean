import Backtest.Proofs.Simulation.Ledger

/-!
# Decisions do not depend on the account

When to enter and when to leave is decided by the candles and the parameters. The account only sets
the size, and it makes no more trades once its balance is not above zero. So two accounts make the
same trades up to their size until one of them is ruined, and then the trades of that one are the
first of the other's.

## Main definitions

* `Decision` — a trade without its size.
* `SimulationState.unsized` — what a state decides by.
* `unsized_step` — two states that decide alike still do after a candle, if both are solvent then.
* `IsCutShort` — decisions that are the front of others, and all of them unless the account is
  ruined.
* `StaysSolvent` — a report with no trade after a balance that is not above zero.
* `run_decisions` — two accounts on the same candles.
-/
namespace Backtest

/-- A trade without its size. -/
structure Decision where
  side : Side
  entryIndex : Nat
  exitIndex : Nat
  exitReason : ExitReason
deriving DecidableEq

def Trade.decision (t : Trade) : Decision := ⟨t.side, t.entryIndex, t.exitIndex, t.exitReason⟩

/-- The decisions of a report in order. -/
def Replay.decisions (r : Replay) : List Decision := r.trades.map (·.decision)

/-! ## What is decided by -/

/-- A position without its size. -/
def Position.unsized (p : Position) : Position :=
  { p with quantity := 0, margin := 0, entryFee := 0 }

/-- What a state decides by: all of it but the balance and the size of its position. -/
def SimulationState.unsized (s : SimulationState) : SimulationState :=
  { s with
    account := { s.account with position := s.account.position.map .unsized, balance := 0 } }

/-- What is decided by of the settings. -/
def AccountSettings.unsized (a : AccountSettings) : AccountSettings :=
  { closeAtEnd := a.closeAtEnd }

namespace SimulationState

variable {params : CrossoverParams} {a b : AccountSettings} {s s' : SimulationState} {c : Candle}
  {k : Nat} {isLast : Bool}

/-- A position that was opened before is left for what it is, whatever its size. -/
theorem exitOn_unsized (s : SimulationState) (c : Candle) (p : Position) :
    s.unsized.exitOn c ⟨params, a.unsized, k, isLast⟩ p.unsized =
      s.exitOn c ⟨params, a, k, isLast⟩ p := rfl

theorem decision_tradeOn (c : Candle) (ctx : CandleContext) (p : Position) (reason : ExitReason) :
    (tradeOn c ctx p reason).decision = ⟨p.unsized.side, p.unsized.entryIndex, ctx.index, reason⟩ :=
  rfl

theorem unsized_enter (side : Side) (c : Candle) (k : Nat) (balance : Float)
    (a : AccountSettings) : (Position.enter side c k balance a).unsized =
      ⟨side, c.close, c.openTime, k, 0, 0, 0, c.close, false⟩ := rfl

theorem exitOn_congr (hlike : s.unsized = s'.unsized) (hend : a.closeAtEnd = b.closeAtEnd)
    {p q : Position} (hpos : p.unsized = q.unsized) :
    s.exitOn c ⟨params, a, k, isLast⟩ p = s'.exitOn c ⟨params, b, k, isLast⟩ q := by
  have hsettings : a.unsized = b.unsized := by rw [AccountSettings.unsized, hend]; rfl
  calc s.exitOn c ⟨params, a, k, isLast⟩ p
      = s.unsized.exitOn c ⟨params, a.unsized, k, isLast⟩ p.unsized := (exitOn_unsized s c p).symm
    _ = s'.unsized.exitOn c ⟨params, b.unsized, k, isLast⟩ q.unsized := by
      rw [hlike, hsettings, hpos]
    _ = s'.exitOn c ⟨params, b, k, isLast⟩ q := exitOn_unsized s' c q

/-- States that decide alike are both flat, or hold positions that only differ in size. -/
theorem position_cases_of_unsized_eq (hlike : s.unsized = s'.unsized) :
    (s.account.position = none ∧ s'.account.position = none) ∨
    ∃ p q, s.account.position = some p ∧ s'.account.position = some q ∧ p.unsized = q.unsized := by
  have hmap : s.account.position.map (·.unsized) = s'.account.position.map (·.unsized) :=
    congrArg (·.account.position) hlike
  cases hp : s.account.position with
  | none =>
    rw [hp, Option.map_none, eq_comm, Option.map_eq_none_iff] at hmap
    exact .inl ⟨rfl, hmap⟩
  | some p =>
    rw [hp, Option.map_some, eq_comm, Option.map_eq_some_iff] at hmap
    obtain ⟨q, hq, heq⟩ := hmap
    exact .inr ⟨p, q, rfl, hq, heq.symm⟩

theorem unsized_eq (hfast : s.fast = s'.fast) (hslow : s.slow = s'.slow)
    (htrend : s.trend = s'.trend) (hprevFast : s.account.prevFast = s'.account.prevFast)
    (hprevSlow : s.account.prevSlow = s'.account.prevSlow)
    (hcooldown : s.account.cooldown = s'.account.cooldown)
    (hposition : s.account.position.map (·.unsized) = s'.account.position.map (·.unsized)) :
    s.unsized = s'.unsized := by
  simp only [unsized, hfast, hslow, htrend, hprevFast, hprevSlow, hcooldown, hposition]

/-! ## One candle -/

section Candle

variable (params c k isLast) (hlike : s.unsized = s'.unsized) (hend : a.closeAtEnd = b.closeAtEnd)

include hlike hend

/-- States that decide alike close alike. -/
theorem closed_step_congr :
    (s.step c ⟨params, a, k, isLast⟩).2.closed.map (·.decision) =
      (s'.step c ⟨params, b, k, isLast⟩).2.closed.map (·.decision) := by
  rw [closed_step_eq_bind, closed_step_eq_bind]
  rcases position_cases_of_unsized_eq hlike with ⟨hp, hq⟩ | ⟨p, q, hp, hq, hpos⟩
  · rw [hp, hq, Option.bind_none, Option.bind_none]
  · rw [hp, hq, Option.bind_some, Option.bind_some, exitOn_congr hlike hend hpos, Option.map_map,
      Option.map_map]
    congr 1
    funext reason
    rw [Function.comp_apply, Function.comp_apply, decision_tradeOn, decision_tradeOn, hpos]

theorem isSome_closed_step_congr :
    (s.step c ⟨params, a, k, isLast⟩).2.closed.isSome =
      (s'.step c ⟨params, b, k, isLast⟩).2.closed.isSome := by
  have hclosed := congrArg Option.isSome (closed_step_congr params c k isLast hlike hend)
  rwa [Option.isSome_map, Option.isSome_map] at hclosed

theorem position_settled_congr :
    (s.settled c ⟨params, a, k, isLast⟩).position.map (·.unsized) =
      (s'.settled c ⟨params, b, k, isLast⟩).position.map (·.unsized) := by
  rw [position_settled, position_settled]
  rcases position_cases_of_unsized_eq hlike with ⟨hp, hq⟩ | ⟨p, q, hp, hq, hpos⟩
  · rw [hp, hq, Option.bind_none, Option.bind_none]
  · have htrack (r : Position) : (r.track c.close params).unsized =
        r.unsized.track c.close params := rfl
    rw [hp, hq, Option.bind_some, Option.bind_some, exitOn_congr hlike hend hpos]
    split
    · rfl
    · rw [Option.map_some, Option.map_some, htrack, htrack, hpos]

theorem cooldown_settled_congr :
    (s.settled c ⟨params, a, k, isLast⟩).cooldown =
      (s'.settled c ⟨params, b, k, isLast⟩).cooldown := by
  have hcooldown : s.account.cooldown = s'.account.cooldown :=
    congrArg (·.account.cooldown) hlike
  rw [cooldown_settled, cooldown_settled, isSome_closed_step_congr params c k isLast hlike hend,
    hcooldown]

theorem cooldown_step_congr :
    (s.step c ⟨params, a, k, isLast⟩).1.account.cooldown =
      (s'.step c ⟨params, b, k, isLast⟩).1.account.cooldown := by
  rw [cooldown_step, cooldown_step, isSome_closed_step_congr params c k isLast hlike hend,
    cooldown_settled_congr params c k isLast hlike hend]

/-- What one of two states that decide alike admits, the other admits too if it is solvent. -/
theorem admits_of_admits (hsolvent : 0 < (s'.step c ⟨params, b, k, isLast⟩).1.account.balance)
    {side : Side} (h : s.Admits c ⟨params, a, k, isLast⟩ side) :
    s'.Admits c ⟨params, b, k, isLast⟩ side := by
  have hposition := position_settled_congr params c k isLast hlike hend
  have hcooldown := cooldown_settled_congr params c k isLast hlike hend
  have hfast : s.fast = s'.fast := congrArg (·.fast) hlike
  have hslow : s.slow = s'.slow := congrArg (·.slow) hlike
  have htrend : s.trend = s'.trend := congrArg (·.trend) hlike
  have hcross : s.crossOn c.close = s'.crossOn c.close := congrArg (·.crossOn c.close) hlike
  rw [h.isFlat, Option.map_none, eq_comm, Option.map_eq_none_iff] at hposition
  refine ⟨hposition, hcooldown.symm.trans h.noCooldown, ?_, ?_, ?_, ?_⟩
  · rw [← hend]
    exact h.notClosing
  · rw [← balance_step]
    exact hsolvent
  · rw [← hcross]
    exact h.signalled
  · rw [← hfast, ← hslow, ← htrend]
    exact h.passed

/-- States that decide alike still do after a candle that leaves both solvent. -/
theorem unsized_step (hs : 0 < (s.step c ⟨params, a, k, isLast⟩).1.account.balance)
    (hs' : 0 < (s'.step c ⟨params, b, k, isLast⟩).1.account.balance) :
    (s.step c ⟨params, a, k, isLast⟩).1.unsized = (s'.step c ⟨params, b, k, isLast⟩).1.unsized := by
  have hfast : s.fast = s'.fast := congrArg (·.fast) hlike
  have hslow : s.slow = s'.slow := congrArg (·.slow) hlike
  have htrend : s.trend = s'.trend := congrArg (·.trend) hlike
  refine unsized_eq ?_ ?_ ?_ ?_ ?_ (cooldown_step_congr params c k isLast hlike hend) ?_
  · rw [fast_step, fast_step, hfast]
  · rw [slow_step, slow_step, hslow]
  · rw [trend_step, trend_step, htrend]
  · rw [prevFast_step, prevFast_step, hfast]
  · rw [prevSlow_step, prevSlow_step, hslow]
  · rcases s.entry_cases c ⟨params, a, k, isLast⟩ with ⟨hpos, -, hnone⟩ | ⟨side, hadmits, hpos, -⟩
    · rcases s'.entry_cases c ⟨params, b, k, isLast⟩ with ⟨hpos', -, -⟩ | ⟨side', hadmits', -⟩
      · rw [hpos, hpos']
        exact position_settled_congr params c k isLast hlike hend
      · exact absurd (admits_of_admits params c k isLast hlike.symm hend.symm hs hadmits')
          (hnone side')
    · rcases s'.entry_cases c ⟨params, b, k, isLast⟩ with
        ⟨-, -, hnone⟩ | ⟨side', hadmits', hpos', -⟩
      · exact absurd (admits_of_admits params c k isLast hlike hend hs' hadmits) (hnone side)
      · have hside := admits_of_admits params c k isLast hlike hend hs' hadmits
        cases hside.signalled.symm.trans hadmits'.signalled
        rw [hpos, hpos', Option.map_some, Option.map_some, unsized_enter, unsized_enter]

end Candle

/-- A position is held by a solvent account only. -/
def IsBacked (s : SimulationState) : Prop := s.account.position ≠ none → 0 < s.account.balance

theorem IsBacked.isFlat (h : s.IsBacked) (hruined : ¬ 0 < s.account.balance) :
    s.account.position = none :=
  Classical.byContradiction fun hheld => hruined (h hheld)

theorem isBacked_step (h : s.IsBacked) (ctx : CandleContext) : (s.step c ctx).1.IsBacked := by
  have hopened (hopens : s.OpensOn c ctx) : (s.step c ctx).1.IsBacked := by
    intro hheld
    rcases hopens with ⟨hpos, -, -⟩ | ⟨side, hadmits, -, -⟩
    · exact absurd hpos hheld
    · rw [balance_step]
      exact hadmits.solvent
  rcases s.step_cases c ctx with ⟨p, hp, -, -, hbalance, -⟩ | ⟨-, -, -, -, hopens⟩ |
    ⟨p, reason, -, -, -, -, -, hopens⟩
  · intro _
    rw [hbalance]
    exact h (by rw [hp]; exact Option.some_ne_none p)
  · exact hopened hopens
  · exact hopened hopens

end SimulationState

namespace Simulation

variable {params : CrossoverParams} {a b : AccountSettings}

/-! ## Two runs -/

/-- The decisions of a record in order. -/
def decisions (ts : List (Trade × Float)) : List Decision := ts.map (·.1.decision)

theorem decisions_append (ts us : List (Trade × Float)) :
    decisions (ts ++ us) = decisions ts ++ decisions us := List.map_append

theorem decisions_result (settings : AccountSettings) (first : Candle) (candles : List Candle)
    (last : SimulationState) (ts : List (Trade × Float)) :
    (result settings first candles last ts).decisions = decisions ts := by
  rw [Replay.decisions, trades_result, List.map_map]
  rfl

theorem decisions_booked (r : SimulationState × CandleOutcome) :
    decisions (booked r) = (r.2.closed.map (·.decision)).toList := by
  cases hclosed : r.2.closed with
  | none => rw [booked_of_closed_eq_none hclosed]; rfl
  | some trade => rw [booked_of_closed_eq_some hclosed]; rfl

/-- A ruined account that is flat does nothing any more. -/
theorem replay_of_ruined {settings : AccountSettings} (candles : List Candle) {k : Nat}
    {s : SimulationState} (hflat : s.account.position = none) (hruined : ¬ 0 < s.account.balance) :
    (replay params settings k s candles).2 = [] ∧
      (replay params settings k s candles).1.account.balance = s.account.balance := by
  induction candles generalizing k s with
  | nil => exact ⟨rfl, rfl⟩
  | cons c rest ih =>
    rw [replay_cons]
    rcases s.step_cases c ⟨params, settings, k, rest.isEmpty⟩ with ⟨p, hp, -⟩ |
      ⟨-, hbalance, -, hclosed, hopens⟩ | ⟨p, reason, hp, -⟩
    · rw [hflat] at hp; cases hp
    · have hnext : (s.step c ⟨params, settings, k, rest.isEmpty⟩).1.account.position = none := by
        rcases hopens with ⟨hpos, -, -⟩ | ⟨side, hadmits, -, -⟩
        · exact hpos
        · have hsolvent := hadmits.solvent
          rw [← SimulationState.balance_step, hbalance] at hsolvent
          exact absurd hsolvent hruined
      obtain ⟨hrest, hkept⟩ := ih hnext (by rw [hbalance]; exact hruined)
      rw [booked_of_closed_eq_none hclosed, hrest, hkept, hbalance]
      exact ⟨rfl, rfl⟩
    · rw [hflat] at hp; cases hp

/-- Decisions that are the front of others, and all of them unless the balance they leave is no
longer above zero. -/
structure IsCutShort (balance : Float) (ds es : List Decision) : Prop where
  front : ds <+: es
  ruined : ds.length < es.length → ¬ 0 < balance

theorem isCutShort_nil {balance : Float} (hruined : ¬ 0 < balance) (es : List Decision) :
    IsCutShort balance [] es := ⟨List.nil_prefix, fun _ => hruined⟩

theorem IsCutShort.append_left {balance : Float} {ds es : List Decision}
    (h : IsCutShort balance ds es) (front : List Decision) :
    IsCutShort balance (front ++ ds) (front ++ es) where
  front := (List.prefix_append_right_inj front).2 h.front
  ruined := by
    intro hlength
    rw [List.length_append, List.length_append] at hlength
    exact h.ruined (Nat.lt_of_add_lt_add_left hlength)

/-- Replays from states that decide alike do so until one account is ruined. -/
theorem replay_isCutShort (candles : List Candle) {k : Nat} {s s' : SimulationState}
    (hlike : s.unsized = s'.unsized) (hs : s.IsBacked) (hs' : s'.IsBacked)
    (hend : a.closeAtEnd = b.closeAtEnd) :
    IsCutShort (replay params a k s candles).1.account.balance
        (decisions (replay params a k s candles).2) (decisions (replay params b k s' candles).2) ∨
      IsCutShort (replay params b k s' candles).1.account.balance
        (decisions (replay params b k s' candles).2)
        (decisions (replay params a k s candles).2) := by
  induction candles generalizing k s s' with
  | nil => exact .inl ⟨List.prefix_rfl, fun h => absurd h (Nat.lt_irrefl _)⟩
  | cons c rest ih =>
    have hbooked : decisions (booked (s.step c ⟨params, a, k, rest.isEmpty⟩)) =
        decisions (booked (s'.step c ⟨params, b, k, rest.isEmpty⟩)) := by
      rw [decisions_booked, decisions_booked,
        SimulationState.closed_step_congr params c k rest.isEmpty hlike hend]
    have hnext := SimulationState.isBacked_step (c := c) hs ⟨params, a, k, rest.isEmpty⟩
    have hnext' := SimulationState.isBacked_step (c := c) hs' ⟨params, b, k, rest.isEmpty⟩
    rw [replay_cons, replay_cons, decisions_append, decisions_append, hbooked]
    by_cases hsolvent : 0 < (s.step c ⟨params, a, k, rest.isEmpty⟩).1.account.balance
    · by_cases hsolvent' : 0 < (s'.step c ⟨params, b, k, rest.isEmpty⟩).1.account.balance
      · have hlike' :=
          SimulationState.unsized_step params c k rest.isEmpty hlike hend hsolvent hsolvent'
        exact (ih hlike' hnext hnext').imp (·.append_left _) (·.append_left _)
      · obtain ⟨hrest, hbalance⟩ := replay_of_ruined rest (hnext'.isFlat hsolvent') hsolvent'
        rw [hrest, hbalance]
        exact .inr ((isCutShort_nil hsolvent' _).append_left _)
    · obtain ⟨hrest, hbalance⟩ := replay_of_ruined rest (hnext.isFlat hsolvent) hsolvent
      rw [hrest, hbalance]
      exact .inl ((isCutShort_nil hsolvent _).append_left _)

/-! ## One run -/

/-- Every balance on record but the last is above zero, and so is the last while a position is
held. -/
structure KeepsSolvent (initial : Float) (s : SimulationState) (ts : List (Trade × Float)) :
    Prop where
  last : (balances initial ts).getLast? = some s.account.balance
  before : ∀ x ∈ (balances initial ts).dropLast, 0 < x
  backed : s.IsBacked

theorem keepsSolvent_step {initial : Float} {s : SimulationState} {ts : List (Trade × Float)}
    (h : KeepsSolvent initial s ts) (c : Candle) (ctx : CandleContext) :
    KeepsSolvent initial (s.step c ctx).1 (ts ++ booked (s.step c ctx)) := by
  have hbacked := SimulationState.isBacked_step (c := c) h.backed ctx
  have hkept (hbalance : (s.step c ctx).1.account.balance = s.account.balance)
      (hclosed : (s.step c ctx).2.closed = none) :
      KeepsSolvent initial (s.step c ctx).1 (ts ++ booked (s.step c ctx)) := by
    rw [booked_of_closed_eq_none hclosed, List.append_nil]
    exact ⟨by rw [hbalance]; exact h.last, h.before, hbacked⟩
  rcases s.step_cases c ctx with ⟨p, -, -, -, hbalance, -, hclosed, -⟩ |
    ⟨-, hbalance, -, hclosed, -⟩ | ⟨p, reason, hp, -, -, -, hclosed, -⟩
  · exact hkept hbalance hclosed
  · exact hkept hbalance hclosed
  · -- The trade that ends was backed, so the balance before it was above zero.
    have hsolvent : 0 < s.account.balance := h.backed (by rw [hp]; exact Option.some_ne_none p)
    rw [booked_of_closed_eq_some hclosed]
    refine ⟨getLast?_balances_concat _ _ _, ?_, hbacked⟩
    obtain ⟨front, hfront⟩ := List.getLast?_eq_some_iff.1 h.last
    have hbefore := h.before
    rw [hfront, List.dropLast_concat] at hbefore
    rw [balances_concat, List.dropLast_concat, hfront]
    intro x hx
    rcases List.mem_append.1 hx with hx | hx
    · exact hbefore x hx
    · rw [List.mem_singleton.1 hx]
      exact hsolvent

theorem keepsSolvent_replay (candles : List Candle) (params : CrossoverParams)
    (settings : AccountSettings) :
    KeepsSolvent settings.initialBalance
      (replay params settings 0 (.new params settings) candles).1
      (replay params settings 0 (.new params settings) candles).2 := by
  refine replay_induction params settings candles
    (fun _ s ts => KeepsSolvent settings.initialBalance s ts)
    ⟨rfl, fun x hx => (nomatch hx), fun h => absurd rfl h⟩ ?_
  intro k s ts c _ _ h
  exact keepsSolvent_step h c (contextAt params settings candles k)

/-! ## Reports -/

/-- Every point of the curve but the last is above zero, and a point that is not is followed by no
trade. -/
structure StaysSolvent (r : Replay) : Prop where
  before : ∀ point ∈ r.equity.dropLast, 0 < point.balance
  ends : ∀ (i : Nat) point, r.equity[i]? = some point → ¬ 0 < point.balance →
    r.trades[i]? = none ∧ r.openTrade = none

/-- Without an equity curve there is no balance to fall. -/
theorem staysSolvent_of_equity_eq_nil {r : Replay} (h : r.equity = []) : StaysSolvent r where
  before point hpoint := by
    rw [h] at hpoint
    cases hpoint
  ends i point hi := by
    rw [h] at hi
    cases hi

theorem staysSolvent_result {settings : AccountSettings} {candles : List Candle} (first : Candle)
    {s : SimulationState} {ts : List (Trade × Float)}
    (h : KeepsSolvent settings.initialBalance s ts) :
    StaysSolvent (result settings first candles s ts) := by
  have hbefore : ∀ point ∈ (result settings first candles s ts).equity.dropLast,
      0 < point.balance := by
    intro point hpoint
    refine h.before point.balance ?_
    rw [← map_balance_equity_result first s, ← List.map_dropLast]
    exact List.mem_map_of_mem hpoint
  refine ⟨hbefore, ?_⟩
  intro i point hi hruined
  have hlength : (result settings first candles s ts).equity.length = ts.length + 1 := by
    simp only [result, List.length_cons, List.length_map]
  -- Only the last point may be at zero or below.
  obtain rfl : i = ts.length := by
    have hlt := (List.getElem?_eq_some_iff.1 hi).1
    refine Classical.byContradiction fun hne =>
      hruined (hbefore point (List.mem_of_getElem? (i := i) ?_))
    rw [List.getElem?_dropLast, if_pos (by omega)]
    exact hi
  have hbalance : point.balance = s.account.balance := by
    have hlast := h.last
    rw [← map_balance_equity_result first s, List.getLast?_map, List.getLast?_eq_getElem?, hlength,
      Nat.add_sub_cancel, hi] at hlast
    exact Option.some.inj hlast
  rw [hbalance] at hruined
  refine ⟨?_, Option.map_eq_none_iff.2 (h.backed.isFlat hruined)⟩
  exact List.getElem?_eq_none_iff.2 (Nat.le_of_eq (List.length_map _))

/-- Two accounts on the same candles take the same decisions until one of them is ruined: the
decisions of one are the first of the other's, and fewer only where its balance ends not above
zero. Neither makes a trade after that. Prices that are none are refused for both alike. -/
theorem run_decisions (candles : List Candle) (hparams : params.fault? = none)
    (ha : a.fault? = none) (hb : b.fault? = none) (hend : a.closeAtEnd = b.closeAtEnd) :
    (∃ i c, candles[i]? = some c ∧ c.isPriced = false ∧
      run candles params a = .error (.invalidPrice i c.openTime) ∧
      run candles params b = .error (.invalidPrice i c.openTime)) ∨
    ∃ r r', run candles params a = .ok r ∧ run candles params b = .ok r' ∧
      (IsCutShort r.finalBalance r.decisions r'.decisions ∨
        IsCutShort r'.finalBalance r'.decisions r.decisions) ∧
      StaysSolvent r ∧ StaysSolvent r' := by
  cases hinvalid : firstInvalid 0 candles with
  | some e =>
    obtain ⟨i, c, hi, hc, rfl⟩ := firstInvalid_eq_some hinvalid
    rw [Nat.zero_add] at hinvalid
    refine .inl ⟨i, c, hi, hc, ?_, ?_⟩
    · rw [run, hparams, ha, hinvalid]
    · rw [run, hparams, hb, hinvalid]
  | none =>
    have hpriced := firstInvalid_eq_none_iff.1 hinvalid
    refine .inr ⟨_, _, run_eq_ok_iff.2 ⟨hparams, ha, hpriced, rfl⟩,
      run_eq_ok_iff.2 ⟨hparams, hb, hpriced, rfl⟩, ?_⟩
    cases hfirst : candles.head? with
    | none =>
      obtain rfl := List.head?_eq_none_iff.1 hfirst
      exact ⟨.inl ⟨List.prefix_rfl, fun h => absurd h (Nat.lt_irrefl _)⟩,
        staysSolvent_of_equity_eq_nil rfl, staysSolvent_of_equity_eq_nil rfl⟩
    | some first =>
      rw [runValid_eq_result hfirst, runValid_eq_result hfirst]
      refine ⟨?_, staysSolvent_result first (keepsSolvent_replay candles params a),
        staysSolvent_result first (keepsSolvent_replay candles params b)⟩
      have hnew : (SimulationState.new params a).unsized = (SimulationState.new params b).unsized :=
        rfl
      rw [decisions_result, decisions_result]
      exact replay_isCutShort candles hnew (fun h => absurd rfl h) (fun h => absurd rfl h) hend

/-- Two accounts of which the one with ten times the leverage is ruined by its first trade. -/
theorem run_decisions_ruined :
    ∃ r r', run (hourly 0 [10, 10, 12, 9, 8, 11, 12]) reversing { closeAtEnd := false } = .ok r ∧
      run (hourly 0 [10, 10, 12, 9, 8, 11, 12]) reversing { leverage := 10, closeAtEnd := false } =
        .ok r' ∧
      r.decisions = [⟨.long, 2, 3, .signalReversal⟩, ⟨.short, 3, 5, .signalReversal⟩] ∧
      r'.decisions = [⟨.long, 2, 3, .signalReversal⟩] ∧
      IsCutShort r'.finalBalance r'.decisions r.decisions ∧ StaysSolvent r ∧ StaysSolvent r' := by
  have hparams : reversing.fault? = none := by decide +kernel
  have hpriced : ∀ c ∈ hourly 0 [10, 10, 12, 9, 8, 11, 12], c.isPriced = true := by decide +kernel
  rcases run_decisions (hourly 0 [10, 10, 12, 9, 8, 11, 12]) hparams
    (a := { closeAtEnd := false }) (b := { leverage := 10, closeAtEnd := false })
    (by decide +kernel) (by decide +kernel) rfl with
    ⟨i, c, hi, hc, -⟩ | ⟨r, r', hr, hr', hcut, hsolvent⟩
  · exact absurd (hpriced c (List.mem_of_getElem? hi)) (by rw [hc]; decide)
  · have hfew : ¬ r.decisions.length ≤ r'.decisions.length := by
      obtain ⟨-, -, -, rfl⟩ := run_eq_ok_iff.1 hr
      obtain ⟨-, -, -, rfl⟩ := run_eq_ok_iff.1 hr'
      decide +kernel
    refine ⟨r, r', hr, hr', ?_, ?_, hcut.resolve_left fun h => hfew h.front.length_le, hsolvent⟩
    · obtain ⟨-, -, -, rfl⟩ := run_eq_ok_iff.1 hr
      decide +kernel
    · obtain ⟨-, -, -, rfl⟩ := run_eq_ok_iff.1 hr'
      decide +kernel

end Simulation
end Backtest
