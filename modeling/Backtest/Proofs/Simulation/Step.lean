import Backtest.Simulation.Step

/-!
# What one candle can do

A step first settles the account, which leaves, holds or closes its position, and then may open one.
`settle_cases` and `tryEnter_cases` say both with every guard that lets them happen, and
`step_cases` puts them together: nothing else in the library looks into a step.

## Main definitions

* `Position.meets` — the exits that hold on a candle, of which the first in order closes.
* `Account.Admits` — everything that has to hold for a position to be opened.
* `SimulationState.OpensOn` — how a candle ends for an account without a position.
* `SimulationState.step_cases` — the position is held, or was none, or is closed.
-/
namespace Backtest

namespace ExitReason

/-- The exits that the closes decide, first the one that wins over the others. -/
def decided : List ExitReason := [stopLoss, takeProfit, trailingStop, signalReversal]

/-- All exits, first the one that wins over the others. -/
def precedence : List ExitReason := [stopLoss, takeProfit, trailingStop, signalReversal, endOfData]

theorem precedence_eq : precedence = decided ++ [endOfData] := rfl

theorem mem_precedence (reason : ExitReason) : reason ∈ precedence := by
  cases reason <;> decide

end ExitReason

namespace Position

/-- Whether an exit holds on a candle. -/
def meets (pos : Position) (close : Float) (cross : Option Cross) (ctx : CandleContext) :
    ExitReason → Bool
  | .stopLoss => pos.hitsStop close ctx.params.stopLossPct
  | .takeProfit => pos.hitsTarget close ctx.params.takeProfitPct
  | .trailingStop => pos.hitsTrailingStop close ctx.params
  | .signalReversal => pos.isReversedBy cross
  | .endOfData => ctx.isLast && ctx.settings.closeAtEnd

/-- A position is closed by the first exit that holds. -/
theorem exitFor?_eq_find? (pos : Position) (close : Float) (cross : Option Cross)
    (ctx : CandleContext) :
    pos.exitFor? close cross ctx = ExitReason.precedence.find? (pos.meets close cross ctx) := by
  rw [exitFor?, ExitReason.precedence]
  simp only [List.find?_cons, List.find?_nil, meets]
  cases pos.hitsStop close ctx.params.stopLossPct
  · cases pos.hitsTarget close ctx.params.takeProfitPct
    · cases pos.hitsTrailingStop close ctx.params
      · cases pos.isReversedBy cross
        · cases ctx.isLast && ctx.settings.closeAtEnd <;> rfl
        · rfl
      · rfl
    · rfl
  · rfl

end Position

namespace Account

/-- A golden cross asks for a long position, and a death cross for a short one where shorts are
enabled. -/
theorem signal_eq_some_iff (cross : Option Cross) (enableShort : Bool) (side : Side) :
    signal cross enableShort = some side ↔
      (cross = some .golden ∧ side = .long) ∨
      (cross = some .death ∧ enableShort = true ∧ side = .short) := by
  rcases cross with _ | _ | _
  · simp [signal]
  · simp [signal, eq_comm]
  · cases enableShort <;> simp [signal, eq_comm]

variable (a : Account) (candle : Candle) (cross : Option Cross) (ctx : CandleContext)

/-- A position is left alone, held on, or closed by the first exit that holds. -/
theorem settle_cases :
    (a.position = none ∧ a.settle candle cross ctx = (a, none)) ∨
    (∃ p, a.position = some p ∧
      (p.track candle.close ctx.params).exitFor? candle.close cross ctx = none ∧
      a.settle candle cross ctx =
        ({ a with position := some (p.track candle.close ctx.params) }, none)) ∨
    (∃ p reason, a.position = some p ∧
      (p.track candle.close ctx.params).exitFor? candle.close cross ctx = some reason ∧
      a.settle candle cross ctx =
        ({ a with
            position := none
            balance := a.balance + ((p.track candle.close ctx.params).close candle ctx.index reason
              ctx.settings).pnlUsd
            cooldown := ctx.params.cooldownCandles },
          some ((p.track candle.close ctx.params).close candle ctx.index reason
            ctx.settings))) := by
  rw [settle]
  cases hpos : a.position with
  | none => exact .inl ⟨rfl, rfl⟩
  | some p =>
    simp only
    cases hexit : (p.track candle.close ctx.params).exitFor? candle.close cross ctx with
    | none => exact .inr (.inl ⟨p, rfl, hexit, rfl⟩)
    | some reason => exact .inr (.inr ⟨p, reason, rfl, hexit, rfl⟩)

/-- What has to hold for a position to be opened on a side. -/
structure Admits (fast slow : Option Float) (trend : Option Trend) (side : Side) : Prop where
  isFlat : a.position = none
  noCooldown : a.cooldown = 0
  notClosing : ¬ (ctx.isLast = true ∧ ctx.settings.closeAtEnd = true)
  solvent : 0 < a.balance
  signalled : signal cross ctx.params.enableShort = some side
  passed : ∃ f s, fast = some f ∧ slow = some s ∧
    EntryFilter.verdict side f s candle.close ctx.params.minSeparationPct trend = .passed

theorem mayEnter_iff :
    a.mayEnter ctx = true ↔ a.position = none ∧ a.cooldown = 0 ∧
      ¬ (ctx.isLast = true ∧ ctx.settings.closeAtEnd = true) ∧ 0 < a.balance := by
  simp only [mayEnter, hasNoPosition, Bool.and_eq_true, Option.isNone_iff_eq_none, beq_iff_eq,
    Bool.or_eq_true, Bool.not_eq_true', decide_eq_true_eq, and_assoc]
  cases ctx.isLast <;> cases ctx.settings.closeAtEnd <;> simp

/-- A position is opened on the side that is admitted, and otherwise nothing changes. -/
theorem tryEnter_cases (fast slow : Option Float) (trend : Option Trend) :
    ((a.tryEnter candle cross fast slow trend ctx).1 = a ∧
      (a.tryEnter candle cross fast slow trend ctx).2.1 = none ∧
      ∀ side, ¬ a.Admits candle cross ctx fast slow trend side) ∨
    (∃ side, a.Admits candle cross ctx fast slow trend side ∧
      (a.tryEnter candle cross fast slow trend ctx).1 =
        { a with position := some (.enter side candle ctx.index a.balance ctx.settings) } ∧
      (a.tryEnter candle cross fast slow trend ctx).2.1 = some side) := by
  simp only [tryEnter]
  by_cases hmay : a.mayEnter ctx = true
  · obtain ⟨hflat, hcooldown, hclosing, hsolvent⟩ := (mayEnter_iff a ctx).1 hmay
    rw [if_pos hmay]
    split
    · rename_i side f s hsignal
      have blocked (h : EntryFilter.verdict side f s candle.close ctx.params.minSeparationPct
          trend ≠ .passed) (other : Side) :
          ¬ a.Admits candle cross ctx (some f) (some s) trend other := by
        intro hadmits
        have hside := hadmits.signalled.symm.trans hsignal
        obtain ⟨f', s', hf, hs, hpassed⟩ := hadmits.passed
        cases hside; cases hf; cases hs
        exact h hpassed
      cases hverdict :
          EntryFilter.verdict side f s candle.close ctx.params.minSeparationPct trend with
      | passed =>
        exact .inr ⟨side, ⟨hflat, hcooldown, hclosing, hsolvent, hsignal, f, s, rfl, rfl, hverdict⟩,
          rfl, rfl⟩
      | tooClose => exact .inl ⟨rfl, rfl, blocked (by rw [hverdict]; decide)⟩
      | againstTrend => exact .inl ⟨rfl, rfl, blocked (by rw [hverdict]; decide)⟩
    · rename_i hnone
      refine .inl ⟨rfl, rfl, fun other h => ?_⟩
      obtain ⟨f, s, hf, hs, -⟩ := h.passed
      exact hnone other f s h.signalled hf hs
  · rw [if_neg hmay]
    refine .inl ⟨rfl, rfl, fun other h => hmay ?_⟩
    exact (mayEnter_iff a ctx).2 ⟨h.isFlat, h.noCooldown, h.notClosing, h.solvent⟩

/-- Entering spends nothing. -/
@[simp] theorem balance_tryEnter (fast slow : Option Float) (trend : Option Trend) :
    (a.tryEnter candle cross fast slow trend ctx).1.balance = a.balance := by
  rcases tryEnter_cases a candle cross ctx fast slow trend with ⟨h, -, -⟩ | ⟨side, -, h, -⟩
  · rw [h]
  · rw [h]

@[simp] theorem cooldown_tryEnter (fast slow : Option Float) (trend : Option Trend) :
    (a.tryEnter candle cross fast slow trend ctx).1.cooldown = a.cooldown := by
  rcases tryEnter_cases a candle cross ctx fast slow trend with ⟨h, -, -⟩ | ⟨side, -, h, -⟩
  · rw [h]
  · rw [h]

@[simp] theorem position_endCandle (exited : Bool) (fast slow : Option Float) :
    (a.endCandle exited fast slow).position = a.position := rfl
@[simp] theorem balance_endCandle (exited : Bool) (fast slow : Option Float) :
    (a.endCandle exited fast slow).balance = a.balance := rfl
@[simp] theorem cooldown_endCandle (exited : Bool) (fast slow : Option Float) :
    (a.endCandle exited fast slow).cooldown =
      if exited then a.cooldown else a.cooldown - 1 := rfl

end Account

namespace SimulationState

variable (s : SimulationState) (candle : Candle) (ctx : CandleContext)

/-- The crossing that a candle with this close completes. -/
def crossOn (close : Float) : Option Cross :=
  Cross.between s.account.prevFast s.account.prevSlow (s.fast.update close).value?
    (s.slow.update close).value?

/-- The account after the exits of a candle. -/
def settled : Account := (s.account.settle candle (s.crossOn candle.close) ctx).1

/-- Whether the account admits a position after the exits of a candle. -/
def Admits (side : Side) : Prop :=
  (s.settled candle ctx).Admits candle (s.crossOn candle.close) ctx
    (s.fast.update candle.close).value? (s.slow.update candle.close).value?
    (s.trend.map (·.update candle.close)) side

/-- How a candle ends for an account that has no position after its exits: with none if no side is
admitted, or with the position that the balance opens on the side that is. -/
def OpensOn : Prop :=
  ((s.step candle ctx).1.account.position = none ∧ (s.step candle ctx).2.opened = none ∧
    ∀ side, ¬ s.Admits candle ctx side) ∨
  (∃ side, s.Admits candle ctx side ∧
    (s.step candle ctx).1.account.position =
      some (.enter side candle ctx.index (s.step candle ctx).1.account.balance ctx.settings) ∧
    (s.step candle ctx).2.opened = some side)

@[simp] theorem fast_step : (s.step candle ctx).1.fast = s.fast.update candle.close := rfl
@[simp] theorem slow_step : (s.step candle ctx).1.slow = s.slow.update candle.close := rfl
@[simp] theorem trend_step :
    (s.step candle ctx).1.trend = s.trend.map (·.update candle.close) := rfl
@[simp] theorem prevFast_step :
    (s.step candle ctx).1.account.prevFast = (s.fast.update candle.close).value? := rfl
@[simp] theorem prevSlow_step :
    (s.step candle ctx).1.account.prevSlow = (s.slow.update candle.close).value? := rfl

theorem closed_step : (s.step candle ctx).2.closed =
    (s.account.settle candle (s.crossOn candle.close) ctx).2 := rfl

theorem account_step : (s.step candle ctx).1.account =
    ((s.settled candle ctx).tryEnter candle (s.crossOn candle.close)
      (s.fast.update candle.close).value? (s.slow.update candle.close).value?
      (s.trend.map (·.update candle.close)) ctx).1.endCandle (s.step candle ctx).2.closed.isSome
      (s.fast.update candle.close).value? (s.slow.update candle.close).value? := rfl

theorem opened_step : (s.step candle ctx).2.opened =
    ((s.settled candle ctx).tryEnter candle (s.crossOn candle.close)
      (s.fast.update candle.close).value? (s.slow.update candle.close).value?
      (s.trend.map (·.update candle.close)) ctx).2.1 := rfl

theorem balance_step : (s.step candle ctx).1.account.balance = (s.settled candle ctx).balance := by
  rw [account_step, Account.balance_endCandle, Account.balance_tryEnter]

theorem cooldown_step : (s.step candle ctx).1.account.cooldown =
    if (s.step candle ctx).2.closed.isSome then (s.settled candle ctx).cooldown
    else (s.settled candle ctx).cooldown - 1 := by
  rw [account_step, Account.cooldown_endCandle, Account.cooldown_tryEnter]

/-- An exit starts the cooldown, and without one it is what the candle before left of it. -/
theorem cooldown_settled : (s.settled candle ctx).cooldown =
    if (s.step candle ctx).2.closed.isSome then ctx.params.cooldownCandles
    else s.account.cooldown := by
  rw [settled, closed_step]
  rcases Account.settle_cases s.account candle (s.crossOn candle.close) ctx with
    ⟨-, hsettle⟩ | ⟨p, -, -, hsettle⟩ | ⟨p, reason, -, -, hsettle⟩
  · rw [hsettle]; rfl
  · rw [hsettle]; rfl
  · rw [hsettle]; rfl

/-- After the exits a position is opened on the side that is admitted, and otherwise the position
stays what it is. -/
theorem entry_cases :
    ((s.step candle ctx).1.account.position = (s.settled candle ctx).position ∧
      (s.step candle ctx).2.opened = none ∧ ∀ side, ¬ s.Admits candle ctx side) ∨
    (∃ side, s.Admits candle ctx side ∧
      (s.step candle ctx).1.account.position =
        some (.enter side candle ctx.index (s.settled candle ctx).balance ctx.settings) ∧
      (s.step candle ctx).2.opened = some side) := by
  rw [account_step, Account.position_endCandle, opened_step]
  rcases Account.tryEnter_cases (s.settled candle ctx) candle (s.crossOn candle.close) ctx
    (s.fast.update candle.close).value? (s.slow.update candle.close).value?
    (s.trend.map (·.update candle.close)) with ⟨h, hopened, hnone⟩ | ⟨side, hadmits, h, hopened⟩
  · rw [h]
    exact .inl ⟨rfl, hopened, hnone⟩
  · rw [h]
    exact .inr ⟨side, hadmits, rfl, hopened⟩

theorem opensOn_of_flat (h : (s.settled candle ctx).position = none) : s.OpensOn candle ctx := by
  rw [OpensOn]
  rw [balance_step]
  rcases entry_cases s candle ctx with ⟨hpos, hrest⟩ | hopens
  · exact .inl ⟨hpos.trans h, hrest⟩
  · exact .inr hopens

/-- After its exits an account is flat, or it holds on to its position until the candle ends. -/
theorem settled_cases : (s.settled candle ctx).position = none ∨
    ∃ p, s.account.position = some p ∧
      (s.step candle ctx).1.account.position = some (p.track candle.close ctx.params) := by
  rcases Account.settle_cases s.account candle (s.crossOn candle.close) ctx with
    ⟨hflat, hsettle⟩ | ⟨p, hp, -, hsettle⟩ | ⟨p, reason, -, -, hsettle⟩
  · exact .inl (by rw [settled, hsettle]; exact hflat)
  · have hsettled : (s.settled candle ctx).position =
        some (p.track candle.close ctx.params) := by rw [settled, hsettle]
    rcases entry_cases s candle ctx with ⟨hpos, -, -⟩ | ⟨side, hadmits, -⟩
    · exact .inr ⟨p, hp, hpos.trans hsettled⟩
    · exact .inl hadmits.isFlat
  · exact .inl (by rw [settled, hsettle])

/-- The exit that a candle forces on a position, judged after its close has moved the water mark. -/
def exitOn (p : Position) : Option ExitReason :=
  (p.track candle.close ctx.params).exitFor? candle.close (s.crossOn candle.close) ctx

/-- The trade that closes a position on a candle. -/
def tradeOn (p : Position) (reason : ExitReason) : Trade :=
  (p.track candle.close ctx.params).close candle ctx.index reason ctx.settings

theorem position_settled : (s.settled candle ctx).position = s.account.position.bind fun p =>
    if (s.exitOn candle ctx p).isSome then none else some (p.track candle.close ctx.params) := by
  rw [settled]
  rcases Account.settle_cases s.account candle (s.crossOn candle.close) ctx with
    ⟨hflat, hsettle⟩ | ⟨p, hp, hexit, hsettle⟩ | ⟨p, reason, hp, hexit, hsettle⟩
  · rw [hsettle, hflat]; rfl
  · rw [hsettle, hp, Option.bind_some, exitOn, hexit]; rfl
  · rw [hsettle, hp, Option.bind_some, exitOn, hexit]; rfl

theorem closed_step_eq_bind : (s.step candle ctx).2.closed = s.account.position.bind fun p =>
    (s.exitOn candle ctx p).map (tradeOn candle ctx p) := by
  rw [closed_step]
  rcases Account.settle_cases s.account candle (s.crossOn candle.close) ctx with
    ⟨hflat, hsettle⟩ | ⟨p, hp, hexit, hsettle⟩ | ⟨p, reason, hp, hexit, hsettle⟩
  · rw [hsettle, hflat]; rfl
  · rw [hsettle, hp, Option.bind_some, exitOn, hexit]; rfl
  · rw [hsettle, hp, Option.bind_some, exitOn, hexit]; rfl

/-- Everything a candle can do. A position is held, or there was none, or it is closed; in the last
two cases one may be opened. -/
theorem step_cases :
    (∃ p, s.account.position = some p ∧ s.exitOn candle ctx p = none ∧
      (s.step candle ctx).1.account.position = some (p.track candle.close ctx.params) ∧
      (s.step candle ctx).1.account.balance = s.account.balance ∧
      (s.step candle ctx).1.account.cooldown = s.account.cooldown - 1 ∧
      (s.step candle ctx).2.closed = none ∧ (s.step candle ctx).2.opened = none) ∨
    (s.account.position = none ∧
      (s.step candle ctx).1.account.balance = s.account.balance ∧
      (s.step candle ctx).1.account.cooldown = s.account.cooldown - 1 ∧
      (s.step candle ctx).2.closed = none ∧ s.OpensOn candle ctx) ∨
    (∃ p reason, s.account.position = some p ∧ s.exitOn candle ctx p = some reason ∧
      (s.step candle ctx).1.account.balance =
        s.account.balance + (tradeOn candle ctx p reason).pnlUsd ∧
      (s.step candle ctx).1.account.cooldown = ctx.params.cooldownCandles ∧
      (s.step candle ctx).2.closed = some (tradeOn candle ctx p reason) ∧
      s.OpensOn candle ctx) := by
  rcases Account.settle_cases s.account candle (s.crossOn candle.close) ctx with
    ⟨hflat, hsettle⟩ | ⟨p, hp, hexit, hsettle⟩ | ⟨p, reason, hp, hexit, hsettle⟩
  · have hsettled : s.settled candle ctx = s.account := by rw [settled, hsettle]
    have hclosed : (s.step candle ctx).2.closed = none := by rw [closed_step, hsettle]
    refine .inr (.inl ⟨hflat, ?_, ?_, hclosed, ?_⟩)
    · rw [balance_step, hsettled]
    · rw [cooldown_step, hclosed, hsettled]; rfl
    · exact opensOn_of_flat s candle ctx (by rw [hsettled]; exact hflat)
  · have hsettled : s.settled candle ctx =
        { s.account with position := some (p.track candle.close ctx.params) } := by
      rw [settled, hsettle]
    have hclosed : (s.step candle ctx).2.closed = none := by rw [closed_step, hsettle]
    rcases entry_cases s candle ctx with ⟨hpos, hopened, -⟩ | ⟨side, hadmits, -⟩
    · refine .inl ⟨p, hp, hexit, ?_, ?_, ?_, hclosed, hopened⟩
      · rw [hpos, hsettled]
      · rw [balance_step, hsettled]
      · rw [cooldown_step, hclosed, hsettled]; rfl
    · have hflat := hadmits.isFlat
      rw [hsettled] at hflat
      cases hflat
  · have hsettled := congrArg Prod.fst hsettle
    have hclosed : (s.step candle ctx).2.closed = some (tradeOn candle ctx p reason) := by
      rw [closed_step, hsettle]; rfl
    change s.settled candle ctx = _ at hsettled
    refine .inr (.inr ⟨p, reason, hp, hexit, ?_, ?_, hclosed, ?_⟩)
    · rw [balance_step, hsettled]; rfl
    · rw [cooldown_step, hclosed, hsettled]; rfl
    · exact opensOn_of_flat s candle ctx (by rw [hsettled])

end SimulationState
end Backtest
