import Backtest.Proofs.Simulation.Replay

/-!
# Entries

What opening a position fixes stays as it is while the position is held, when it is closed and when
it is reported open. A replay from a state with a position therefore starts its entries with that
position, and every other entry is made on one of its own candles.

## Main definitions

* `Entry` — side, index, time, price and quantity of a position.
* `entries` — the entries of a replay in order, the open one last.
* `entries_replay` — the entries of a replay from any state.
-/
namespace Backtest

/-- What opening a position fixes. -/
structure Entry where
  side : Side
  index : Nat
  time : Instant
  price : Float
  quantity : Float
deriving DecidableEq

def Position.entry (p : Position) : Entry :=
  ⟨p.side, p.entryIndex, p.entryTime, p.entryPrice, p.quantity⟩

def Trade.entry (t : Trade) : Entry :=
  ⟨t.side, t.entryIndex, t.entryTime, t.entryPrice, t.quantity⟩

def OpenTrade.entry (t : OpenTrade) : Entry :=
  ⟨t.side, t.entryIndex, t.entryTime, t.entryPrice, t.quantity⟩

namespace Position

@[simp] theorem entry_track (p : Position) (close : Float) (params : CrossoverParams) :
    (p.track close params).entry = p.entry := rfl
@[simp] theorem entry_report (p : Position) (mark : Float) : (p.report mark).entry = p.entry := rfl
@[simp] theorem entry_enter (side : Side) (candle : Candle) (index : Nat) (balance : Float)
    (settings : AccountSettings) :
    (enter side candle index balance settings).entry =
      ⟨side, index, candle.openTime, candle.close,
        balance * settings.positionFraction * settings.leverage / candle.close⟩ := rfl

end Position

@[simp] theorem SimulationState.entry_tradeOn (candle : Candle) (ctx : CandleContext) (p : Position)
    (reason : ExitReason) : (tradeOn candle ctx p reason).entry = p.entry := rfl

namespace Simulation

variable {params : CrossoverParams} {settings : AccountSettings}

/-- The entry of the position that a state holds. -/
def heldEntry (s : SimulationState) : List Entry := (s.account.position.map (·.entry)).toList

/-- The entries of a replay: those of its trades, then the one that is still open. -/
def entries (r : SimulationState × List (Trade × Float)) : List Entry :=
  r.2.map (·.1.entry) ++ heldEntry r.1

/-- A candle keeps the entry it finds, in the position or in the trade it closes, and adds at most
one of its own. -/
theorem entries_step (s : SimulationState) (c : Candle) (ctx : CandleContext) :
    ∃ added, entries ((s.step c ctx).1, booked (s.step c ctx)) = heldEntry s ++ added ∧
      ∀ e ∈ added, e.index = ctx.index := by
  have opened (h : s.OpensOn c ctx) : ∀ e ∈ heldEntry (s.step c ctx).1, e.index = ctx.index := by
    intro e he
    rcases h with ⟨hpos, -, -⟩ | ⟨side, -, hpos, -⟩
    · rw [heldEntry, hpos] at he
      cases he
    · rw [heldEntry, hpos] at he
      simp only [Option.map_some, Option.toList_some, List.mem_singleton] at he
      rw [he, Position.entry_enter]
  rcases s.step_cases c ctx with ⟨p, hp, -, hpos, -, -, hclosed, -⟩ |
    ⟨hflat, -, -, hclosed, hopens⟩ | ⟨p, reason, hp, -, -, -, hclosed, hopens⟩
  · refine ⟨[], ?_, by simp⟩
    rw [entries, booked_of_closed_eq_none hclosed, heldEntry, heldEntry, hpos, hp]
    rfl
  · refine ⟨heldEntry (s.step c ctx).1, ?_, opened hopens⟩
    rw [entries, booked_of_closed_eq_none hclosed, heldEntry, heldEntry, hflat]
    rfl
  · refine ⟨heldEntry (s.step c ctx).1, ?_, opened hopens⟩
    rw [entries, booked_of_closed_eq_some hclosed, List.map_singleton,
      SimulationState.entry_tradeOn, heldEntry, heldEntry, hp]
    rfl

/-- The entries of a replay start with the position it finds and go on with its own. -/
theorem entries_replay (k : Nat) (s : SimulationState) (candles : List Candle) :
    ∃ added, entries (replay params settings k s candles) = heldEntry s ++ added ∧
      ∀ e ∈ added, k ≤ e.index := by
  induction candles generalizing k s with
  | nil => exact ⟨[], by simp [entries], by simp⟩
  | cons c rest ih =>
    obtain ⟨now, hnow, hindex⟩ := entries_step s c ⟨params, settings, k, rest.isEmpty⟩
    obtain ⟨later, hlater, hlaterIndex⟩ :=
      ih (k + 1) (s.step c ⟨params, settings, k, rest.isEmpty⟩).1
    refine ⟨now ++ later, ?_, ?_⟩
    · rw [entries] at hnow hlater
      rw [replay_cons, entries, List.map_append, List.append_assoc, hlater, ← List.append_assoc,
        hnow, List.append_assoc]
    · intro e he
      rcases List.mem_append.1 he with he | he
      · exact Nat.le_of_eq (hindex e he).symm
      · exact Nat.le_of_succ_le (hlaterIndex e he)

end Simulation
end Backtest
