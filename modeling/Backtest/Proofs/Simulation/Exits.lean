import Backtest.Proofs.Number.Order
import Backtest.Proofs.Simulation.Replay

/-!
# Exits by the closes alone

A position carries a water mark and an armed flag from candle to candle. Both say something about
the closes since the entry: the water mark is the best of them, and the flag says that one of them
gained enough. The exits of a candle can therefore be stated by the closes alone, with no state in
between (`Holds`), and a run closes every position on the first candle on which one of them holds,
for the first in order that does.

## Main definitions

* `Side.NoBetter` — the order of prices as a side sees them.
* `IsBest` — the best close of a stretch.
* `Holds` — whether an exit holds on a candle, by the closes alone.
* `Tracks` — what a position knows about the closes since its entry.
* `run_exits` — trades are closed on the first candle on which an exit holds, and no exit holds
  while a position stays open.
-/
namespace Backtest

/-! ## Prices as a side sees them -/

namespace Side

/-- For a side, the first price is no better than the second. -/
def NoBetter : Side → Float → Float → Prop
  | long, x, y => x ≤ y
  | short, x, y => y ≤ x

/-- The price that is better for a side. -/
def better : Side → Float → Float → Float
  | long => Binary64.max
  | short => Binary64.min

/-- The crossing that goes against a side. -/
def reversal : Side → Cross
  | long => .death
  | short => .golden

variable (side : Side) {x y z : Float}

theorem noBetter_refl (hx : 0 < x) : side.NoBetter x x := by
  cases side <;> exact Binary64.le_refl (Binary64.isNaN_of_lt hx).2

theorem noBetter_trans (hxy : side.NoBetter x y) (hyz : side.NoBetter y z) : side.NoBetter x z := by
  cases side with
  | long => exact Binary64.le_trans hxy hyz
  | short => exact Binary64.le_trans hyz hxy

theorem eq_of_noBetter (hx : 0 < x) (hy : 0 < y) (hxy : side.NoBetter x y)
    (hyx : side.NoBetter y x) : x = y := by
  cases side with
  | long => exact Binary64.eq_of_le_of_le hx hy hxy hyx
  | short => exact Binary64.eq_of_le_of_le hx hy hyx hxy

/-- The better of two prices is one of them, and the other is no better. -/
theorem better_cases (hx : 0 < x) (hy : 0 < y) :
    (side.NoBetter x y ∧ side.better x y = y) ∨ (side.NoBetter y x ∧ side.better x y = x) := by
  have hx' := (Binary64.isNaN_of_lt hx).2
  have hy' := (Binary64.isNaN_of_lt hy).2
  cases side with
  | long => exact Binary64.max_cases hx' hy'
  | short => exact Binary64.min_cases hx' hy'

end Side

/-! ## The exits of a position -/

namespace Position

variable (p : Position) (close : Float) (params : CrossoverParams)

@[simp] theorem waterMark_track :
    (p.track close params).waterMark = p.side.better p.waterMark close := by
  cases hside : p.side <;> simp only [track, hside, Side.better]

theorem trailingArmed_track : (p.track close params).trailingArmed = true ↔
    p.trailingArmed = true ∨ params.trailingStopEnabled = true ∧
      params.trailingActivationPct ≤ p.side.sign * (close - p.entryPrice) / p.entryPrice := by
  simp only [track, Bool.or_eq_true, Bool.and_eq_true, decide_eq_true_eq]

theorem hitsStop_iff (pct : Float) : p.hitsStop close pct = true ↔
    0 < pct ∧ p.side.NoBetter close (stopPrice p.side p.entryPrice pct) := by
  rw [hitsStop, stopLevel?]
  by_cases hpct : 0 < pct
  · cases hside : p.side <;> simp [hpct, Side.NoBetter]
  · simp [hpct]

theorem hitsTarget_iff (pct : Float) : p.hitsTarget close pct = true ↔
    0 < pct ∧ p.side.NoBetter (targetPrice p.side p.entryPrice pct) close := by
  rw [hitsTarget, targetLevel?]
  by_cases hpct : 0 < pct
  · cases hside : p.side <;> simp [hpct, Side.NoBetter]
  · simp [hpct]

theorem hitsTrailingStop_iff : p.hitsTrailingStop close params = true ↔
    params.trailingStopEnabled = true ∧ p.trailingArmed = true ∧
      p.side.NoBetter close (stopPrice p.side p.waterMark params.trailingDistancePct) := by
  rw [hitsTrailingStop]
  cases hside : p.side <;> simp [Side.NoBetter, stopPrice, and_assoc]

theorem isReversedBy_iff (cross : Option Cross) :
    p.isReversedBy cross = true ↔ cross = some p.side.reversal := by
  simp only [isReversedBy, Side.reversal]
  cases p.side <;> rcases cross with _ | _ | _ <;> decide

end Position

namespace Simulation

variable {params : CrossoverParams} {settings : AccountSettings} {closes : List Float}

/-- The close of the candle at an index. -/
def closeAt (closes : List Float) (k : Nat) : Float := closes.getD k 0

/-- A price is the best close from one candle to another. -/
def IsBest (closes : List Float) (side : Side) (first last : Nat) (price : Float) : Prop :=
  (∃ i, first ≤ i ∧ i ≤ last ∧ closeAt closes i = price) ∧
    ∀ i, first ≤ i → i ≤ last → side.NoBetter (closeAt closes i) price

/-- A close since the entry has gained what arms the trailing stop. -/
def HasGained (params : CrossoverParams) (closes : List Float) (side : Side) (entry last : Nat) :
    Prop :=
  ∃ j, entry < j ∧ j ≤ last ∧ params.trailingActivationPct ≤
    side.sign * (closeAt closes j - closeAt closes entry) / closeAt closes entry

/-- Whether an exit holds on a candle for a position with this side and entry. -/
def Holds (params : CrossoverParams) (settings : AccountSettings) (closes : List Float)
    (side : Side) (entry k : Nat) : ExitReason → Prop
  | .stopLoss => 0 < params.stopLossPct ∧
    side.NoBetter (closeAt closes k) (stopPrice side (closeAt closes entry) params.stopLossPct)
  | .takeProfit => 0 < params.takeProfitPct ∧
    side.NoBetter (targetPrice side (closeAt closes entry) params.takeProfitPct) (closeAt closes k)
  | .trailingStop => params.trailingStopEnabled = true ∧ HasGained params closes side entry k ∧
    ∃ best, IsBest closes side entry k best ∧
      side.NoBetter (closeAt closes k) (stopPrice side best params.trailingDistancePct)
  | .signalReversal => crossAt params closes k = some side.reversal
  | .endOfData => k + 1 = closes.length ∧ settings.closeAtEnd = true

/-- An exit holds on a candle, and none that wins over it. -/
def FirstHolds (params : CrossoverParams) (settings : AccountSettings) (closes : List Float)
    (side : Side) (entry k : Nat) (reason : ExitReason) : Prop :=
  Holds params settings closes side entry k reason ∧
    ∃ before after, ExitReason.precedence = before ++ reason :: after ∧
      ∀ other ∈ before, ¬ Holds params settings closes side entry k other

/-- No exit holds after the entry and before a candle. -/
def NoneHolds (params : CrossoverParams) (settings : AccountSettings) (closes : List Float)
    (side : Side) (entry last : Nat) : Prop :=
  ∀ k, entry < k → k < last → ∀ reason, ¬ Holds params settings closes side entry k reason

/-! ## What a position knows -/

/-- A position knows its entry, the best close since and whether one has gained enough, up to the
candle at an index. -/
structure Tracks (params : CrossoverParams) (closes : List Float) (last : Nat) (p : Position) :
    Prop where
  started : p.entryIndex ≤ last
  entry : closeAt closes p.entryIndex = p.entryPrice
  mark : IsBest closes p.side p.entryIndex last p.waterMark
  armed : p.trailingArmed = true ↔
    params.trailingStopEnabled = true ∧ HasGained params closes p.side p.entryIndex last

theorem IsBest.pos {side : Side} {first last : Nat} {price : Float}
    (hpos : ∀ i < closes.length, 0 < closeAt closes i) (hlast : last < closes.length)
    (h : IsBest closes side first last price) : 0 < price := by
  obtain ⟨⟨i, -, hi, rfl⟩, -⟩ := h
  exact hpos i (Nat.lt_of_le_of_lt hi hlast)

/-- There is one best close. -/
theorem IsBest.unique {side : Side} {first last : Nat} {x y : Float}
    (hpos : ∀ i < closes.length, 0 < closeAt closes i) (hlast : last < closes.length)
    (hx : IsBest closes side first last x) (hy : IsBest closes side first last y) : x = y := by
  refine side.eq_of_noBetter (hx.pos hpos hlast) (hy.pos hpos hlast) ?_ ?_
  · obtain ⟨⟨i, hfirst, hi, rfl⟩, -⟩ := hx
    exact hy.2 i hfirst hi
  · obtain ⟨⟨i, hfirst, hi, rfl⟩, -⟩ := hy
    exact hx.2 i hfirst hi

/-- The next close makes the better of it and the best so far the best. -/
theorem IsBest.next {side : Side} {first last : Nat} {price : Float}
    (hpos : ∀ i < closes.length, 0 < closeAt closes i) (hlast : last + 1 < closes.length)
    (hfirst : first ≤ last) (h : IsBest closes side first last price) :
    IsBest closes side first (last + 1) (side.better price (closeAt closes (last + 1))) := by
  have hclose := hpos (last + 1) hlast
  have hcases := side.better_cases (h.pos hpos (Nat.lt_of_succ_lt hlast)) hclose
  constructor
  · rcases hcases with ⟨-, heq⟩ | ⟨-, heq⟩
    · exact ⟨last + 1, by omega, Nat.le_refl _, heq.symm⟩
    · obtain ⟨⟨i, hi, hi', rfl⟩, -⟩ := h
      exact ⟨i, hi, Nat.le_succ_of_le hi', heq.symm⟩
  · intro i hi hi'
    rcases Nat.le_or_eq_of_le_succ hi' with hle | rfl
    · rcases hcases with ⟨hno, heq⟩ | ⟨-, heq⟩
      · rw [heq]
        exact side.noBetter_trans (h.2 i hi hle) hno
      · rw [heq]
        exact h.2 i hi hle
    · rcases hcases with ⟨-, heq⟩ | ⟨hno, heq⟩
      · rw [heq]
        exact side.noBetter_refl hclose
      · rw [heq]
        exact hno

theorem hasGained_succ {side : Side} {entry last : Nat} (hentry : entry ≤ last) :
    HasGained params closes side entry (last + 1) ↔
      HasGained params closes side entry last ∨ params.trailingActivationPct ≤
        side.sign * (closeAt closes (last + 1) - closeAt closes entry) / closeAt closes entry := by
  constructor
  · rintro ⟨j, hj, hj', hgain⟩
    rcases Nat.le_or_eq_of_le_succ hj' with hle | rfl
    · exact .inl ⟨j, hj, hle, hgain⟩
    · exact .inr hgain
  · rintro (⟨j, hj, hj', hgain⟩ | hgain)
    · exact ⟨j, hj, Nat.le_succ_of_le hj', hgain⟩
    · exact ⟨last + 1, by omega, Nat.le_refl _, hgain⟩

/-- A position that has just been opened knows its own close. -/
theorem tracks_enter {k : Nat} {c : Candle} (hc : closeAt closes k = c.close) (hpos : 0 < c.close)
    (side : Side) (balance : Float) :
    Tracks params closes k (.enter side c k balance settings) where
  started := Nat.le_refl k
  entry := hc
  mark := by
    refine ⟨⟨k, Nat.le_refl k, Nat.le_refl k, hc⟩, fun i hi hi' => ?_⟩
    obtain rfl : i = k := Nat.le_antisymm hi' hi
    rw [hc]
    exact side.noBetter_refl hpos
  armed := by
    constructor
    · intro h
      cases h
    · rintro ⟨-, j, hj, hj', -⟩
      exact absurd hj (Nat.not_lt.2 hj')

/-- A position takes in the next close. -/
theorem tracks_track {last : Nat} {p : Position}
    (hpos : ∀ i < closes.length, 0 < closeAt closes i) (hlast : last + 1 < closes.length)
    (h : Tracks params closes last p) :
    Tracks params closes (last + 1) (p.track (closeAt closes (last + 1)) params) where
  started := Nat.le_succ_of_le h.started
  entry := h.entry
  mark := by
    rw [Position.waterMark_track]
    exact h.mark.next hpos hlast h.started
  armed := by
    rw [Position.trailingArmed_track, h.armed, ← h.entry, ← and_or_left]
    exact and_congr_right fun _ => (hasGained_succ h.started).symm

/-- By what it knows, a position meets the exits that hold. -/
theorem meets_iff_holds (settings : AccountSettings) {k : Nat} {p : Position}
    {cross : Option Cross} (hpos : ∀ i < closes.length, 0 < closeAt closes i)
    (hk : k < closes.length)
    (hcross : cross = crossAt params closes k) (h : Tracks params closes k p)
    (reason : ExitReason) :
    p.meets (closeAt closes k) cross ⟨params, settings, k, decide (k + 1 = closes.length)⟩ reason =
        true ↔ Holds params settings closes p.side p.entryIndex k reason := by
  cases reason with
  | stopLoss => rw [Position.meets, Position.hitsStop_iff, Holds, h.entry]
  | takeProfit => rw [Position.meets, Position.hitsTarget_iff, Holds, h.entry]
  | trailingStop =>
    rw [Position.meets, Position.hitsTrailingStop_iff, Holds, h.armed]
    constructor
    · rintro ⟨henabled, ⟨-, hgained⟩, hfar⟩
      exact ⟨henabled, hgained, p.waterMark, h.mark, hfar⟩
    · rintro ⟨henabled, hgained, best, hbest, hfar⟩
      obtain rfl := hbest.unique hpos hk h.mark
      exact ⟨henabled, ⟨henabled, hgained⟩, hfar⟩
  | signalReversal => rw [Position.meets, Position.isReversedBy_iff, Holds, hcross]
  | endOfData => rw [Position.meets, Holds, Bool.and_eq_true, decide_eq_true_eq]

/-! ## The record -/

/-- A trade is closed on the first candle after its entry on which an exit holds, for the first that
does. -/
def ClosesFirst (params : CrossoverParams) (settings : AccountSettings) (closes : List Float)
    (t : Trade) : Prop :=
  NoneHolds params settings closes t.side t.entryIndex t.exitIndex ∧
    FirstHolds params settings closes t.side t.entryIndex t.exitIndex t.exitReason

/-- After `k` candles every trade was closed so, and the position knows all closes of them since its
entry, of which none was an exit. -/
structure KeepsExits (params : CrossoverParams) (settings : AccountSettings) (closes : List Float)
    (k : Nat) (s : SimulationState) (ts : List (Trade × Float)) : Prop where
  closed : ∀ t ∈ ts, ClosesFirst params settings closes t.1
  held : ∀ p, s.account.position = some p → ∃ last, k = last + 1 ∧
    Tracks params closes last p ∧ NoneHolds params settings closes p.side p.entryIndex k

/-- An exit is forced by the first that holds, and only if one does. -/
theorem exitOn_eq_some {k : Nat} {s : SimulationState} {c : Candle} {p : Position}
    {ctx : CandleContext} {reason : ExitReason}
    (hmeets : ∀ reason, (p.track c.close ctx.params).meets c.close (s.crossOn c.close) ctx reason =
      true ↔ Holds params settings closes p.side p.entryIndex k reason)
    (h : s.exitOn c ctx p = some reason) :
    FirstHolds params settings closes p.side p.entryIndex k reason := by
  rw [SimulationState.exitOn, Position.exitFor?_eq_find?, List.find?_eq_some_iff_append] at h
  obtain ⟨hreason, before, after, hsplit, hbefore⟩ := h
  refine ⟨(hmeets reason).1 hreason, before, after, hsplit, fun other hother hholds => ?_⟩
  have hno := hbefore other hother
  rw [(hmeets other).2 hholds] at hno
  cases hno

theorem exitOn_eq_none {k : Nat} {s : SimulationState} {c : Candle} {p : Position}
    {ctx : CandleContext}
    (hmeets : ∀ reason, (p.track c.close ctx.params).meets c.close (s.crossOn c.close) ctx reason =
      true ↔ Holds params settings closes p.side p.entryIndex k reason)
    (h : s.exitOn c ctx p = none) (reason : ExitReason) :
    ¬ Holds params settings closes p.side p.entryIndex k reason := by
  rw [SimulationState.exitOn, Position.exitFor?_eq_find?, List.find?_eq_none] at h
  intro hholds
  exact h reason (ExitReason.mem_precedence reason) ((hmeets reason).2 hholds)

theorem closeAt_map {candles : List Candle} {k : Nat} {c : Candle} (hk : candles[k]? = some c) :
    closeAt (candles.map (·.close)) k = c.close := by
  rw [closeAt, List.getD_eq_getElem?_getD, getElem?_closes hk]
  rfl

theorem closeAt_pos {candles : List Candle} (hpriced : ∀ c ∈ candles, c.isPriced = true) :
    ∀ i < (candles.map (·.close)).length, 0 < closeAt (candles.map (·.close)) i := by
  intro i hi
  rw [List.length_map] at hi
  have hc := hpriced _ (List.getElem_mem hi)
  simp only [Candle.isPriced, Candle.isPrice, Bool.and_eq_true, decide_eq_true_eq] at hc
  rw [closeAt_map (List.getElem?_eq_getElem hi)]
  exact hc.2.2

/-- On the next candle a position meets the exits that hold there. -/
theorem meets_track_iff {candles : List Candle} {last : Nat} {s : SimulationState} {c : Candle}
    {p : Position} (hpriced : ∀ c ∈ candles, c.isPriced = true)
    (hk : candles[last + 1]? = some c)
    (hfollows : Follows params ((candles.map (·.close)).take (last + 1)) s)
    (h : Tracks params (candles.map (·.close)) last p) (reason : ExitReason) :
    (p.track c.close params).meets c.close (s.crossOn c.close)
        (contextAt params settings candles (last + 1)) reason = true ↔
      Holds params settings (candles.map (·.close)) p.side p.entryIndex (last + 1) reason := by
  have hlast := lt_length_closes hk
  have hcross := crossOn_eq_crossAt hfollows (getElem?_closes hk)
  have hiff := meets_iff_holds settings (closeAt_pos hpriced) hlast hcross
    (tracks_track (closeAt_pos hpriced) hlast h) reason
  rw [closeAt_map hk, List.length_map] at hiff
  exact hiff

/-- A position that was just opened knows its close, and no candle has passed since. -/
theorem tracks_of_opensOn {candles : List Candle} {k : Nat} {s : SimulationState} {c : Candle}
    (hpriced : ∀ c ∈ candles, c.isPriced = true) (hk : candles[k]? = some c)
    (hopens : s.OpensOn c (contextAt params settings candles k)) (p : Position)
    (hp : (s.step c (contextAt params settings candles k)).1.account.position = some p) :
    ∃ last, k + 1 = last + 1 ∧ Tracks params (candles.map (·.close)) last p ∧
      NoneHolds params settings (candles.map (·.close)) p.side p.entryIndex (k + 1) := by
  rcases hopens with ⟨hnone, -, -⟩ | ⟨side, -, hpos, -⟩
  · rw [hnone] at hp
    cases hp
  · rw [hpos] at hp
    cases hp
    have hclose := closeAt_map hk
    have hprice := closeAt_pos hpriced k (lt_length_closes hk)
    rw [hclose] at hprice
    refine ⟨k, rfl, tracks_enter hclose hprice side _, ?_⟩
    intro i hi hi'
    exact absurd (Nat.le_of_lt_succ hi') (Nat.not_le.2 hi)

/-- Every candle keeps the record. -/
theorem keepsExits_step {candles : List Candle} {k : Nat} {s : SimulationState}
    {ts : List (Trade × Float)} {c : Candle} (hpriced : ∀ c ∈ candles, c.isPriced = true)
    (hk : candles[k]? = some c) (hfollows : Follows params ((candles.map (·.close)).take k) s)
    (h : KeepsExits params settings (candles.map (·.close)) k s ts) :
    KeepsExits params settings (candles.map (·.close)) (k + 1)
      (s.step c (contextAt params settings candles k)).1
      (ts ++ booked (s.step c (contextAt params settings candles k))) := by
  rcases s.step_cases c (contextAt params settings candles k) with
    ⟨p, hp, hexit, hpos, -, -, hclosed, -⟩ | ⟨-, -, -, hclosed, hopens⟩ |
    ⟨p, reason, hp, hexit, -, -, hclosed, hopens⟩
  · -- The position is held: no exit holds on this candle either.
    obtain ⟨last, rfl, htracks, hnone⟩ := h.held p hp
    have hnow := exitOn_eq_none (meets_track_iff hpriced hk hfollows htracks) hexit
    rw [booked_of_closed_eq_none hclosed, List.append_nil]
    refine ⟨h.closed, fun q hq => ?_⟩
    rw [hpos] at hq
    cases hq
    have hnext := tracks_track (closeAt_pos hpriced) (lt_length_closes hk) htracks
    rw [closeAt_map hk] at hnext
    refine ⟨last + 1, rfl, hnext, fun i hi hi' => ?_⟩
    rcases Nat.lt_succ_iff_lt_or_eq.1 hi' with hlt | rfl
    · exact hnone i hi hlt
    · exact hnow
  · rw [booked_of_closed_eq_none hclosed, List.append_nil]
    exact ⟨h.closed, tracks_of_opensOn hpriced hk hopens⟩
  · -- It is closed: the first exit that holds is that of the trade.
    obtain ⟨last, rfl, htracks, hnone⟩ := h.held p hp
    have hfirst := exitOn_eq_some (meets_track_iff hpriced hk hfollows htracks) hexit
    rw [booked_of_closed_eq_some hclosed]
    refine ⟨fun t ht => ?_, tracks_of_opensOn hpriced hk hopens⟩
    rcases List.mem_append.1 ht with ht | ht
    · exact h.closed t ht
    · rw [List.mem_singleton.1 ht]
      exact ⟨hnone, hfirst⟩

theorem keepsExits_replay {candles : List Candle} (hpriced : ∀ c ∈ candles, c.isPriced = true)
    (params : CrossoverParams) (settings : AccountSettings) :
    KeepsExits params settings (candles.map (·.close)) candles.length
      (replay params settings 0 (.new params settings) candles).1
      (replay params settings 0 (.new params settings) candles).2 := by
  refine replay_induction params settings candles
    (KeepsExits params settings (candles.map (·.close))) ⟨?_, ?_⟩
    fun _ _ _ _ hk hfollows h => keepsExits_step hpriced hk hfollows h
  · intro t ht
    cases ht
  · intro p hp
    cases hp

/-- Trades are closed on the first candle after their entry on which an exit holds, for the first in
order that does, and while a position stays open none holds. -/
theorem run_exits {candles : List Candle} {r : Replay} (h : run candles params settings = .ok r) :
    (∀ t ∈ r.trades, ClosesFirst params settings (candles.map (·.close)) t) ∧
      ∀ t, r.openTrade = some t →
        NoneHolds params settings (candles.map (·.close)) t.side t.entryIndex candles.length := by
  obtain ⟨-, -, hpriced, rfl⟩ := run_eq_ok_iff.1 h
  cases candles with
  | nil => exact ⟨fun t ht => (nomatch ht), fun t ht => (nomatch ht)⟩
  | cons first rest =>
    have hkeeps := keepsExits_replay hpriced params settings
    rw [runValid_eq_result List.head?_cons]
    constructor
    · intro t ht
      obtain ⟨u, hu, rfl⟩ := List.mem_map.1 ht
      exact hkeeps.closed u hu
    · intro t ht
      obtain ⟨p, hp, rfl⟩ := Option.map_eq_some_iff.1 ht
      obtain ⟨last, -, -, hnone⟩ := hkeeps.held p hp
      exact hnone

/-- A long that rises far enough to be trailed, and the next one still open at the end. -/
theorem run_exits_trailing :
    ∃ r, run (hourly 0 [10, 10, 12, 13, 14, 13, 15]) trailing { closeAtEnd := false } = .ok r ∧
      r.trades.map (fun t => (t.entryIndex, t.exitIndex, t.exitReason)) = [(2, 5, .trailingStop)] ∧
      (∀ t ∈ r.trades,
        ClosesFirst trailing { closeAtEnd := false } [10, 10, 12, 13, 14, 13, 15] t) ∧
      ∀ t, r.openTrade = some t →
        NoneHolds trailing { closeAtEnd := false } [10, 10, 12, 13, 14, 13, 15] t.side t.entryIndex
          7 := by
  have hrun : run (hourly 0 [10, 10, 12, 13, 14, 13, 15]) trailing { closeAtEnd := false } =
      .ok _ := run_eq_ok_iff.2 ⟨by decide +kernel, by decide +kernel, by decide +kernel, rfl⟩
  exact ⟨_, hrun, by decide +kernel, run_exits hrun⟩

end Simulation
end Backtest
