import Backtest.Market.Candle

/-!
# Candle series

A series is a nonempty list of candles with valid prices whose opening times strictly increase. It
is made by one pass that reports the first candle at fault, its prices before its time.
-/
namespace Backtest

/-- Why a list of candles is no series. -/
inductive SeriesError where
  | empty
  | notIncreasing (index : Nat) (previous current : Instant)
  | invalidPrice (index : Nat) (openTime : Instant)
deriving Repr, DecidableEq

/-- The wording of a fault. -/
def SeriesError.message : SeriesError → String
  | empty => "candle series is empty"
  | notIncreasing index previous current =>
    s!"timestamps not strictly increasing at index {index}: " ++ previous.messageText ++ " then " ++
      current.messageText
  | invalidPrice index openTime =>
    s!"non-finite or non-positive price at index {index} (" ++ openTime.messageText ++ ")"

/-- Candles in the order of time. -/
structure CandleSeries where
  candles : List Candle
  nonempty : candles ≠ []
  pricesValid : ∀ c ∈ candles, c.isPriced = true
  timesIncrease : candles.Pairwise fun a b => a.openTime < b.openTime

namespace CandleSeries

/-- The first fault of candles that stand at `index` and follow the time `previous`. -/
def firstFault (index : Nat) (previous : Option Instant) : List Candle → Option SeriesError
  | [] => none
  | c :: rest =>
    if c.isPriced then
      match previous with
      | some p =>
        if c.openTime ≤ p then some (.notIncreasing index p c.openTime)
        else firstFault (index + 1) (some c.openTime) rest
      | none => firstFault (index + 1) (some c.openTime) rest
    else some (.invalidPrice index c.openTime)

/-- Candles without a fault have valid prices and times that increase from the previous one on. -/
theorem of_firstFault_eq_none {cs : List Candle} {index : Nat} {previous : Option Instant}
    (h : firstFault index previous cs = none) :
    (∀ c ∈ cs, c.isPriced = true) ∧ (cs.Pairwise fun a b => a.openTime < b.openTime) ∧
      ∀ p, previous = some p → ∀ c ∈ cs, p < c.openTime := by
  induction cs generalizing index previous with
  | nil => simp
  | cons c rest ih =>
    simp only [firstFault] at h
    split at h
    next hc =>
      have key : firstFault (index + 1) (some c.openTime) rest = none ∧
          ∀ p, previous = some p → p < c.openTime := by
        split at h
        next p =>
          split at h
          · cases h
          next hle =>
            exact ⟨h, fun q hq => by cases hq; simpa [Instant.le_def] using hle⟩
        next => exact ⟨h, fun p hp => by cases hp⟩
      obtain ⟨hprices, htimes, hafter⟩ := ih key.1
      refine ⟨by simpa [hc] using hprices,
        List.pairwise_cons.2 ⟨fun d hd => hafter _ rfl d hd, htimes⟩, fun p hp d hd => ?_⟩
      rcases List.mem_cons.1 hd with rfl | hd
      · exact key.2 p hp
      · exact Instant.lt_trans (key.2 p hp) (hafter _ rfl d hd)
    next => cases h

/-- The series of a list of candles, or its first fault. -/
def ofCandles (candles : List Candle) : Except SeriesError CandleSeries :=
  if hne : candles = [] then .error .empty
  else
    match h : firstFault 0 none candles with
    | some e => .error e
    | none =>
      .ok ⟨candles, hne, (of_firstFault_eq_none h).1, (of_firstFault_eq_none h).2.1⟩

/-- The first opening time. -/
def firstOpening (s : CandleSeries) : Instant := (s.candles.head s.nonempty).openTime

/-- The last opening time. -/
def lastOpening (s : CandleSeries) : Instant := (s.candles.getLast s.nonempty).openTime

/-- The candles that open from `start` on and before `stop`. -/
def slice (s : CandleSeries) (start stop : Instant) : List Candle :=
  (s.candles.dropWhile fun c => decide (c.openTime < start)).takeWhile fun c =>
    decide (c.openTime < stop)

/-- The series as a document. -/
def toDocument (s : CandleSeries) : Document :=
  .table [("candles", .list (s.candles.map Candle.toDocument))]

/-- The series of a document: the bare list of its candles. -/
def ofDocument? (d : Document) : Option CandleSeries := do
  let candles ← d.listOf? Candle.ofDocument?
  (ofCandles candles).toOption

end CandleSeries
end Backtest
