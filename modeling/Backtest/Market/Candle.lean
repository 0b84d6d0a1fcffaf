import Backtest.Document.Record
import Backtest.Time.Reader
import Backtest.Time.Writer

/-!
# Candles

A candle sums up the trades of one stretch of time: when it opened, four prices and the volume.
-/
namespace Backtest

/-- Instants as documents. -/
def Instant.toDocument (t : Instant) : Document := .text t.dataText

/-- The instant of a document, in the relaxed form. -/
def Instant.ofDocument? (d : Document) : Option Instant := d.text?.bind readRelaxed?

/-- One closed candle. -/
structure Candle where
  openTime : Instant
  openPrice : Float
  high : Float
  low : Float
  close : Float
  volume : Float
deriving DecidableEq

namespace Candle

/-- Whether a price is finite and above zero. -/
def isPrice (x : Float) : Bool := x.isFinite && decide (0 < x)

/-- Whether all four prices are finite and above zero. -/
def isPriced (c : Candle) : Bool :=
  isPrice c.openPrice && isPrice c.high && isPrice c.low && isPrice c.close

/-- The candle as a document. -/
def toDocument (c : Candle) : Document :=
  .table [("open_time", c.openTime.toDocument), ("open", .real c.openPrice), ("high", .real c.high),
    ("low", .real c.low), ("close", .real c.close), ("volume", .real c.volume)]

/-- The candle of a document. -/
def ofDocument? (d : Document) : Option Candle := do
  let r ← Record.ofDocument? ["open_time", "open", "high", "low", "close", "volume"] d
  some {
    openTime := ← r.required "open_time" Instant.ofDocument?
    openPrice := ← r.required "open" Document.real?
    high := ← r.required "high" Document.real?
    low := ← r.required "low" Document.real?
    close := ← r.required "close" Document.real?
    volume := ← r.required "volume" Document.real? }

end Candle
end Backtest
