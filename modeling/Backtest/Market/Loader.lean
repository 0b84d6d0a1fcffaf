import Backtest.Csv.Reader
import Backtest.Market.Series
import Backtest.Number.Integer

/-!
# Candles from tables

Reads a series of candles from comma-separated rows under a header. The columns are found by their
names, and a table without volumes has volumes of zero. A header that is no text names nothing:
then the columns stand in the order of a candle's fields.
-/
namespace Backtest

/-- Why there is no series. -/
inductive LoadError where
  | unopened (path : String)
  | row (line : Nat)
  | openTime (line : Nat) (value : String)
  | emptyRange (start stop : Instant)
  | series (error : SeriesError)
deriving Repr, DecidableEq

/-- The wording of a failure. -/
def LoadError.message : LoadError → String
  | unopened path => "failed to open " ++ path
  | row line => s!"malformed CSV row at line {line}"
  | openTime line value => s!"unrecognised open_time `{value}` at line {line}"
  | emptyRange start stop =>
    "no candles between " ++ start.messageText ++ " and " ++ stop.messageText
  | series _ => "candle data failed validation"

/-- The time in a cell: milliseconds since 1970, or the strict or the plain form of a time. -/
def Instant.ofCell? (cell : String) : Option Instant :=
  let text := trimmed cell
  match readInt64? text with
  | some ms => ofMillis? ms
  | none => (readStrict? text).or (readPlain? text)

/-- A row whose time is not yet read. -/
structure CandleRow where
  openTime : String
  openPrice : Float
  high : Float
  low : Float
  close : Float
  volume : Float

namespace CandleRow

/-- The columns of a candle. -/
def columns : List String := ["open_time", "open", "high", "low", "close", "volume"]

/-- The number in a cell. -/
def number? (d : Document) : Option Float := d.text?.bind Binary64.read?

/-- The cells of a row under its header, or in order where there is none. -/
def record? (header : Option (List String)) (cells : List String) : Option Record :=
  match header with
  | some names => Record.ofDocument? columns (.table (names.zip (cells.map .text)))
  | none => Record.ofDocument? columns (.list ((cells.take columns.length).map .text))

/-- The row of a list of cells. -/
def ofCells? (header : Option (List String)) (cells : List String) : Option CandleRow := do
  let r ← record? header cells
  some {
    openTime := ← r.required "open_time" Document.text?
    openPrice := ← r.required "open" number?
    high := ← r.required "high" number?
    low := ← r.required "low" number?
    close := ← r.required "close" number?
    volume := ← r.defaulted "volume" 0 number? }

/-- The candle of a row that opened at a time. -/
def toCandle (r : CandleRow) (openTime : Instant) : Candle :=
  ⟨openTime, r.openPrice, r.high, r.low, r.close, r.volume⟩

end CandleRow

namespace CandleSeries

/-- The row of a record, which has as many fields as the header. -/
def rowOf? (header : Csv.RawRecord) (r : Csv.RawRecord) : Option CandleRow :=
  if r.fields.length = header.fields.length then
    r.texts?.bind (CandleRow.ofCells? header.texts?)
  else none

/-- The candles of records under a header, the first of which is on row `row`. -/
def candlesOf (header : Csv.RawRecord) (row : Nat) :
    List Csv.RawRecord → Except LoadError (List Candle)
  | [] => .ok []
  | r :: rest =>
    match rowOf? header r with
    | none => .error (.row r.line)
    | some cells =>
      match Instant.ofCell? cells.openTime with
      | none => .error (.openTime row cells.openTime)
      | some t => do
        let candles ← candlesOf header (row + 1) rest
        return cells.toCandle t :: candles

/-- The candles of a table. Rows count from the header, which is the first. -/
def candlesOfTable (bytes : List UInt8) : Except LoadError (List Candle) :=
  match Csv.records bytes with
  | [] => .ok []
  | header :: rows => candlesOf header 2 rows

/-- The series of a list of candles. -/
def checked (candles : List Candle) : Except LoadError CandleSeries :=
  match ofCandles candles with
  | .ok s => .ok s
  | .error e => .error (.series e)

/-- The series of a table. -/
def read (bytes : List UInt8) : Except LoadError CandleSeries := do
  checked (← candlesOfTable bytes)

/-- The series of a file's bytes, if there is a file. -/
def load (path : String) (bytes : Option (List UInt8)) : Except LoadError CandleSeries :=
  match bytes with
  | none => .error (.unopened path)
  | some bytes => read bytes

/-- The candles of a series that open in a range. -/
def within (s : CandleSeries) (start stop : Instant) : Except LoadError CandleSeries :=
  let slice := s.slice start stop
  if slice.isEmpty then .error (.emptyRange start stop) else checked slice

end CandleSeries
end Backtest
