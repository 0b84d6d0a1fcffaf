import Backtest.Document.Basic
import Backtest.Time.Reader

/-!
# Dates and times in TOML

A date, a time of day, or both with an optional offset. Nothing in a request takes one, so its only
use is as a table with one entry that holds its text.
-/
namespace Backtest.Toml

open Instant (digits? after?)

/-- The name of the one entry of a date or time. -/
def momentKey : String := "$__toml_private_datetime"

/-- The document of a date or time. -/
def moment (text : List Char) : Document := .table [(momentKey, .text (String.ofList text))]

/-- Two digits within bounds, as a text and a number. -/
def readPair? (low high : Nat) (cs : List Char) : Option (List Char × Nat × List Char) := do
  let (n, rest) ← digits? 2 2 cs
  if low ≤ n ∧ n ≤ high then some (cs.take 2, n, rest) else none

/-- A date at the front. -/
def readDate? (cs : List Char) : Option (List Char × List Char) := do
  let (year, rest) ← digits? 4 4 cs
  let (monthText, month, rest) ← (after? '-' rest).bind (readPair? 1 12)
  let (dayText, _, rest) ← (after? '-' rest).bind (readPair? 1 (Date.daysInMonth year month))
  some (cs.take 4 ++ '-' :: monthText ++ '-' :: dayText, rest)

/-- The fraction of a second: at most nine digits, without the zeros at its end. -/
def fractionText (digits : List Char) : List Char :=
  match ((digits.take 9).reverse.dropWhile (· == '0')).reverse with
  | [] => []
  | kept => '.' :: kept

/-- A time of day at the front. -/
def readTime? (cs : List Char) : Option (List Char × List Char) := do
  let (hour, _, rest) ← readPair? 0 23 cs
  let (minute, _, rest) ← (after? ':' rest).bind (readPair? 0 59)
  let (second, _, rest) ← (after? ':' rest).bind (readPair? 0 60)
  let clock := hour ++ ':' :: minute ++ ':' :: second
  match rest with
  | '.' :: rest =>
    let digits := rest.takeWhile Char.isDigit
    if digits.isEmpty then none else some (clock ++ fractionText digits, rest.drop digits.length)
  | rest => some (clock, rest)

/-- The offset at the front, if there is one. A negative offset of nothing counts as positive. -/
def readOffset? : List Char → Option (List Char × List Char)
  | 'Z' :: rest => some (['Z'], rest)
  | 'z' :: rest => some (['Z'], rest)
  | c :: rest =>
    if c == '+' || c == '-' then do
      let (hourText, hour, rest) ← readPair? 0 23 rest
      let (minuteText, minute, rest) ← (after? ':' rest).bind (readPair? 0 59)
      let sign := if hour = 0 ∧ minute = 0 then '+' else c
      some (sign :: hourText ++ ':' :: minuteText, rest)
    else some ([], c :: rest)
  | [] => some ([], [])

/-- A time of day with an offset after the mark behind a date. -/
def readTimeOfDate? : List Char → Option (List Char × List Char)
  | c :: rest =>
    if c == 'T' || c == 't' || c == ' ' then do
      let (time, rest) ← readTime? rest
      let (offset, rest) ← readOffset? rest
      some ('T' :: time ++ offset, rest)
    else none
  | [] => none

/-- A date, a time, or both at the front, and the rest. -/
def readMoment? (cs : List Char) : Option (Document × List Char) :=
  match readDate? cs with
  | some (date, rest) =>
    match readTimeOfDate? rest with
    | some (time, rest) => some (moment (date ++ time), rest)
    | none => some (moment date, rest)
  | none => (readTime? cs).map fun (time, rest) => (moment time, rest)

end Backtest.Toml
