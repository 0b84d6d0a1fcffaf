import Backtest.Time.Instant

/-!
# Writing instants

Date and time of an instant in UTC. A year outside four digits has its sign, and the fraction of a
second has three, six or nine digits, the fewest that are exact, or is left out.
-/
namespace Backtest.Instant

/-- Decimal digits of a natural, padded with zeros to a width. -/
def padded (width n : Nat) : List Char :=
  let digits := Nat.toDigits 10 n
  List.replicate (width - digits.length) '0' ++ digits

/-- A year: four digits, or a sign and at least four. -/
def yearText (year : Int) : List Char :=
  if 0 ≤ year ∧ year ≤ 9999 then padded 4 year.toNat
  else (if year < 0 then '-' else '+') :: padded 4 year.natAbs

/-- A date as year, month and day. -/
def dateText (d : Date) : List Char :=
  yearText d.year ++ '-' :: padded 2 d.month ++ '-' :: padded 2 d.day

/-- The fraction of a second. -/
def fractionText (nano : Nat) : List Char :=
  if nano == 0 then []
  else if nano % 1000000 == 0 then '.' :: padded 3 (nano / 1000000)
  else if nano % 1000 == 0 then '.' :: padded 6 (nano / 1000)
  else '.' :: padded 9 nano

/-- The time of day. A leap second is the second `60`. -/
def timeText (t : Instant) : List Char :=
  let s := t.secondOfDay.toNat
  padded 2 (s / 3600) ++ ':' :: padded 2 (s / 60 % 60) ++
    ':' :: padded 2 (s % 60 + t.nano / 1000000000) ++ fractionText (t.nano % 1000000000)

/-- Date and time with the given texts between and behind them. -/
def textWith (t : Instant) (between behind : String) : String :=
  String.ofList (dateText (Date.ofDays t.day) ++ between.toList ++ timeText t ++ behind.toList)

/-- The instant in data: `2024-01-01T00:00:00Z`. -/
def dataText (t : Instant) : String := t.textWith "T" "Z"

/-- The instant in tables: `2024-01-01T00:00:00+00:00`. -/
def offsetText (t : Instant) : String := t.textWith "T" "+00:00"

/-- The instant in messages: `2024-01-01 00:00:00 UTC`. -/
def messageText (t : Instant) : String := t.textWith " " " UTC"

end Backtest.Instant
