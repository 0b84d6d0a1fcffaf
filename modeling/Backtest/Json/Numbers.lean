import Backtest.Number.Reader

/-!
# Numbers of JSON texts

How the digits of a number become a double. The digits in use make a significand of 64 bits; those
behind it count as places before the point, and for nothing after it. The significand is rounded to
a double, and this is multiplied or divided by a rounded power of ten. A number with few digits is
read as the nearest double; of the others some are read as a neighbour of it.
-/
namespace Backtest.Json

/-- How the digits before the point of a number, the digits after it and its exponent become a
double. A number beyond the doubles has none. -/
structure NumberReader where
  magnitude? : List Char → List Char → Int → Option Float

namespace NumberReader

/-- A significand with as many further digits as keep it within 64 bits, and how many digits stand
behind these. -/
def takeDigits : Nat → List Char → Nat × Nat
  | significand, [] => (significand, 0)
  | significand, c :: rest =>
    let next := 10 * significand + (c.toNat - '0'.toNat)
    if next < 18446744073709551616 then takeDigits next rest else (significand, rest.length + 1)

/-- A power of ten as a double. -/
def powerOfTen (places : Nat) : Float := Binary64.ofDecimal 1 places

/-- A double divided by the greatest power of ten, time and again until nothing is left of it. -/
def shrink : Nat → Float → Float
  | 0, x => x
  | times + 1, x => if x == 0 then x else shrink times (x / powerOfTen 308)

/-- A significand times a power of ten. -/
def scale? (significand : Nat) (exponent : Int) : Option Float :=
  let x := Float.ofNat significand
  let places := exponent.natAbs
  if exponent < 0 then
    let times := (places - 1) / 308
    some (shrink times x / powerOfTen (places - 308 * times))
  else if x == 0 then some x
  else if 308 < exponent then none
  else
    let scaled := x * powerOfTen places
    if scaled.isFinite then some scaled else none

/-- The significand is scaled by a power of ten, which rounds a second time. -/
def scaling : NumberReader where
  magnitude? whole fraction exponent :=
    let (front, skipped) := takeDigits 0 whole
    let (significand, ignored) := takeDigits front fraction
    scale? significand (exponent + skipped - (fraction.length - ignored : Nat))

end NumberReader
end Backtest.Json
