import Backtest.Number.Shortest

/-!
# Number layouts

How a double is written: by its shortest digits in the layout a format asks for, or with a fixed
count of places. A fixed count rounds the exact binary value, a half to the even neighbour, and the
sign of the value stays even when all its digits vanish.
-/
namespace Backtest

/-- The decisions of a text format about the shortest digits of a double. -/
structure NumberLayout where
  /-- Where a decimal between two equally short candidates falls. -/
  tie : Shortest.Tie
  /-- Whether an integral value is written with `.0`. -/
  keepsPoint : Bool
  /-- The decimal exponents written without an exponent part; all of them when absent. -/
  positional : Option (Int × Int)
  /-- The words for NaN, positive and negative infinity. -/
  nan : String
  infinity : String
  negativeInfinity : String

namespace NumberLayout

/-- Significant digits, most significant first and without trailing zeros, and the exponent of the
first of them. -/
def significant (tie : Shortest.Tie) (m : Binary64.Magnitude) : List Char × Int :=
  let d := Shortest.ofMagnitude tie m
  let written := Nat.toDigits 10 d.digits
  ((written.reverse.dropWhile (· == '0')).reverse, d.exponent + written.length - 1)

/-- Digits without an exponent part; `e` is the exponent of the first digit. -/
def positionalText (keepsPoint : Bool) (digits : List Char) (e : Int) : List Char :=
  if e < 0 then '0' :: '.' :: List.replicate (-e - 1).toNat '0' ++ digits
  else
    let whole := e.toNat + 1
    if digits.length ≤ whole then
      digits ++ List.replicate (whole - digits.length) '0' ++
        (if keepsPoint then ['.', '0'] else [])
    else digits.take whole ++ '.' :: digits.drop whole

/-- Digits with one of them before the point and an exponent that always has a sign. -/
def exponentText (digits : List Char) (e : Int) : List Char :=
  let mantissa := match digits with
    | first :: second :: rest => first :: '.' :: second :: rest
    | short => short
  mantissa ++ 'e' :: (if e < 0 then '-' else '+') :: Nat.toDigits 10 e.natAbs

/-- The text of a magnitude. -/
def magnitudeText (layout : NumberLayout) (m : Binary64.Magnitude) : List Char :=
  let (digits, e) := significant layout.tie m
  match layout.positional with
  | none => positionalText layout.keepsPoint digits e
  | some (low, high) =>
    if low ≤ e ∧ e ≤ high then positionalText layout.keepsPoint digits e
    else exponentText digits e

/-- The text of a double. -/
def write (layout : NumberLayout) (x : Float) : String :=
  match x.toModel.unpack with
  | .notANumber => layout.nan
  | .infinity .positive => layout.infinity
  | .infinity .negative => layout.negativeInfinity
  | .zero sign =>
    let zero := positionalText layout.keepsPoint ['0'] 0
    String.ofList (match sign with
      | .positive => zero
      | .negative => '-' :: zero)
  | .finite sign mantissa exponent _ =>
    let text := layout.magnitudeText ⟨mantissa, exponent⟩
    String.ofList (match sign with
      | .positive => text
      | .negative => '-' :: text)

/-- Plain decimals for messages: never an exponent part, no point on an integral value. -/
def plain : NumberLayout :=
  ⟨.up, false, none, "NaN", "inf", "-inf"⟩

end NumberLayout

/-- A double in plain decimals. -/
def plainText (x : Float) : String := NumberLayout.plain.write x

namespace FixedPlaces

/-- The quotient `n / d` to the nearest integer, a half to the even one. -/
def roundDiv (n d : Nat) : Nat :=
  let q := n / d
  let r := 2 * (n % d)
  if d < r || (r == d && q % 2 == 1) then q + 1 else q

/-- The digits of `units / 10 ^ places`. -/
def unitsText (places units : Nat) : List Char :=
  if places == 0 then Nat.toDigits 10 units
  else
    let fraction := Nat.toDigits 10 (units % Nat.pow 10 places)
    Nat.toDigits 10 (units / Nat.pow 10 places) ++
      '.' :: List.replicate (places - fraction.length) '0' ++ fraction

/-- A double with a fixed count of places. -/
def write (places : Nat) (x : Float) : String :=
  let signed (sign : Float.Model.UnpackedFloat.Sign) (units : Nat) : String :=
    let text := unitsText places units
    String.ofList (match sign with
      | .positive => text
      | .negative => '-' :: text)
  match x.toModel.unpack with
  | .notANumber => "NaN"
  | .infinity .positive => "inf"
  | .infinity .negative => "-inf"
  | .zero sign => signed sign 0
  | .finite sign mantissa exponent _ =>
    let m : Binary64.Magnitude := ⟨mantissa, exponent⟩
    signed sign (roundDiv (m.num * Nat.pow 10 places) m.den)

end FixedPlaces

end Backtest
