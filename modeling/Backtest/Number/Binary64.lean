/-!
# Binary64 values

Exact views of a double: its value as a signed integer times a power of two, the position it has in
the total order of bit patterns, and the integers near it. Everything here is computed from the
unpacked form, so no rounding happens except where a function says so.
-/
namespace Backtest.Binary64

open Float.Model (UnpackedFloat)

/-- Infinity, the value of every computation that exceeds the largest double. -/
def infinity : Float := Float.ofBits 0x7FF0000000000000

/-- The quiet NaN. -/
def nan : Float := Float.ofBits 0x7FF8000000000000

/-- Place in the total order of doubles: negative numbers by falling magnitude, `-0.0`, `0.0`,
positive numbers by rising magnitude, NaN last. -/
def orderKey (x : Float) : Int :=
  let bits := x.toBits.toNat
  if bits < 9223372036854775808 then bits else 9223372036854775807 - bits

/-- Total comparison of doubles. -/
def compare (x y : Float) : Ordering := Ord.compare (orderKey x) (orderKey y)

/-- A finite nonzero magnitude: `mantissa * 2 ^ exponent`. -/
structure Magnitude where
  mantissa : Nat
  exponent : Int
deriving Repr, DecidableEq

namespace Magnitude

/-- Numerator of the magnitude as a fraction. -/
def num (m : Magnitude) : Nat := m.mantissa <<< m.exponent.toNat

/-- Denominator of the magnitude as a fraction: a power of two. -/
def den (m : Magnitude) : Nat := 1 <<< (-m.exponent).toNat

/-- The integer part. -/
def floor (m : Magnitude) : Nat := m.num / m.den

/-- Whether nothing stands behind the binary point. -/
def isIntegral (m : Magnitude) : Bool := m.num % m.den == 0

end Magnitude

/-- Whether `x` is finite and has no fractional part. -/
def isIntegral (x : Float) : Bool :=
  match x.toModel.unpack with
  | .zero _ => true
  | .finite _ mantissa exponent _ => Magnitude.isIntegral ⟨mantissa, exponent⟩
  | _ => false

/-- The integer part of a finite double, toward zero; NaN and the infinities have none. -/
def truncate? (x : Float) : Option Int :=
  match x.toModel.unpack with
  | .zero _ => some 0
  | .finite sign mantissa exponent _ =>
    let whole := Magnitude.floor ⟨mantissa, exponent⟩
    some (match sign with
      | .positive => whole
      | .negative => -whole)
  | _ => none

/-- Conversion to an integer between `low` and `high`: toward zero, clamped to the ends, NaN to
zero. -/
def toIntClamped (low high : Int) (x : Float) : Int :=
  match x.toModel.unpack with
  | .notANumber => 0
  | .infinity .positive => high
  | .infinity .negative => low
  | _ => max low (min high ((truncate? x).getD 0))

/-- The largest integral double that is at most `x`; zeros, infinities and NaN are themselves. -/
def floor (x : Float) : Float :=
  match x.toModel.unpack with
  | .finite sign mantissa exponent _ =>
    let m : Magnitude := ⟨mantissa, exponent⟩
    if m.isIntegral then x
    else match sign with
      | .positive => Float.ofNat m.floor
      | .negative => -Float.ofNat (m.floor + 1)
  | _ => x

/-- The nearest integral double, a half away from zero; the sign stays, also on zero. -/
def round (x : Float) : Float :=
  match x.toModel.unpack with
  | .finite sign mantissa exponent _ =>
    let m : Magnitude := ⟨mantissa, exponent⟩
    if m.isIntegral then x
    else
      let nearest := Float.ofNat ((2 * m.num + m.den) / (2 * m.den))
      match sign with
      | .positive => nearest
      | .negative => -nearest
  | _ => x

/-- The larger of two doubles; a NaN gives way to the other operand. -/
def max (x y : Float) : Float :=
  if x.isNaN then y else if x < y then y else x

/-- The smaller of two doubles; a NaN gives way to the other operand. -/
def min (x y : Float) : Float :=
  if x.isNaN then y else if y < x then y else x

end Backtest.Binary64
