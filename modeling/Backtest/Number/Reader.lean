import Backtest.Number.Binary64

/-!
# Reading doubles

The double nearest to a decimal, and the reader of a decimal field: an optional sign, then digits
with at most one point and an optional exponent, or one of the words for infinity and NaN in any
case. No blanks are allowed.
-/
namespace Backtest.Binary64

/-- The double nearest to `digits * 10 ^ exponent`. Exponents far outside the range of doubles give
zero or infinity at once. -/
def ofDecimal (digits : Nat) (exponent : Int) : Float :=
  if digits == 0 then 0
  else if 400 < exponent then infinity
  else if exponent + (Nat.log2 digits : Int) < -1200 then 0
  else Float.ofScientific digits (exponent < 0) exponent.natAbs

/-- The value of a run of ASCII digits. -/
def digitsValue (cs : List Char) : Nat :=
  cs.foldl (fun n c => 10 * n + (c.toNat - '0'.toNat)) 0

/-- A run of digits at the front and what follows it. -/
def splitDigits (cs : List Char) : List Char × List Char := cs.span Char.isDigit

/-- An optional sign at the front: whether it is a minus, and the rest. -/
def splitSign : List Char → Bool × List Char
  | '-' :: rest => (true, rest)
  | '+' :: rest => (false, rest)
  | rest => (false, rest)

/-- The exponent part: empty, or `e` with an optionally signed run of digits to the end. -/
def readExponent? : List Char → Option Int
  | [] => some 0
  | c :: rest =>
    if c == 'e' || c == 'E' then
      let (negative, digits) := splitSign rest
      if digits.isEmpty || !digits.all Char.isDigit then none
      else some (if negative then -digitsValue digits else digitsValue digits)
    else none

/-- A decimal without its sign. -/
def readMagnitude? (cs : List Char) : Option Float :=
  let (whole, rest) := splitDigits cs
  let (fraction, tail) := match rest with
    | '.' :: after => splitDigits after
    | _ => ([], rest)
  if whole.isEmpty && fraction.isEmpty then none
  else (readExponent? tail).map fun e =>
    ofDecimal (digitsValue (whole ++ fraction)) (e - fraction.length)

/-- A double without its sign: a word or a decimal. -/
def readUnsigned? (cs : List Char) : Option Float :=
  match String.ofList (cs.map Char.toLower) with
  | "inf" | "infinity" => some infinity
  | "nan" => some nan
  | _ => readMagnitude? cs

/-- The double that a decimal field denotes. -/
def read? (text : String) : Option Float :=
  let (negative, cs) := splitSign text.toList
  (readUnsigned? cs).map fun x => if negative then -x else x

end Backtest.Binary64
