import Backtest.Document.Basic
import Backtest.Number.Reader
import Backtest.Text.Hex

/-!
# Numbers in TOML

Integers of 64 bits in base ten with an optional sign, or in base two, eight or sixteen behind a
mark; doubles with digits on both sides of the point; and the words `inf` and `nan`. An underscore
may stand between two digits.
-/
namespace Backtest.Toml

open Binary64 (splitSign digitsValue)

/-- Digits at the front with single underscores between them: the digits, and the rest. -/
def splitRun (isDigit : Char → Bool) : List Char → List Char × List Char
  | c :: '_' :: d :: rest =>
    if isDigit c then
      if isDigit d then
        let (digits, rest) := splitRun isDigit (d :: rest)
        (c :: digits, rest)
      else ([c], '_' :: d :: rest)
    else ([], c :: '_' :: d :: rest)
  | c :: rest =>
    if isDigit c then
      let (digits, rest) := splitRun isDigit rest
      (c :: digits, rest)
    else ([], c :: rest)
  | [] => ([], [])

/-- At least one digit at the front, and the rest. -/
def readRun? (isDigit : Char → Bool) (cs : List Char) : Option (List Char × List Char) :=
  let (digits, rest) := splitRun isDigit cs
  if digits.isEmpty then none else some (digits, rest)

/-- The digits before the point: a zero stands alone. -/
def readWhole? : List Char → Option (List Char × List Char)
  | '0' :: rest => some (['0'], rest)
  | cs => readRun? Char.isDigit cs

/-- The integer of a sign and digits, if 64 bits hold it. -/
def integerOf? (negative : Bool) (n : Nat) : Option Document :=
  let value : Int := if negative then -n else n
  if IsInt64 value then some (.integer value) else none

/-- An integer in another base after its mark. -/
def readBased? (base : Nat) (cs : List Char) : Option (Document × List Char) := do
  let isDigit (c : Char) : Bool := match hexValue? c with
    | some v => v < base
    | none => false
  let (digits, rest) ← readRun? isDigit cs
  let value := digits.foldl (fun n c => base * n + (hexValue? c).getD 0) 0
  some (← integerOf? false value, rest)

/-- The double of a sign and a decimal. One beyond the greatest double is refused, one below the
least is negative infinity. -/
def doubleOf? (negative : Bool) (digits : Nat) (exponent : Int) : Option Document :=
  let x := Binary64.ofDecimal digits exponent
  if negative then some (.real (-x))
  else if x.isFinite then some (.real x)
  else none

/-- The digits after the point, if there is one, and the rest. -/
def readFraction? : List Char → Option (List Char × List Char)
  | '.' :: rest => readRun? Char.isDigit rest
  | rest => some ([], rest)

/-- The exponent, if there is one, and the rest. -/
def readExponent? : List Char → Option (Option Int × List Char)
  | c :: rest =>
    if c == 'e' || c == 'E' then
      let (negative, rest) := splitSign rest
      (readRun? Char.isDigit rest).map fun (digits, rest) =>
        let n : Int := digitsValue digits
        (some (if negative then -n else n), rest)
    else some (none, c :: rest)
  | [] => some (none, [])

/-- A number in base ten after its sign, or a word for one. -/
def readUnsigned? (negative : Bool) : List Char → Option (Document × List Char)
  | 'i' :: 'n' :: 'f' :: rest =>
    some (.real (if negative then -Binary64.infinity else Binary64.infinity), rest)
  | 'n' :: 'a' :: 'n' :: rest => some (.real Binary64.nan, rest)
  | cs => do
    let (whole, rest) ← readWhole? cs
    let (fraction, rest) ← readFraction? rest
    let (exponent, rest) ← readExponent? rest
    if fraction.isEmpty && exponent.isNone then
      some (← integerOf? negative (digitsValue whole), rest)
    else
      some (← doubleOf? negative (digitsValue (whole ++ fraction))
        (exponent.getD 0 - fraction.length), rest)

/-- A number at the front, and the rest. -/
def readNumber? : List Char → Option (Document × List Char)
  | '0' :: 'x' :: rest => readBased? 16 rest
  | '0' :: 'o' :: rest => readBased? 8 rest
  | '0' :: 'b' :: rest => readBased? 2 rest
  | cs =>
    let (negative, rest) := splitSign cs
    readUnsigned? negative rest

end Backtest.Toml
