import Backtest.Number.Range
import Backtest.Number.Reader

/-!
# Reading integers

An optional sign and digits, within 64 bits. No blanks are allowed.
-/
namespace Backtest

open Binary64 (splitSign digitsValue)

/-- The natural number of a text that is all digits. -/
def readDigits? (cs : List Char) : Option Nat :=
  if cs.isEmpty || !cs.all Char.isDigit then none else some (digitsValue cs)

/-- The integer of 64 bits with a sign that a text denotes. -/
def readInt64? (text : String) : Option Int := do
  let (negative, digits) := splitSign text.toList
  let n ← readDigits? digits
  let value : Int := if negative then -n else n
  if IsInt64 value then some value else none

/-- The count of 64 bits that a text denotes; only a plus sign may stand in front. -/
def readCount? (text : String) : Option Nat := do
  let (negative, digits) := splitSign text.toList
  if negative then none
  let n ← readDigits? digits
  if IsCount n then some n else none

end Backtest
