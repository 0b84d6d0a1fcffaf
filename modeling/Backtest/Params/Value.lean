import Backtest.Document.Basic
import Backtest.Number.Layout

/-!
# Parameter values

A parameter is a truth value, an integer of 64 bits, a double or a text. Values have a total order:
numbers compare as numbers whether they are integers or doubles, and an integer stands before the
double of the same value.
-/
namespace Backtest

/-- The value of one parameter. -/
inductive ParamValue where
  | bool (value : Bool)
  | int (value : Int64)
  | float (value : Float)
  | text (value : String)
deriving DecidableEq

/-- The kinds of parameter values. -/
inductive ParamKind where
  | bool
  | int
  | float
  | text
deriving Repr, DecidableEq

namespace ParamKind

/-- The name of a kind in messages. -/
def name : ParamKind → String
  | bool => "bool"
  | int => "int"
  | float => "float"
  | text => "string"

/-- The place of a kind among values that are otherwise equal. -/
def rank : ParamKind → Nat
  | bool => 0
  | int => 1
  | float => 2
  | text => 3

end ParamKind

namespace ParamValue

/-- The kind of a value. -/
def kind : ParamValue → ParamKind
  | bool _ => .bool
  | int _ => .int
  | float _ => .float
  | text _ => .text

/-- A number as a double. -/
def float? : ParamValue → Option Float
  | int n => some (Float.ofInt n.toInt)
  | float x => some x
  | _ => none

/-- A number without a fraction as an integer, clamped to 64 bits. -/
def int? : ParamValue → Option Int
  | int n => some n.toInt
  | float x =>
    if Binary64.isIntegral x then
      some (Binary64.toIntClamped (-9223372036854775808) 9223372036854775807 x)
    else none
  | _ => none

/-- A truth value. -/
def bool? : ParamValue → Option Bool
  | bool b => some b
  | _ => none

/-- A text. -/
def text? : ParamValue → Option String
  | text s => some s
  | _ => none

/-- Comparison of texts by code points. -/
def compareText (a b : String) : Ordering :=
  if a < b then .lt else if a = b then .eq else .gt

/-- Total comparison of values. -/
def compare : ParamValue → ParamValue → Ordering
  | bool a, bool b => Ord.compare a b
  | text a, text b => compareText a b
  | int a, int b => Ord.compare a.toInt b.toInt
  | a, b =>
    match a.float?, b.float? with
    | some x, some y => (Binary64.compare x y).then (Ord.compare a.kind.rank b.kind.rank)
    | _, _ => Ord.compare a.kind.rank b.kind.rank

/-- The text of a value in messages and tables. -/
def display : ParamValue → String
  | bool true => "true"
  | bool false => "false"
  | int n => toString n.toInt
  | float x => plainText x
  | text s => s

/-- A value as a document. -/
def toDocument : ParamValue → Document
  | bool b => .bool b
  | int n => .integer n.toInt
  | float x => .real x
  | text s => .text s

/-- The value of a document. An integer beyond 64 bits with a sign is read as a double. -/
def ofDocument? : Document → Option ParamValue
  | .bool b => some (bool b)
  | .integer n =>
    some (if IsInt64 n then int (Int64.ofInt n) else float (Float.ofInt n))
  | .real x => some (float x)
  | .text s => some (text s)
  | _ => none

end ParamValue
end Backtest
