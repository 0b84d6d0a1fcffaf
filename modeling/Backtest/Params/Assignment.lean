import Backtest.Number.Integer
import Backtest.Params.Set
import Backtest.Text.Blank

/-!
# Assignments

A parameter as `name=value` on the command line. The value is the first of an integer, a double and
a truth value that its text denotes, and otherwise the text itself.
-/
namespace Backtest

/-- The value that a text denotes. -/
def ParamValue.ofText (text : String) : ParamValue :=
  match readInt64? text with
  | some n => .int (Int64.ofInt n)
  | none =>
    match Binary64.read? text with
    | some x => .float x
    | none =>
      match text with
      | "true" => .bool true
      | "false" => .bool false
      | other => .text other

/-- The name and the value of an assignment, split at the first equals sign. -/
def readAssignment? (text : String) : Option (String × ParamValue) :=
  match text.toList.span (· != '=') with
  | (name, '=' :: value) =>
    some (trimmed (String.ofList name), .ofText (trimmed (String.ofList value)))
  | _ => none

end Backtest
