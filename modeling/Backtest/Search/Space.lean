import Backtest.Search.Axis

/-!
# Parameter spaces

All combinations of the axes' values. A combination has a number whose digits, in the mixed radix of
the axes' lengths, are the places on the axes; the last axis turns fastest.
-/
namespace Backtest

/-- Named axes in the order of their names. -/
structure SearchSpace where
  axes : List (String × Axis)

namespace SearchSpace

/-- The greatest number of combinations that is told apart. -/
def sizeLimit : Nat := 18446744073709551615

/-- The space of candidate values by name; the first axis at fault is the error. -/
def ofRanges (ranges : NameMap ParamChoices) : Except AxisError SearchSpace := do
  let axes ← ranges.entries.mapM fun e => do return (e.1, ← Axis.ofParamRange e.1 e.2)
  return ⟨axes⟩

/-- The names of the axes. -/
def names (s : SearchSpace) : List String := s.axes.map (·.1)

/-- The lengths of the axes. -/
def lengths (s : SearchSpace) : List Nat := s.axes.map (·.2.length)

/-- The product of a list. -/
def product (ns : List Nat) : Nat := ns.foldr (· * ·) 1

/-- How many combinations there are, up to the limit. A space without axes has one. -/
def size (s : SearchSpace) : Nat := min (product s.lengths) sizeLimit

/-- The digits of a number in a mixed radix, the last one of least weight. -/
def digits : List Nat → Nat → List Nat
  | [], _ => []
  | n :: rest, i => i / product rest % n :: digits rest i

/-- The combination with a number below the size. -/
def combination (s : SearchSpace) (i : Nat) : ParamSet :=
  .ofList ((s.axes.zip (digits s.lengths i)).map fun e => (e.1.1, e.1.2.nth e.2))

end SearchSpace
end Backtest
