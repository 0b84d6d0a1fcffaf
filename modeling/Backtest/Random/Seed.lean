import Backtest.Hash.Blake3
import Backtest.Random.ChaCha

/-!
# Seeds

A master seed has a seed of its own for each scope and index, made by hashing the three together.
It depends on nothing else, so streams may be asked for in any order.
-/
namespace Backtest.Seed

/-- The eight bytes of a word, the lowest first. -/
def bytes (w : UInt64) : List UInt8 :=
  (List.range 8).map fun i => (w >>> (8 * i).toUInt64).toUInt8

/-- The word of at most eight bytes, the lowest first. -/
def ofBytes (bs : List UInt8) : UInt64 :=
  bs.foldr (fun b w => (w <<< 8) ||| b.toUInt64) 0

/-- The seed of a scope and index. -/
def derive (master : UInt64) (scope : String) (index : UInt64) : UInt64 :=
  ofBytes ((Blake3.digest (bytes master ++ scope.toUTF8.toList ++ bytes index)).take 8)

/-- The generator of a scope and index. -/
def generator (master : UInt64) (scope : String) (index : UInt64) : Generator :=
  .ofSeed (derive master scope index)

end Backtest.Seed
