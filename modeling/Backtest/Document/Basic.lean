import Backtest.Number.Range

/-!
# Documents

Self-describing data, as a JSON text or a configuration file denotes it. Integers and doubles are
kept apart, a table keeps its entries in the order of the text together with repetitions, and a
value whose text is well formed but denotes nothing stays in place as `unreadable`: it may be
skipped, and no decoder accepts it.
-/
namespace Backtest

/-- A piece of self-describing data. -/
inductive Document where
  | null
  | bool (value : Bool)
  | integer (value : Int)
  | real (value : Float)
  | text (value : String)
  | list (items : List Document)
  | table (entries : List (String × Document))
  | unreadable

namespace Document

instance : Inhabited Document := ⟨.null⟩

/-- A truth value. -/
def bool? : Document → Option Bool
  | .bool b => some b
  | _ => none

/-- A text. -/
def text? : Document → Option String
  | .text s => some s
  | _ => none

/-- An integer of 64 bits with a sign. -/
def int64? : Document → Option Int
  | .integer n => if IsInt64 n then some n else none
  | _ => none

/-- A count of 64 bits. -/
def count? : Document → Option Nat
  | .integer n => if IsCount n then some n.toNat else none
  | _ => none

/-- An integer of 32 bits without a sign. -/
def word? : Document → Option Nat
  | .integer n => if 0 ≤ n ∧ n < 4294967296 then some n.toNat else none
  | _ => none

/-- A double; integers are numbers too. -/
def real? : Document → Option Float
  | .integer n => some (Float.ofInt n)
  | .real x => some x
  | _ => none

/-- The items of a list. -/
def list? : Document → Option (List Document)
  | .list xs => some xs
  | _ => none

/-- Null or a value. -/
def nullable? {α : Type} (decode : Document → Option α) : Document → Option (Option α)
  | .null => some none
  | d => (decode d).map some

/-- A list of values. -/
def listOf? {α : Type} (decode : Document → Option α) (d : Document) : Option (List α) := do
  (← d.list?).mapM decode

/-- One of several names: the name alone, or a table that maps it to nothing. -/
def choice? {α : Type} (named : String → Option α) : Document → Option α
  | .text s => named s
  | .table [(s, .null)] => named s
  | _ => none

end Document
end Backtest
