import Backtest.Hash.Blake3
import Backtest.Json.Writer
import Backtest.Params.NameMap
import Backtest.Params.Value

/-!
# Parameter sets

A parameter set gives values to names. Sets are ordered by their first differing entry, names before
values, and a set that is the front of another comes before it.
-/
namespace Backtest

/-- Values of parameters by name. -/
abbrev ParamSet := NameMap ParamValue

namespace ParamSet

/-- The entries of `other` written over those of `base`. -/
def overlay (base other : ParamSet) : ParamSet := base.insertAll other.entries

/-- Comparison of entries: by name, then by value. -/
def compareEntry (a b : String × ParamValue) : Ordering :=
  (ParamValue.compareText a.1 b.1).then (a.2.compare b.2)

/-- Comparison of lists of entries: by the first difference, a front before the whole. -/
def compareEntries : List (String × ParamValue) → List (String × ParamValue) → Ordering
  | [], [] => .eq
  | [], _ :: _ => .lt
  | _ :: _, [] => .gt
  | a :: as, b :: bs => (compareEntry a b).then (compareEntries as bs)

/-- Total comparison of sets. -/
def compare (a b : ParamSet) : Ordering := compareEntries a.entries b.entries

/-- Whether two sets have the same entries. -/
def same (a b : ParamSet) : Bool := a.compare b == .eq

/-- The set as `name=value` pairs. -/
def display (s : ParamSet) : String :=
  ", ".intercalate (s.entries.map fun e => e.1 ++ "=" ++ e.2.display)

/-- The set as a document. -/
def toDocument (s : ParamSet) : Document :=
  .table (s.entries.map fun e => (e.1, e.2.toDocument))

/-- The set of a document. -/
def ofDocument? : Document → Option ParamSet
  | .table entries =>
    (entries.mapM fun e => (ParamValue.ofDocument? e.2).map fun v => (e.1, v)).map NameMap.ofList
  | _ => none

/-- The text that identifies a set. -/
def canonicalText (s : ParamSet) : String := Json.compact s.toDocument

/-- The digest of the text that identifies a set. -/
def fingerprint (s : ParamSet) : String := Blake3.hexDigest s.canonicalText.toUTF8.toList

end ParamSet
end Backtest
