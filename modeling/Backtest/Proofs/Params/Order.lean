import Backtest.Params.Set
import Backtest.Proofs.Number.Arithmetic

/-!
# The order of parameter sets

Values of parameters are compared by cases on their kinds. The cases are one lexicographic order of
keys: a number stands where its double stands, and integers that share a double are told apart by
themselves. That the two agree on integers needs that the conversion to doubles keeps their order.
Entries and sets are compared by their first difference, so their order is total as well.

A double has one NaN here, while 64 bits spell many. The order is one of all bits, so it is proved
for raw values, which give a double by its bits. Values are raw values with the bits of their
doubles and compare as these.

## Main definitions

* `IsTotalOrder` — a comparison that is a total order and ties only what is the same.
* `RawValue`, `RawSet` — values and sets with the bits of their doubles.
* `RawValue.compare_eq_compareKeys` — the comparison by cases is an order of keys.
* `RawSet.compare_eq_lt_iff` — sets are ordered by their first difference.
* `ParamValue.compare_eq_raw`, `ParamSet.compare_eq_raw` — values and sets compare as raw ones.
* Instances of `TransCmp` and `LawfulEqCmp` for values, entries and sets.
-/
namespace Backtest
open Std

/-- A comparison that puts everything in a total order and ties only what is the same. -/
structure IsTotalOrder {α : Type} (compare : α → α → Ordering) : Prop where
  swap : ∀ a b, compare b a = (compare a b).swap
  antisymm : ∀ a b, (compare a b).isLE = true → (compare b a).isLE = true → a = b
  trans : ∀ a b c, (compare a b).isLE = true → (compare b c).isLE = true →
    (compare a c).isLE = true
  total : ∀ a b, (compare a b).isLE = true ∨ (compare b a).isLE = true
  eq_iff : ∀ a b, compare a b = .eq ↔ a = b

theorem isTotalOrder {α : Type} (compare : α → α → Ordering) [TransCmp compare]
    [LawfulEqCmp compare] : IsTotalOrder compare where
  swap _ _ := OrientedCmp.eq_swap
  antisymm _ _ hab hba := LawfulEqCmp.eq_of_compare (OrientedCmp.isLE_antisymm hab hba)
  trans _ _ _ := TransCmp.isLE_trans
  total a b := by
    have hswap : compare b a = (compare a b).swap := OrientedCmp.eq_swap
    rw [hswap]
    cases compare a b with
    | lt => exact .inl rfl
    | eq => exact .inl rfl
    | gt => exact .inr rfl
  eq_iff a b := ⟨LawfulEqCmp.eq_of_compare, fun h => h ▸ ReflCmp.compare_self⟩

/-! ## Raw values -/

/-- The value of a parameter with a double given by its bits, which can be those of any NaN. -/
inductive RawValue where
  | bool (value : Bool)
  | int (value : Int64)
  | float (bits : UInt64)
  | text (value : String)

namespace RawValue

/-- The kind of a value. -/
def kind : RawValue → ParamKind
  | bool _ => .bool
  | int _ => .int
  | float _ => .float
  | text _ => .text

/-- The bits of a number as a double. -/
def bits? : RawValue → Option UInt64
  | int n => some (Float.ofInt n.toInt).toBits
  | float b => some b
  | _ => none

/-- Comparison of values by cases on their kinds. -/
def compare : RawValue → RawValue → Ordering
  | bool a, bool b => Ord.compare a b
  | text a, text b => ParamValue.compareText a b
  | int a, int b => Ord.compare a.toInt b.toInt
  | a, b =>
    match a.bits?, b.bits? with
    | some x, some y =>
      (Ord.compare (Binary64.keyOfBits x) (Binary64.keyOfBits y)).then
        (Ord.compare a.kind.rank b.kind.rank)
    | _, _ => Ord.compare a.kind.rank b.kind.rank

/-- The values that no number compares with stand before or after all numbers. -/
def group : RawValue → Nat
  | bool _ => 0
  | int _ => 1
  | float _ => 1
  | text _ => 2

/-- The place of a number in the total order of doubles. -/
def numberKey : RawValue → Int
  | int n => Binary64.orderKey (Float.ofInt n.toInt)
  | float b => Binary64.keyOfBits b
  | _ => 0

/-- The integer itself, which its double may not tell. -/
def intKey : RawValue → Int
  | int n => n.toInt
  | _ => 0

def boolKey : RawValue → Bool
  | bool b => b
  | _ => false

def textKey : RawValue → String
  | text s => s
  | _ => ""

/-- The order of values, one key after the other. -/
def compareKeys : RawValue → RawValue → Ordering :=
  compareLex (compareOn group) <| compareLex (compareOn numberKey) <|
    compareLex (compareOn (·.kind.rank)) <| compareLex (compareOn intKey) <|
      compareLex (compareOn boolKey) (compareOn textKey)

/-- A comparison of greater weight that never contradicts another one can stand before it. -/
theorem then_eq_right {o o' : Ordering} (hlt : o' = .lt → o.isLE = true)
    (heq : o' = .eq → o = .eq) (hgt : o' = .gt → o.isGE = true) : o.then o' = o' := by
  cases o <;> cases o' <;> simp_all

/-- Integers compare as their doubles do, and as themselves where those are the same. -/
theorem then_compare_toInt (a b : Int64) :
    (Ord.compare (Binary64.orderKey (Float.ofInt a.toInt))
      (Binary64.orderKey (Float.ofInt b.toInt))).then (Ord.compare a.toInt b.toInt) =
        Ord.compare a.toInt b.toInt := by
  refine then_eq_right (fun h => ?_) (fun h => ?_) fun h => ?_
  · rw [Int.compare_eq_lt] at h
    exact Int.isLE_compare.2 (Binary64.orderKey_ofInt_mono (Int.le_of_lt h))
  · rw [Int.compare_eq_eq] at h
    rw [h, Int.compare_eq_eq]
  · rw [Int.compare_eq_gt] at h
    exact Int.isGE_compare.2 (Binary64.orderKey_ofInt_mono (Int.le_of_lt h))

/-- The order of values is the order of their keys. -/
theorem compare_eq_compareKeys (a b : RawValue) : a.compare b = compareKeys a b := by
  cases a with
  | bool a =>
    cases b with
    | bool b => exact Ordering.then_eq.symm
    | _ => rfl
  | int a =>
    cases b with
    | int b => exact (then_compare_toInt a b).symm.trans (congrArg _ Ordering.then_eq.symm)
    | _ => rfl
  | float a => cases b <;> rfl
  | text a => cases b <;> rfl

/-- Values are in a total order. -/
instance : TransCmp compare := by
  rw [show compare = compareKeys from funext fun a => funext fun b => compare_eq_compareKeys a b]
  exact inferInstanceAs (TransCmp (compareLex _ _))

theorem eq_of_compare_eq {a b : RawValue} (h : a.compare b = .eq) : a = b := by
  rw [compare_eq_compareKeys] at h
  simp only [compareKeys, compareLex_eq_eq, compareOn] at h
  obtain ⟨hgroup, hnumber, hrank, hint, hbool, htext⟩ := h
  replace hrank := LawfulEqOrd.eq_of_compare hrank
  replace hnumber := LawfulEqOrd.eq_of_compare hnumber
  replace hint := LawfulEqOrd.eq_of_compare hint
  cases a with
  | bool a =>
    cases b with
    | bool b => exact congrArg bool (LawfulEqOrd.eq_of_compare hbool)
    | _ => cases hrank
  | int a =>
    cases b with
    | int b => exact congrArg int (Int64.toInt_inj.1 hint)
    | _ => cases hrank
  | float a =>
    cases b with
    | float b => exact congrArg float (Binary64.eq_of_keyOfBits_eq hnumber)
    | _ => cases hrank
  | text a =>
    cases b with
    | text b => exact congrArg text (LawfulEqOrd.eq_of_compare htext)
    | _ => cases hrank

/-- Only a value itself is at its place. -/
instance : LawfulEqCmp compare where
  eq_of_compare := eq_of_compare_eq

end RawValue

/-! ## Raw sets -/

/-- Raw values of parameters by name. -/
abbrev RawSet := NameMap RawValue

namespace RawSet

/-- Comparison of entries by their values alone. -/
def compareValues (a b : String × RawValue) : Ordering := a.2.compare b.2

/-- Comparison of entries: by name, then by value. -/
def compareEntry : String × RawValue → String × RawValue → Ordering :=
  compareLex (compareOn Prod.fst) compareValues

/-- Comparison of sets: by the first difference, a front before the whole. -/
def compare (s t : RawSet) : Ordering := List.compareLex compareEntry s.entries t.entries

instance : TransCmp compareValues where
  eq_swap {a b} := OrientedCmp.eq_swap (a := a.2) (b := b.2)
  isLE_trans {a b c} := TransCmp.isLE_trans (a := a.2) (b := b.2) (c := c.2)

instance : TransCmp compareEntry :=
  inferInstanceAs (TransCmp (compareLex (compareOn Prod.fst) compareValues))

instance : LawfulEqCmp compareEntry where
  eq_of_compare {a b} h := by
    rw [compareEntry, compareLex_eq_eq] at h
    exact Prod.ext (LawfulEqOrd.eq_of_compare h.1) (RawValue.eq_of_compare_eq h.2)

/-- Sets are in a total order. -/
instance : TransCmp compare where
  eq_swap {s t} :=
    @OrientedCmp.eq_swap _ (List.compareLex compareEntry) _ s.entries t.entries
  isLE_trans {s t u} :=
    @TransCmp.isLE_trans _ (List.compareLex compareEntry) _ s.entries t.entries u.entries

/-- Only a set itself is at its place. -/
instance : LawfulEqCmp compare where
  eq_of_compare h := NameMap.ext (LawfulEqCmp.eq_of_compare h)

/-- Of two entries the one with the smaller name comes first, then the one with the smaller
value. -/
theorem compareEntry_eq_lt_iff {a b : String × RawValue} :
    compareEntry a b = .lt ↔ a.1 < b.1 ∨ a.1 = b.1 ∧ a.2.compare b.2 = .lt := by
  rw [compareEntry, compareLex, Ordering.then_eq_lt, compareOn, compareValues,
    LawfulEqOrd.compare_eq_iff_eq]
  exact or_congr_left compareOfLessAndEq_eq_lt

/-- A list comes before another one if it does so at the first difference. -/
theorem compareLex_eq_lt_iff (as bs : List (String × RawValue)) :
    List.compareLex compareEntry as bs = .lt ↔
      List.Lex (fun a b => compareEntry a b = .lt) as bs := by
  induction as generalizing bs with
  | nil =>
    cases bs with
    | nil => exact ⟨fun h => (nomatch h), fun h => (nomatch h)⟩
    | cons b bs => exact ⟨fun _ => .nil, fun _ => rfl⟩
  | cons a as ih =>
    cases bs with
    | nil => exact ⟨fun h => (nomatch h), fun h => (nomatch h)⟩
    | cons b bs =>
      rw [List.compareLex_cons_cons, Ordering.then_eq_lt, ih, List.cons_lex_cons_iff,
        LawfulEqCmp.compare_eq_iff_eq]

end RawSet

/-! ## Values and sets -/

namespace ParamValue

/-- The value with the bits of its double. -/
def raw : ParamValue → RawValue
  | bool b => .bool b
  | int n => .int n
  | float x => .float x.toBits
  | text s => .text s

theorem compare_eq_raw (a b : ParamValue) : a.compare b = a.raw.compare b.raw := by
  cases a <;> cases b <;> rfl

theorem eq_of_raw_eq {a b : ParamValue} (h : a.raw = b.raw) : a = b := by
  cases a with
  | float x =>
    cases b with
    | float y =>
      have hbits : x.toBits = y.toBits := RawValue.float.inj h
      exact congrArg float (Binary64.eq_of_toBits_eq (congrArg UInt64.toNat hbits))
    | _ => cases h
  | _ =>
    cases b <;> cases h
    rfl

/-- Values are in a total order. -/
instance : TransCmp compare where
  eq_swap {a b} := by
    rw [compare_eq_raw, compare_eq_raw]
    exact OrientedCmp.eq_swap
  isLE_trans {a b c} hab hbc := by
    rw [compare_eq_raw] at *
    exact TransCmp.isLE_trans hab hbc

/-- Only a value itself is at its place. -/
instance : LawfulEqCmp compare where
  eq_of_compare {a b} h := by
    rw [compare_eq_raw] at h
    exact eq_of_raw_eq (LawfulEqCmp.eq_of_compare h)

end ParamValue

namespace ParamSet

/-- The entry with the bits of its double. -/
def rawEntry (e : String × ParamValue) : String × RawValue := (e.1, e.2.raw)

/-- The set with the bits of its doubles. -/
def raw (s : ParamSet) : RawSet := ⟨s.entries.map rawEntry, List.pairwise_map.2 s.increasing⟩

theorem compareEntries_eq_raw (as bs : List (String × ParamValue)) :
    compareEntries as bs =
      List.compareLex RawSet.compareEntry (as.map rawEntry) (bs.map rawEntry) := by
  induction as generalizing bs with
  | nil => cases bs <;> rfl
  | cons a as ih =>
    cases bs with
    | nil => rfl
    | cons b bs =>
      have hentry : compareEntry a b = RawSet.compareEntry (rawEntry a) (rawEntry b) :=
        congrArg (Ordering.then _) (ParamValue.compare_eq_raw a.2 b.2)
      rw [compareEntries, List.map_cons, List.map_cons, List.compareLex_cons_cons, ih, hentry]

theorem compare_eq_raw (s t : ParamSet) : s.compare t = s.raw.compare t.raw :=
  compareEntries_eq_raw s.entries t.entries

theorem eq_of_raw_eq {s t : ParamSet} (h : s.raw = t.raw) : s = t := by
  have hinjective : Function.Injective rawEntry := fun a b hab =>
    Prod.ext (Prod.mk.inj hab).1 (ParamValue.eq_of_raw_eq (Prod.mk.inj hab).2)
  exact NameMap.ext (List.map_injective_iff.2 hinjective (congrArg NameMap.entries h))

/-- Sets are in a total order. -/
instance : TransCmp compare where
  eq_swap {s t} := by
    rw [compare_eq_raw, compare_eq_raw]
    exact OrientedCmp.eq_swap
  isLE_trans {s t u} hst htu := by
    rw [compare_eq_raw] at *
    exact TransCmp.isLE_trans hst htu

/-- Only a set itself is at its place. -/
instance : LawfulEqCmp compare where
  eq_of_compare {s t} h := by
    rw [compare_eq_raw] at h
    exact eq_of_raw_eq (LawfulEqCmp.eq_of_compare h)

/-- **Values and sets of parameters are totally ordered, and only what is the same ties.** This
holds of all bits of doubles, every NaN and both zeros among them. Sets are ordered by their first
difference. Values and sets compare as the ones with the bits of their doubles, and so are totally
ordered themselves. -/
theorem compare_isTotalOrder :
    IsTotalOrder RawValue.compare ∧ IsTotalOrder RawSet.compare ∧
      (∀ s t : RawSet, s.compare t = .lt ↔
        List.Lex (fun a b => a.1 < b.1 ∨ a.1 = b.1 ∧ a.2.compare b.2 = .lt) s.entries t.entries) ∧
      (∀ a b : ParamValue, a.compare b = a.raw.compare b.raw) ∧
      (∀ s t : ParamSet, s.compare t = s.raw.compare t.raw) ∧
      IsTotalOrder ParamValue.compare ∧ IsTotalOrder ParamSet.compare := by
  refine ⟨isTotalOrder _, isTotalOrder _, fun s t => ?_, ParamValue.compare_eq_raw, compare_eq_raw,
    isTotalOrder _, isTotalOrder _⟩
  rw [RawSet.compare, RawSet.compareLex_eq_lt_iff]
  simp only [RawSet.compareEntry_eq_lt_iff]

end ParamSet
end Backtest
