import Backtest.Search.Axis
import Mathlib

/-!
# Ranges of integers

A range of integers from a least to a greatest value has one value more than the steps that fit
between them, and it is refused only if these are too many for an axis. Its values are exact
whatever the ends are: the products and sums behind them fit into 128 bits and the values into 64.
They rise strictly, start at the least value, and stop at the last one that is not above the
greatest.

## Main definitions

* `valueCount` — how many values there are between the ends.
* `CountsThrough` — an axis that goes through them.
* `ofParamRange_ints` — an accepted range goes through its values, and any other one is too large.
-/
namespace Backtest.Axis

variable {low high step : Int64} {i j : ℕ}

/-- The integers of 128 bits with a sign. -/
abbrev IsInt128 (n : ℤ) : Prop := -2 ^ 127 ≤ n ∧ n < 2 ^ 127

/-- How many values a range has: the steps that fit between its ends, and one. -/
def valueCount (low high step : Int64) : ℤ :=
  ⌊((high.toInt : ℚ) - low.toInt) / step.toInt⌋ + 1

/-- An axis that goes from `low` in equal steps as far as `high` allows. -/
structure CountsThrough (low high step : Int64) (axis : Axis) : Prop where
  length_eq : (axis.length : ℤ) = valueCount low high step
  nth_eq : ∀ i < axis.length, ∃ v, axis.nth i = .int v ∧ v.toInt = low.toInt + i * step.toInt
  rising : ∀ i j, i < j → j < axis.length → ∃ u v, axis.nth i = .int u ∧ axis.nth j = .int v ∧ u < v
  last_le : low.toInt + (axis.length - 1) * step.toInt ≤ high.toInt
  lt_next : high.toInt < low.toInt + axis.length * step.toInt
  span_fits : IsInt128 (high.toInt - low.toInt)
  products_fit : ∀ i < axis.length,
    IsInt128 (step.toInt * i) ∧ IsInt128 (low.toInt + step.toInt * i)

/-- The count by whole division. -/
theorem valueCount_eq (hstep : 0 < step.toInt) :
    valueCount low high step = (high.toInt - low.toInt) / step.toInt + 1 := by
  obtain ⟨k, hk⟩ := Int.eq_ofNat_of_zero_le hstep.le
  rw [valueCount, hk, ← Int.cast_sub]
  congr 1
  exact Rat.floor_intCast_div_natCast _ k

/-- The steps that fit end at most one step before the next would. -/
theorem steps_bounds (low high : Int64) (hstep : 0 < step.toInt) :
    (valueCount low high step - 1) * step.toInt ≤ high.toInt - low.toInt ∧
      high.toInt - low.toInt < valueCount low high step * step.toInt := by
  rw [valueCount_eq hstep, add_sub_cancel_right]
  exact ⟨Int.ediv_mul_le _ hstep.ne', Int.lt_ediv_add_one_mul_self _ hstep⟩

theorem valueCount_pos (hstep : 0 < step.toInt) (hle : low.toInt ≤ high.toInt) :
    0 < valueCount low high step := by
  rw [valueCount_eq hstep]
  have := Int.ediv_nonneg (sub_nonneg.2 hle) hstep.le
  omega

theorem toInt_bounds (v : Int64) : -2 ^ 63 ≤ v.toInt ∧ v.toInt < 2 ^ 63 :=
  ⟨v.le_toInt, v.toInt_lt⟩

/-- A value within the ends is not changed by taking 64 bits of it. -/
theorem nth_ints_eq (n : ℕ) (hlow : low.toInt ≤ low.toInt + i * step.toInt)
    (hhigh : low.toInt + i * step.toInt ≤ high.toInt) :
    ∃ v, (ints low step n).nth i = .int v ∧ v.toInt = low.toInt + i * step.toInt := by
  have hleast := toInt_bounds low
  have hmost := toInt_bounds high
  refine ⟨_, rfl, ?_⟩
  rw [mul_comm step.toInt]
  exact Int64.toInt_ofInt_of_le (by omega) (by omega)

/-- The axis of a range with a count of values goes through them. -/
theorem countsThrough_ints (hstep : 0 < step.toInt) (hle : low.toInt ≤ high.toInt) :
    CountsThrough low high step (ints low step (valueCount low high step).toNat) := by
  have hcount : ((valueCount low high step).toNat : ℤ) = valueCount low high step :=
    Int.toNat_of_nonneg (valueCount_pos hstep hle).le
  obtain ⟨hlast, hnext⟩ := steps_bounds low high hstep
  have hleast := toInt_bounds low
  have hmost := toInt_bounds high
  have hplace : ∀ i < (valueCount low high step).toNat, 0 ≤ (i : ℤ) * step.toInt ∧
      (i : ℤ) * step.toInt ≤ high.toInt - low.toInt := by
    intro i hi
    refine ⟨by positivity, le_trans (mul_le_mul_of_nonneg_right ?_ hstep.le) hlast⟩
    omega
  have hnth : ∀ i < (valueCount low high step).toNat, ∃ v,
      (ints low step (valueCount low high step).toNat).nth i = .int v ∧
        v.toInt = low.toInt + i * step.toInt := by
    intro i hi
    have := hplace i hi
    have hhigh : low.toInt + i * step.toInt ≤ high.toInt := by omega
    exact nth_ints_eq _ (by omega) hhigh
  refine ⟨hcount, hnth, fun i j hij hj => ?_, ?_, ?_, ?_, fun i hi => ?_⟩
  · obtain ⟨u, hu, hu'⟩ := hnth i (hij.trans hj)
    obtain ⟨v, hv, hv'⟩ := hnth j hj
    refine ⟨u, v, hu, hv, Int64.lt_iff_toInt_lt.2 ?_⟩
    have : (i : ℤ) * step.toInt < j * step.toInt := mul_lt_mul_of_pos_right (by omega) hstep
    omega
  · rw [length, hcount]
    omega
  · rw [length, hcount]
    omega
  · constructor <;> omega
  · have := hplace i hi
    rw [mul_comm step.toInt]
    constructor <;> constructor <;> omega

/-- **Ranges of integers are exact.** A range with a positive step and ends in order is refused
exactly if it has more values than an axis may have, with their exact count, and otherwise its axis
goes through all of them. -/
theorem ofParamRange_ints (name : String) (hstep : 0 < step) (hle : low ≤ high) :
    (∀ e, ofParamRange name (.range (.int low) (.int high) (.int step)) = .error e ↔
      (maxAxisValues : ℤ) < valueCount low high step ∧
        e = .axisTooLarge name (valueCount low high step).toNat) ∧
      ∀ axis, ofParamRange name (.range (.int low) (.int high) (.int step)) = .ok axis →
        CountsThrough low high step axis := by
  have hstep' : 0 < step.toInt := Int64.lt_iff_toInt_lt.1 hstep
  have hle' : low.toInt ≤ high.toInt := Int64.le_iff_toInt_le.1 hle
  have hcount := valueCount_pos hstep' hle'
  have hrange : ofParamRange name (.range (.int low) (.int high) (.int step)) =
      if maxAxisValues < (valueCount low high step).toNat then
        .error (.axisTooLarge name (valueCount low high step).toNat)
      else .ok (ints low step (valueCount low high step).toNat) := by
    rw [valueCount_eq hstep']
    simp only [ofParamRange, ofRange, ofInts]
    rw [if_neg (by omega), if_neg (by omega)]
  rw [hrange]
  by_cases hmany : (maxAxisValues : ℤ) < valueCount low high step
  · rw [if_pos (Int.lt_toNat.2 hmany)]
    refine ⟨fun e => ?_, fun _ h => (nomatch h)⟩
    rw [Except.error.injEq]
    exact ⟨fun h => ⟨hmany, h.symm⟩, fun h => h.2.symm⟩
  · rw [if_neg (fun h => hmany (Int.lt_toNat.1 h))]
    refine ⟨fun e => ⟨fun h => (nomatch h), fun h => absurd h.1 hmany⟩, fun axis h => ?_⟩
    cases h
    exact countsThrough_ints hstep' hle'

/-- All 64 bits in steps of `2 ^ 40`, and in steps of one. -/
theorem ofParamRange_ints_widest :
    (0 < (1099511627776 : Int64) ∧ Int64.minValue ≤ Int64.maxValue) ∧
      CountsThrough Int64.minValue Int64.maxValue 1099511627776
        (.ints Int64.minValue 1099511627776 16777216) ∧
      ofParamRange "x" (.range (.int Int64.minValue) (.int Int64.maxValue) (.int 1)) =
        .error (.axisTooLarge "x" 18446744073709551616) := by
  refine ⟨by decide, (ofParamRange_ints "x" (by decide) (by decide)).2 _ rfl, ?_⟩
  have hcount : valueCount Int64.minValue Int64.maxValue 1 = 18446744073709551616 := by
    rw [valueCount_eq (by decide)]
    rfl
  have hpos : 0 < (1 : Int64) := by decide
  have hends : Int64.minValue ≤ Int64.maxValue := by decide
  have hrefused := (ofParamRange_ints "x" hpos hends).1 (.axisTooLarge "x" 18446744073709551616)
  rw [hcount] at hrefused
  exact hrefused.2 ⟨by decide, rfl⟩

end Backtest.Axis
