import Backtest.Proofs.Number.Exact

/-!
# Sums of doubles

All finite doubles are whole numbers of the least one, and so are their sums and differences. Where
such a result is rounded it is therefore large enough for the error to be relative: there is no part
of the error that does not depend on the size, as products and quotients have it.

## Main definitions

* `exists_units` — a finite double as a whole number of the least one.
* `abs_add_sub_le`, `abs_sub_sub_le` — the error of a sum and of a difference.
* `RoundsTo.eq` — a number is rounded to one double above zero only.
* `div_ofNat_one` — a division by one.
-/
namespace Backtest.Binary64

open Float.Model.UnpackedFloat (Sign)

variable {x y : Float} {q : ℚ}

theorem isFinite_zero : (0 : Float).isFinite = true := by decide +kernel

/-- A finite double is a whole number of the least one. -/
theorem exists_units (hx : x.isFinite = true) : ∃ k : ℤ, toRat x = k * 2 ^ (-1074 : ℤ) := by
  rcases isFinite_cases hx with ⟨s, h⟩ | ⟨s, m, e, hm, h, hleast, -⟩
  · exact ⟨0, by rw [toRat_of_zero h, Int.cast_zero, zero_mul]⟩
  · have hunits : (m : ℚ) * 2 ^ e = (m * 2 ^ (e + 1074).toNat : ℕ) * 2 ^ (-1074 : ℤ) := by
      rw [Nat.cast_mul, Nat.cast_pow, Nat.cast_ofNat, mul_assoc, ← zpow_natCast,
        ← zpow_add₀ two_ne_zero, Int.toNat_of_nonneg (by omega), add_neg_cancel_right]
    refine ⟨s.apply (m * 2 ^ (e + 1074).toNat : ℕ), ?_⟩
    rw [toRat_of_finite h, hunits, ← signed_natCast]
    cases s with
    | positive => rfl
    | negative => exact (neg_mul _ _).symm

/-- A whole number of the least double is rounded with a relative error. -/
theorem RoundsTo.abs_sub_le_of_units (h : RoundsTo q x) (hx : x.isFinite = true) {k : ℤ}
    (hk : q = k * 2 ^ (-1074 : ℤ)) : |toRat x - q| ≤ |q| / 2 ^ 53 := by
  have hrelative : |q| / 2 ^ 53 = |q| * 2 ^ (-53 : ℤ) := by
    rw [div_eq_mul_inv, ← zpow_natCast, ← zpow_neg]
    rfl
  rw [hrelative]
  rcases Int.lt_or_eq_of_le (le_stepExponent q) with hleast | hleast
  · exact h.abs_sub_le_relative hx hleast
  · have hsteps : |q| = (k.natAbs : ℕ) * 2 ^ stepExponent q := by
      rw [← hleast, hk, abs_mul, abs_of_pos (by positivity : (0 : ℚ) < 2 ^ (-1074 : ℤ)),
        Nat.cast_natAbs, Int.cast_abs]
    rw [h.toRat_eq hx hsteps, sub_self, abs_zero]
    positivity

theorem abs_add_sub_le (hx : x.isFinite = true) (hy : y.isFinite = true)
    (hsum : (x + y).isFinite = true) :
    |toRat (x + y) - (toRat x + toRat y)| ≤ |toRat x + toRat y| / 2 ^ 53 := by
  obtain ⟨k, hk⟩ := exists_units hx
  obtain ⟨l, hl⟩ := exists_units hy
  refine (roundsTo_add hx hy).abs_sub_le_of_units hsum (k := k + l) ?_
  rw [hk, hl, Int.cast_add, add_mul]

theorem abs_sub_sub_le (hx : x.isFinite = true) (hy : y.isFinite = true)
    (hdifference : (x - y).isFinite = true) :
    |toRat (x - y) - (toRat x - toRat y)| ≤ |toRat x - toRat y| / 2 ^ 53 := by
  obtain ⟨k, hk⟩ := exists_units hx
  obtain ⟨l, hl⟩ := exists_units hy
  refine (roundsTo_sub hx hy).abs_sub_le_of_units hdifference (k := k - l) ?_
  rw [hk, hl, Int.cast_sub, sub_mul]

/-- A number is rounded to one double, if that is above zero. -/
theorem RoundsTo.eq (hx : RoundsTo q x) (hy : RoundsTo q y) (hpos : 0 < x) : x = y := by
  have hxy := hx.le hy le_rfl
  have hyx := hy.le hx le_rfl
  rw [le_iff_place hx.isNaN_eq_false hy.isNaN_eq_false] at hxy
  rw [le_iff_place hy.isNaN_eq_false hx.isNaN_eq_false] at hyx
  have := place_pos hpos
  exact eq_of_place_eq (by omega) (by omega)

/-- Dividing a double above zero by one leaves it as it is. -/
theorem div_ofNat_one (hx : x.isFinite = true) (hpos : 0 < x) : x / Float.ofNat 1 = x := by
  obtain ⟨hone, hvalue⟩ := ofNat_exact (n := 1) (by decide)
  rw [Nat.cast_one] at hvalue
  have hdivided := roundsTo_div hx hone (by rw [hvalue]; exact one_ne_zero)
  rw [hvalue, div_one] at hdivided
  exact ((roundsTo_toRat hx).eq hdivided hpos).symm

end Backtest.Binary64
