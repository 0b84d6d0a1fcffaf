import Backtest.Proofs.Number.Whole
import Backtest.Search.Axis

/-!
# Rounding to ten places

The values of a range of doubles are rounded to ten places: multiplied by `10 ^ 10`, rounded to a
whole number and divided again. A double that is too large for this stays as it is. The order of all
doubles is kept, and a double is moved by half a unit of the tenth place and a few parts in
`2 ^ 53` of itself at most. A double that has ten places is not left from nearby.

## Main definitions

* `roundTenPlaces_cases` — what is rounded, and what stays.
* `roundTenPlaces_mono` — the order is kept.
* `abs_roundTenPlaces_sub_le` — how far a double is moved.
* `roundTenPlaces_le_of_near` — a double with ten places is not left from just above it.
-/
namespace Backtest.Axis

open Binary64

variable {x y : Float}

theorem unpack_tenPlaces : (1e10 : Float).toModel.unpack =
    .finite .positive 5242880000000000 (-19) (by decide) := rfl

theorem isFinite_tenPlaces : (1e10 : Float).isFinite = true := by
  rw [isFinite_iff, unpack_tenPlaces]
  rfl

theorem toRat_tenPlaces : toRat 1e10 = 10000000000 := by
  rw [toRat_of_finite unpack_tenPlaces, signed]
  norm_num

/-- An infinity stays one. -/
theorem roundTenPlaces_of_not_isFinite (hnan : (x * 1e10).isNaN = false)
    (h : ¬ (x * 1e10).isFinite = true) : roundTenPlaces x = x := by
  obtain ⟨s, hs⟩ := exists_unpack_eq_infinity hnan h
  have hround : Binary64.round (x * 1e10) = x * 1e10 := by rw [Binary64.round, hs]
  have hquotient : (x * 1e10 / 1e10).toModel.unpack = .infinity (s / .positive) := by
    rw [unpack_div, hs, unpack_tenPlaces]
    rfl
  have hlarge : ¬ (x * 1e10 / 1e10).isFinite = true := by
    rw [isFinite_iff, hquotient]
    exact Bool.false_ne_true
  rw [roundTenPlaces, hround]
  exact if_neg hlarge

/-- A double is rounded, or its product is infinite and it stays. -/
theorem roundTenPlaces_cases (hnan : x.isNaN = false) :
    (x.isFinite = true ∧ (x * 1e10).isFinite = true ∧ (roundTenPlaces x).isFinite = true ∧
      RoundsTo (wholeNearest (toRat (x * 1e10)) / 10000000000) (roundTenPlaces x)) ∨
    (¬ (x * 1e10).isFinite = true ∧ roundTenPlaces x = x) := by
  by_cases hx : x.isFinite = true
  · by_cases hproduct : (x * 1e10).isFinite = true
    · obtain ⟨hround, hvalue⟩ := round_exact hproduct
      have hrounds := roundsTo_div hround isFinite_tenPlaces (by rw [toRat_tenPlaces]; norm_num)
      rw [hvalue, toRat_tenPlaces] at hrounds
      have hsmall : |(wholeNearest (toRat (x * 1e10)) : ℚ) / 10000000000| < 2 ^ (1023 : ℤ) := by
        have hnear := abs_le.1 (abs_wholeNearest_sub_le (toRat (x * 1e10)))
        have hbound := abs_lt.1 (abs_toRat_lt hproduct)
        rw [show (2 : ℚ) ^ (1024 : ℤ) = 2 * 2 ^ (1023 : ℤ) by
          rw [← zpow_one_add₀ two_ne_zero]; rfl] at hbound
        have hone : (1 : ℚ) ≤ 2 ^ (1023 : ℤ) := one_le_zpow₀ one_le_two (by decide)
        generalize (2 : ℚ) ^ (1023 : ℤ) = bound at hbound hone ⊢
        rw [abs_lt, lt_div_iff₀ (by norm_num), div_lt_iff₀ (by norm_num)]
        constructor <;> linarith
      have hfinite := hrounds.isFinite hsmall
      have heq : roundTenPlaces x = Binary64.round (x * 1e10) / 1e10 := by
        rw [roundTenPlaces]
        exact if_pos hfinite
      rw [heq]
      exact .inl ⟨hx, hproduct, hfinite, hrounds⟩
    · exact .inr ⟨hproduct, roundTenPlaces_of_not_isFinite
        (roundsTo_mul hx isFinite_tenPlaces).isNaN_eq_false hproduct⟩
  · obtain ⟨s, hs⟩ := exists_unpack_eq_infinity hnan hx
    have hproduct : (x * 1e10).toModel.unpack = .infinity (s * .positive) := by
      rw [unpack_mul, hs, unpack_tenPlaces]
      rfl
    have hlarge : ¬ (x * 1e10).isFinite = true := by
      rw [isFinite_iff, hproduct]
      exact Bool.false_ne_true
    have hnumber : (x * 1e10).isNaN = false := by
      change (x * 1e10).toModel.unpack.isNaN = false
      rw [hproduct]
      rfl
    exact .inr ⟨hlarge, roundTenPlaces_of_not_isFinite hnumber hlarge⟩

theorem roundsTo_product (hx : x.isFinite = true) :
    RoundsTo (toRat x * 10000000000) (x * 1e10) := by
  have h := roundsTo_mul hx isFinite_tenPlaces
  rwa [toRat_tenPlaces] at h

theorem product_mono (hx : x.isFinite = true) (hy : y.isFinite = true) (h : x ≤ y) :
    x * 1e10 ≤ y * 1e10 := by
  rw [le_iff_toRat hx hy] at h
  exact (roundsTo_product hx).le (roundsTo_product hy) (by linarith)

/-- Rounding to ten places keeps the order, also where only one of two doubles is rounded. -/
theorem roundTenPlaces_mono (h : x ≤ y) : roundTenPlaces x ≤ roundTenPlaces y := by
  have hnan := isNaN_of_le h
  rcases roundTenPlaces_cases hnan.1 with ⟨hx, hpx, hrx, hroundx⟩ | ⟨hpx, hrx⟩
  · rcases roundTenPlaces_cases hnan.2 with ⟨hy, hpy, -, hroundy⟩ | ⟨hpy, hry⟩
    · have hle := product_mono hx hy h
      rw [le_iff_toRat hpx hpy] at hle
      refine hroundx.le hroundy (div_le_div_of_nonneg_right ?_ (by norm_num))
      exact_mod_cast wholeNearest_mono hle
    · rw [hry]
      by_cases hy : y.isFinite = true
      -- Were the rounded double the larger one, the product of `y` would lie between finite ones.
      · refine hroundx.le (roundsTo_toRat hy) (not_lt.1 fun hlt => hpy ?_)
        obtain ⟨hfinite, hvalue⟩ := round_exact hpx
        refine isFinite_of_le_of_le hpx hfinite (product_mono hx hy h)
          ((roundsTo_product hy).le (roundsTo_toRat hfinite) ?_)
        rw [hvalue]
        rw [lt_div_iff₀ (by norm_num)] at hlt
        exact hlt.le
      · exact le_of_upper_not_isFinite hx h hy (isNaN_of_isFinite hrx)
  · rw [hrx]
    rcases roundTenPlaces_cases hnan.2 with ⟨hy, hpy, hry, hroundy⟩ | ⟨-, hry⟩
    · by_cases hx : x.isFinite = true
      · refine (roundsTo_toRat hx).le hroundy (not_lt.1 fun hlt => hpx ?_)
        obtain ⟨hfinite, hvalue⟩ := round_exact hpy
        refine isFinite_of_le_of_le hfinite hpy
          ((roundsTo_toRat hfinite).le (roundsTo_product hx) ?_) (product_mono hx hy h)
        rw [hvalue]
        rw [div_lt_iff₀ (by norm_num)] at hlt
        exact hlt.le
      · exact le_of_lower_not_isFinite hy h hx (isNaN_of_isFinite hry)
    · rwa [hry]

/-- A finite double stays finite and is moved by half a unit of the tenth place, but for
rounding. -/
theorem abs_roundTenPlaces_sub_le (hx : x.isFinite = true) :
    (roundTenPlaces x).isFinite = true ∧
      |toRat (roundTenPlaces x) - toRat x| ≤ 51 / 10 ^ 12 + |toRat x| / 2 ^ 51 := by
  rcases roundTenPlaces_cases (isNaN_of_isFinite hx) with ⟨-, hproduct, hfinite, hrounds⟩ | ⟨-, h⟩
  · refine ⟨hfinite, ?_⟩
    have hscaled := (roundsTo_product hx).abs_sub_le_decimal hproduct
    have hwhole := abs_le.1 (abs_wholeNearest_sub_le (toRat (x * 1e10)))
    have hquotient := hrounds.abs_sub_le_decimal hfinite
    have hlower := neg_abs_le (toRat x)
    have hupper := le_abs_self (toRat x)
    generalize (wholeNearest (toRat (x * 1e10)) : ℚ) = w at *
    rw [abs_mul, abs_of_pos (by norm_num : (0 : ℚ) < 10000000000), abs_le] at hscaled
    rw [abs_div, abs_of_pos (by norm_num : (0 : ℚ) < 10000000000)] at hquotient
    have hsize : |w| ≤ |toRat x| * 10000000000 + |toRat x| * 10000000000 / 9007199254740992 + 1 :=
      abs_le.2 ⟨by linarith, by linarith⟩
    rw [abs_le] at hquotient ⊢
    constructor <;> linarith
  · rw [h, sub_self, abs_zero]
    exact ⟨hx, by positivity⟩

/-- A double with ten places is not left from just above it. -/
theorem roundTenPlaces_le_of_near {bound : ℚ} (hx : x.isFinite = true) (hy : y.isFinite = true)
    (hplaces : roundTenPlaces y = y) (hsize : |toRat y| ≤ bound)
    (hnear : toRat x ≤ toRat y + 49 / 10 ^ 12 - bound / 2 ^ 51) : roundTenPlaces x ≤ y := by
  by_cases hle : toRat x ≤ toRat y
  · have hmono := roundTenPlaces_mono ((le_iff_toRat hx hy).2 hle)
    rwa [hplaces] at hmono
  -- There is room above `y` only if it is not too large.
  have hbound : bound ≤ 120000 := by linarith
  have hsizey := abs_le.1 hsize
  have hsizex : |toRat x| ≤ bound + 49 / 10 ^ 12 := abs_le.2 ⟨by linarith, by linarith⟩
  have hproduct : ∀ {z : Float}, z.isFinite = true → |toRat z| ≤ 120001 →
      (z * 1e10).isFinite = true := by
    intro z hz hz'
    refine (roundsTo_product hz).isFinite ?_
    rw [abs_mul, abs_of_pos (by norm_num : (0 : ℚ) < 10000000000)]
    calc |toRat z| * 10000000000 < 2 ^ (60 : ℤ) := by norm_num; linarith
      _ ≤ 2 ^ (1023 : ℤ) := zpow_le_zpow_right₀ one_le_two (by decide)
  rcases roundTenPlaces_cases (isNaN_of_isFinite hy) with ⟨-, hpy, -, hroundy⟩ | ⟨hpy, -⟩
  · rcases roundTenPlaces_cases (isNaN_of_isFinite hx) with ⟨-, hpx, -, hroundx⟩ | ⟨hpx, -⟩
    · rw [hplaces] at hroundy
      refine hroundx.le hroundy (div_le_div_of_nonneg_right ?_ (by norm_num))
      have herrorx := (roundsTo_product hx).abs_sub_le_decimal hpx
      have herrory := (roundsTo_product hy).abs_sub_le_decimal hpy
      have hwhole := abs_le.1 (abs_wholeNearest_sub_le (toRat (y * 1e10)))
      have hplace := hroundy.abs_sub_le_decimal hy
      refine Int.cast_le.2 (wholeNearest_le ?_)
      generalize (wholeNearest (toRat (y * 1e10)) : ℚ) = k at *
      rw [abs_mul, abs_of_pos (by norm_num : (0 : ℚ) < 10000000000), abs_le] at herrorx herrory
      rw [abs_div, abs_of_pos (by norm_num : (0 : ℚ) < 10000000000)] at hplace
      have hsizek : |k| ≤ bound * 10000000000 + bound * 10000000000 / 9007199254740992 + 1 :=
        abs_le.2 ⟨by linarith, by linarith⟩
      rw [abs_le] at hplace
      linarith
    · exact absurd (hproduct hx (by linarith)) hpx
  · exact absurd (hproduct hy (by linarith)) hpy

end Backtest.Axis
