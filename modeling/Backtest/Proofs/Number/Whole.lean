import Backtest.Proofs.Number.Exact

/-!
# Whole numbers near a double

A double with a fraction is below `2 ^ 52`, so the whole numbers next to it are doubles. Rounding to
a whole number and the floor are therefore exact: they give the nearest whole number, a half away
from zero, and the largest one that is not above.

## Main definitions

* `wholeNearest` — the nearest whole number, a half away from zero.
* `round_exact` — rounding a double gives the whole number nearest to it.
* `truncate?_floor` — the floor of a double is the floor of its number.
-/
namespace Backtest.Binary64

open Float.Model (UnpackedFloat)
open Float.Model.UnpackedFloat (Sign)

variable {x : Float} {p q a : ℚ}

/-! ## The nearest whole number -/

/-- The whole number nearest to `q`, a half away from zero. -/
def wholeNearest (q : ℚ) : ℤ := if 0 ≤ q then ⌊q + 1 / 2⌋ else -⌊-q + 1 / 2⌋

theorem abs_wholeNearest_sub_le (q : ℚ) : |(wholeNearest q : ℚ) - q| ≤ 1 / 2 := by
  rw [wholeNearest, abs_le]
  split
  · have hle := Int.floor_le (q + 1 / 2)
    have hlt := Int.lt_floor_add_one (q + 1 / 2)
    constructor <;> linarith
  · have hle := Int.floor_le (-q + 1 / 2)
    have hlt := Int.lt_floor_add_one (-q + 1 / 2)
    push_cast
    constructor <;> linarith

theorem wholeNearest_mono (h : p ≤ q) : wholeNearest p ≤ wholeNearest q := by
  rw [wholeNearest, wholeNearest]
  split
  · rename_i hp
    rw [if_pos (hp.trans h)]
    exact Int.floor_mono (by linarith)
  · rename_i hp
    have hneg : 0 ≤ ⌊-p + 1 / 2⌋ := Int.floor_nonneg.2 (by linarith)
    split
    · rename_i hq
      have : 0 ≤ ⌊q + 1 / 2⌋ := Int.floor_nonneg.2 (by linarith)
      omega
    · exact neg_le_neg (Int.floor_mono (by linarith))

/-- A number below the midpoint after a whole number has none that is larger. -/
theorem wholeNearest_le {k : ℤ} (h : q < k + 1 / 2) : wholeNearest q ≤ k := by
  have hnear := (abs_le.1 (abs_wholeNearest_sub_le q)).2
  have : (wholeNearest q : ℚ) < k + 1 := by linarith
  exact Int.lt_add_one_iff.1 (by exact_mod_cast this)

theorem wholeNearest_signed (s : Sign) (ha : 0 ≤ a) :
    wholeNearest (signed s a) = s.apply ⌊a + 1 / 2⌋ := by
  cases s with
  | positive => exact if_pos ha
  | negative =>
    rw [signed, wholeNearest, neg_neg]
    split
    · obtain rfl : a = 0 := by linarith
      norm_num [Sign.apply]
    · rfl

theorem wholeNearest_intCast (k : ℤ) : wholeNearest (k : ℚ) = k := by
  rw [wholeNearest]
  split
  · rw [Int.floor_intCast_add]
    norm_num
  · rw [← Int.cast_neg, Int.floor_intCast_add]
    norm_num

/-! ## Doubles with a fraction -/

theorem exactValue?_eq (hx : x.isFinite = true) : exactValue? x = some (toRat x) := by
  rw [toRat]
  rcases isFinite_cases hx with ⟨s, h⟩ | ⟨s, m, e, hm, h, -⟩ <;> rw [exactValue?, h] <;> rfl

namespace Magnitude

variable (m : Magnitude)

theorem floor_eq_floor : (m.floor : ℤ) = ⌊m.value⌋ := by
  rw [← num_div_den, floor, Int.natCast_div]
  exact (Rat.floor_natCast_div_natCast _ _).symm

theorem halfUp_eq_floor :
    (((2 * m.num + m.den) / (2 * m.den) : ℕ) : ℤ) = ⌊m.value + 1 / 2⌋ := by
  have hden : (m.den : ℚ) ≠ 0 := Nat.cast_ne_zero.2 m.den_pos.ne'
  have hvalue : m.value + 1 / 2 = ((2 * m.num + m.den : ℕ) : ℚ) / (2 * m.den : ℕ) := by
    rw [← num_div_den]
    push_cast
    field_simp
  rw [hvalue, Int.natCast_div]
  exact (Rat.floor_natCast_div_natCast _ _).symm

/-- A magnitude with a fraction is below `2 ^ 52`. -/
theorem value_lt_of_not_isIntegral {s : Sign} {mantissa : ℕ} {exponent : ℤ} {hm : 0 < mantissa}
    (hcanonical : IsCanonical (.finite s mantissa exponent hm))
    (h : ¬ isIntegral ⟨mantissa, exponent⟩ = true) : value ⟨mantissa, exponent⟩ < 2 ^ 52 := by
  have hexponent : exponent < 0 := by
    by_contra hle
    obtain ⟨k, rfl⟩ := Int.eq_ofNat_of_zero_le (not_lt.1 hle)
    refine h ((isIntegral_iff _).2 ⟨mantissa * 2 ^ k, ?_⟩)
    simp only [value, zpow_natCast, Nat.cast_mul, Nat.cast_pow, Nat.cast_ofNat]
  have hmantissa : (mantissa : ℚ) < 2 ^ 53 := by exact_mod_cast hcanonical.2.2.1
  have hstep : (2 : ℚ) ^ exponent ≤ 2 ^ (-1 : ℤ) := zpow_le_zpow_right₀ one_le_two (by omega)
  calc value ⟨mantissa, exponent⟩ ≤ mantissa * 2 ^ (-1 : ℤ) :=
        mul_le_mul_of_nonneg_left hstep (by positivity)
    _ < 2 ^ 53 * 2 ^ (-1 : ℤ) := mul_lt_mul_of_pos_right hmantissa (by positivity)
    _ = 2 ^ 52 := by norm_num

end Magnitude

/-- A whole number with a sign that is not too large is a double. -/
theorem signedOfNat_exact (s : Sign) {n : ℕ} (hn : n < 2 ^ 53) {y : Float}
    (hy : y = match s with
      | .positive => Float.ofNat n
      | .negative => -Float.ofNat n) :
    y.isFinite = true ∧ toRat y = (s.apply (n : ℤ) : ℤ) := by
  obtain ⟨hfinite, hvalue⟩ := ofNat_exact hn
  subst hy
  cases s with
  | positive => exact ⟨hfinite, hvalue⟩
  | negative => exact ⟨isFinite_neg hfinite, by rw [toRat_neg, hvalue, ← signed_natCast]; rfl⟩

/-- Rounding to a whole number is exact. -/
theorem round_exact (hx : x.isFinite = true) :
    (round x).isFinite = true ∧ toRat (round x) = wholeNearest (toRat x) := by
  rcases isFinite_cases hx with ⟨s, h⟩ | ⟨s, m, e, hm, h, hcanonical⟩
  · have hround : round x = x := by rw [round, h]
    rw [hround, toRat_of_zero h]
    exact ⟨hx, by norm_num [wholeNearest]⟩
  · have hvalue : toRat x = signed s (Magnitude.value ⟨m, e⟩) := toRat_of_finite h
    have hnonneg := Magnitude.value_nonneg ⟨m, e⟩
    by_cases hint : Magnitude.isIntegral ⟨m, e⟩ = true
    · have hround : round x = x := by
        rw [round, h]
        exact if_pos hint
      obtain ⟨k, hk⟩ := (Magnitude.isIntegral_iff _).1 hint
      rw [hround, hvalue, hk, signed_natCast, wholeNearest_intCast]
      exact ⟨hx, rfl⟩
    · have hhalf := Magnitude.halfUp_eq_floor ⟨m, e⟩
      have hbound := Magnitude.value_lt_of_not_isIntegral hcanonical hint
      rw [hvalue, wholeNearest_signed s hnonneg, ← hhalf]
      refine signedOfNat_exact s ?_ ?_
      · have hle : ⌊Magnitude.value ⟨m, e⟩ + 1 / 2⌋ < 2 ^ 53 :=
          Int.floor_lt.2 (by push_cast; linarith)
        rw [← hhalf] at hle
        exact_mod_cast hle
      · rw [round, h]
        exact if_neg hint

/-- The floor of a double is exact. -/
theorem truncate?_floor (hx : x.isFinite = true) : truncate? (floor x) = some ⌊toRat x⌋ := by
  rcases isFinite_cases hx with ⟨s, h⟩ | ⟨s, m, e, hm, h, hcanonical⟩
  · have hfloor : floor x = x := by rw [floor, h]
    rw [hfloor, toRat_of_zero h, truncate?, h, Int.floor_zero]
  · have hvalue : toRat x = signed s (Magnitude.value ⟨m, e⟩) := toRat_of_finite h
    have hnonneg := Magnitude.value_nonneg ⟨m, e⟩
    by_cases hint : Magnitude.isIntegral ⟨m, e⟩ = true
    · have hfloor : floor x = x := by
        rw [floor, h]
        exact if_pos hint
      obtain ⟨k, hk⟩ := (Magnitude.isIntegral_iff _).1 hint
      rw [hk, signed_natCast] at hvalue
      rw [hfloor, hvalue, Int.floor_intCast]
      exact truncate?_eq (by rw [exactValue?_eq hx, hvalue])
    · have hwhole := Magnitude.floor_eq_floor ⟨m, e⟩
      have hbound := Magnitude.value_lt_of_not_isIntegral hcanonical hint
      have hsmall : Magnitude.floor ⟨m, e⟩ < 2 ^ 52 := by
        have hlt : ⌊Magnitude.value ⟨m, e⟩⌋ < 2 ^ 52 := Int.floor_lt.2 (by push_cast; exact hbound)
        rw [← hwhole] at hlt
        exact_mod_cast hlt
      cases s with
      | positive =>
        have hfloor : floor x = Float.ofNat (Magnitude.floor ⟨m, e⟩) := by
          rw [floor, h]
          exact if_neg hint
        obtain ⟨hfinite, hexact⟩ := signedOfNat_exact .positive (by omega) hfloor
        rw [hvalue, signed, ← hwhole]
        exact truncate?_eq (by rw [exactValue?_eq hfinite, hexact]; rfl)
      | negative =>
        have hfloor : floor x = -Float.ofNat (Magnitude.floor ⟨m, e⟩ + 1) := by
          rw [floor, h]
          exact if_neg hint
        obtain ⟨hfinite, hexact⟩ := signedOfNat_exact .negative (by omega) hfloor
        have hstrict : (⌊Magnitude.value ⟨m, e⟩⌋ : ℚ) < Magnitude.value ⟨m, e⟩ := by
          refine lt_of_le_of_ne (Int.floor_le _) fun heq => hint ?_
          exact (Magnitude.isIntegral_iff _).2 ⟨Magnitude.floor ⟨m, e⟩, by
            rw [← heq, ← hwhole, Int.cast_natCast]⟩
        have hnext := Int.lt_floor_add_one (Magnitude.value ⟨m, e⟩)
        have hnegative : ⌊-Magnitude.value ⟨m, e⟩⌋ = -(⌊Magnitude.value ⟨m, e⟩⌋ + 1) := by
          rw [Int.floor_eq_iff]
          push_cast
          constructor <;> linarith
        rw [hvalue, signed, hnegative, ← hwhole]
        exact truncate?_eq (by rw [exactValue?_eq hfinite, hexact]; rfl)

/-- What is not finite has no floor. -/
theorem isFinite_of_truncate?_floor {k : ℤ} (h : truncate? (floor x) = some k) :
    x.isFinite = true := by
  rw [isFinite_iff]
  cases hx : x.toModel.unpack with
  | notANumber =>
    have hfloor : floor x = x := by rw [floor, hx]
    rw [hfloor, truncate?, hx] at h
    cases h
  | infinity s =>
    have hfloor : floor x = x := by rw [floor, hx]
    rw [hfloor, truncate?, hx] at h
    cases h
  | _ => rfl

end Backtest.Binary64
