import Backtest.Proofs.Search.TenPlaces

/-!
# Ranges of doubles

The values of a range of doubles are computed one by one: a product, a sum, and rounding to ten
places. They never fall, whatever the range is, and each is next to the number that exact steps lead
to. Where the steps are large against this error no two values are the same. The count of values has
a tolerance, so the last exact step may lie above the greatest value, by a billionth of a step and
the errors of rounding at most. Where it does not, and the ends have ten places, all values lie
between the ends.

## Main definitions

* `floatAt`, `exactAt` — the value at a place, and the number that exact steps lead to.
* `floatAt_mono` — values never fall.
* `overreach`, `lastStep_le` — how far the steps that are counted can reach.
* `valueError`, `abs_floatAt_sub_le` — how far a value is from the exact one.
* `room`, `floatAt_le` — how far an exact step may be above the greatest value when its value is
  not.
* `RisesWithin` — strictly rising values between the ends.
* `FollowsSteps` — all that holds of the values of a range.
* `ofParamRange_floats` — it holds of every range of doubles that is accepted.
-/
namespace Backtest.Axis

open Binary64

variable {low high step : Float} {bound : ℚ} {i j n : ℕ}

/-- The value at a place of a range of doubles. -/
def floatAt (low step : Float) (i : ℕ) : Float := roundTenPlaces (low + step * Float.ofNat i)

/-- The number that exact steps lead to. -/
def exactAt (low step : Float) (i : ℕ) : ℚ := toRat low + i * toRat step

theorem nth_floats (low step : Float) (n i : ℕ) :
    (floats low step n).nth i = .float (floatAt low step i) := rfl

/-! ## The order of the values -/

theorem roundsTo_steps (hstep : step.isFinite = true) (hi : i < 2 ^ 53) :
    RoundsTo (i * toRat step) (step * Float.ofNat i) := by
  obtain ⟨hfinite, hvalue⟩ := ofNat_exact hi
  have h := roundsTo_mul hstep hfinite
  rwa [hvalue, mul_comm] at h

theorem steps_mono (hstep : step.isFinite = true) (hpos : 0 < step) (hij : i ≤ j)
    (hj : j < 2 ^ 53) : step * Float.ofNat i ≤ step * Float.ofNat j := by
  have hcast : (i : ℚ) ≤ j := by exact_mod_cast hij
  exact (roundsTo_steps hstep (hij.trans_lt hj)).le (roundsTo_steps hstep hj)
    (mul_le_mul_of_nonneg_right hcast ((toRat_pos_iff hstep).2 hpos).le)

/-- Values never fall, also where they are infinite. -/
theorem floatAt_mono (hlow : low.isFinite = true) (hstep : step.isFinite = true) (hpos : 0 < step)
    (hij : i ≤ j) (hj : j < 2 ^ 53) : floatAt low step i ≤ floatAt low step j :=
  roundTenPlaces_mono (add_mono_right hlow (steps_mono hstep hpos hij hj))

/-- No step at all leads to the least value. -/
theorem roundsTo_first (hlow : low.isFinite = true) (hstep : step.isFinite = true) :
    RoundsTo (toRat low) (low + step * Float.ofNat 0) := by
  have hzero := roundsTo_steps hstep (i := 0) (by decide)
  rw [Nat.cast_zero, zero_mul] at hzero
  have hfinite := hzero.isFinite (by rw [abs_zero]; positivity)
  have hnone : toRat (step * Float.ofNat 0) = 0 := hzero.toRat_eq hfinite (k := 0) (by simp)
  have hsum := roundsTo_add hlow hfinite
  rwa [hnone, add_zero] at hsum

/-- No value is below the least one, rounded as they are. -/
theorem roundTenPlaces_le_floatAt (hlow : low.isFinite = true) (hstep : step.isFinite = true)
    (hpos : 0 < step) (hi : i < 2 ^ 53) : roundTenPlaces low ≤ floatAt low step i :=
  roundTenPlaces_mono (Binary64.le_trans
    ((roundsTo_toRat hlow).le (roundsTo_first hlow hstep) le_rfl)
    (add_mono_right hlow (steps_mono hstep hpos (Nat.zero_le i) hi)))

/-- The first value is the least one, rounded as all of them. -/
theorem floatAt_zero_le (hlow : low.isFinite = true) (hstep : step.isFinite = true) :
    floatAt low step 0 ≤ roundTenPlaces low :=
  roundTenPlaces_mono ((roundsTo_first hlow hstep).le (roundsTo_toRat hlow) le_rfl)

example : floatAt 1.4e-10 1 0 < 1.4e-10 := by decide +kernel

/-! ## The count -/

/-- An accepted count is one more than the floor of the quotient with its tolerance. -/
theorem floatCount_eq (h : floatCount low high step ≤ maxAxisValues) :
    ((high - low) / step + 1e-9).isFinite = true ∧
      floatCount low high step = ⌊toRat ((high - low) / step + 1e-9)⌋.toNat + 1 := by
  simp only [floatCount] at h ⊢
  cases hfloor : truncate? (Binary64.floor ((high - low) / step + 1e-9)) with
  | none =>
    rw [hfloor] at h
    exact absurd h (by decide)
  | some k =>
    have hfinite := isFinite_of_truncate?_floor hfloor
    rw [hfloor] at h
    rw [truncate?_floor hfinite, Option.some.injEq] at hfloor
    rw [hfloor]
    refine ⟨hfinite, ?_⟩
    dsimp only [maxAxisValues] at h ⊢
    omega

theorem unpack_quotientTolerance : (1e-9 : Float).toModel.unpack =
    .finite .positive 4835703278458517 (-82) (by decide) := rfl

theorem isFinite_quotientTolerance : (1e-9 : Float).isFinite = true := by
  rw [isFinite_iff, unpack_quotientTolerance]
  rfl

theorem toRat_quotientTolerance_bounds :
    0 < toRat 1e-9 ∧ toRat 1e-9 ≤ 1 / 10 ^ 9 + 1 / 10 ^ 20 := by
  rw [toRat_of_finite unpack_quotientTolerance, signed]
  norm_num

/-- The ends of a range are within `bound`, and not next to the greatest doubles. -/
structure EndsWithin (bound : ℚ) (low high : Float) : Prop where
  low_le : |toRat low| ≤ bound
  high_le : |toRat high| ≤ bound
  bound_le : bound ≤ 2 ^ (1000 : ℤ)

/-- How far the last exact step may be above the greatest value: a billionth of a step, which is the
tolerance of the count, but for rounding. -/
def overreach (step : Float) (bound : ℚ) : ℚ :=
  toRat step * (1001 / 10 ^ 12) + bound / 2 ^ 50 + 1 / 10 ^ 15

/-- The error of one operation in terms of steps of any size. -/
theorem abs_mul_sub_mul_le {x : Float} {q t : ℚ} (h : RoundsTo q x) (hx : x.isFinite = true)
    (ht : 0 < t) : |toRat x * t - q * t| ≤ |q * t| / 9007199254740992 + t / 10 ^ 20 := by
  have herror := mul_le_mul_of_nonneg_right (h.abs_sub_le_decimal hx) ht.le
  rw [← sub_mul, abs_mul, abs_mul, abs_of_pos ht]
  linarith

theorem isFinite_of_abs_le {x : Float} {q : ℚ} (h : RoundsTo q x)
    (hbound : bound ≤ 2 ^ (1000 : ℤ)) (hq : |q| ≤ 3 * bound + 1) : x.isFinite = true := by
  refine h.isFinite (hq.trans_lt ?_)
  have hpow : (2 : ℚ) ^ (1023 : ℤ) = 2 ^ (23 : ℤ) * 2 ^ (1000 : ℤ) :=
    zpow_add₀ two_ne_zero 23 1000
  have hone : (1 : ℚ) ≤ 2 ^ (1000 : ℤ) := one_le_zpow₀ one_le_two (by decide)
  rw [hpow]
  generalize (2 : ℚ) ^ (1000 : ℤ) = b at hbound hone ⊢
  norm_num
  linarith

/-- The steps that are counted reach at most a billionth of a step beyond the greatest value, but
for the errors of rounding. -/
theorem lastStep_le (hlow : low.isFinite = true) (hhigh : high.isFinite = true)
    (hstep : step.isFinite = true) (hpos : 0 < step) (hle : low ≤ high)
    (hends : EndsWithin bound low high) (hcount : floatCount low high step ≤ maxAxisValues) :
    exactAt low step (floatCount low high step - 1) ≤ toRat high + overreach step bound := by
  obtain ⟨hquotient, heq⟩ := floatCount_eq hcount
  have hS := (toRat_pos_iff hstep).2 hpos
  have hlowBound := abs_le.1 hends.low_le
  have hhighBound := abs_le.1 hends.high_le
  rw [le_iff_toRat hlow hhigh] at hle
  have htolerance := toRat_quotientTolerance_bounds
  -- The difference, the quotient and the sum, each with its error and all of them in steps.
  have hdifference := roundsTo_sub hhigh hlow
  have hdifferenceFinite : (high - low).isFinite = true :=
    isFinite_of_abs_le hdifference hends.bound_le (abs_le.2 ⟨by linarith, by linarith⟩)
  have hD := hdifference.abs_sub_le_decimal hdifferenceFinite
  have hdivided := roundsTo_div hdifferenceFinite hstep hS.ne'
  have hdividedFinite : ((high - low) / step).isFinite = true := by
    by_contra hlarge
    rw [add_eq_left hdivided.isNaN_eq_false hlarge isFinite_quotientTolerance] at hquotient
    exact hlarge hquotient
  have hQ := abs_mul_sub_mul_le hdivided hdividedFinite hS
  have hR :=
    abs_mul_sub_mul_le (roundsTo_add hdividedFinite isFinite_quotientTolerance) hquotient hS
  rw [div_mul_cancel₀ _ hS.ne'] at hQ
  rw [add_mul] at hR
  rw [exactAt, overreach, heq, Nat.add_sub_cancel]
  generalize toRat ((high - low) / step + 1e-9) = q at *
  generalize toRat ((high - low) / step) = r at *
  generalize toRat (high - low) = d at *
  generalize toRat (1e-9 : Float) = t at *
  generalize toRat step = s at *
  have hts : 0 ≤ t * s ∧ t * s ≤ (1 / 10 ^ 9 + 1 / 10 ^ 20) * s :=
    ⟨mul_nonneg htolerance.1.le hS.le, mul_le_mul_of_nonneg_right htolerance.2 hS.le⟩
  rw [abs_of_nonneg (sub_nonneg.2 hle), abs_le] at hD
  have hd : |d| ≤ (toRat high - toRat low) + (toRat high - toRat low) / 9007199254740992 +
      1 / 10 ^ 20 := abs_le.2 ⟨by linarith, by linarith⟩
  rw [abs_le] at hQ
  have hr : |r * s + t * s| ≤ |d| + |d| / 9007199254740992 + s * (10001 / 10 ^ 13) :=
    abs_le.2 ⟨by linarith [neg_abs_le d], by linarith [le_abs_self d]⟩
  rw [abs_le] at hR
  by_cases hnone : ⌊q⌋ ≤ 0
  · rw [Int.toNat_of_nonpos hnone, Nat.cast_zero, zero_mul]
    linarith
  · have hfloor : ((⌊q⌋.toNat : ℕ) : ℚ) ≤ q := by
      have hcast : (((⌊q⌋.toNat : ℕ) : ℤ) : ℚ) = (⌊q⌋ : ℚ) := by
        rw [Int.toNat_of_nonneg (by omega)]
      rw [Int.cast_natCast] at hcast
      rw [hcast]
      exact Int.floor_le q
    have hreach := mul_le_mul_of_nonneg_right hfloor hS.le
    linarith [le_abs_self d]

/-! ## The values -/

/-- What an accepted range of doubles has been checked for. -/
structure IsFloatRange (low high step : Float) (n : ℕ) : Prop where
  low_finite : low.isFinite = true
  high_finite : high.isFinite = true
  step_finite : step.isFinite = true
  step_pos : 0 < step
  low_le_high : low ≤ high
  length_eq : n = floatCount low high step
  length_le : n ≤ maxAxisValues

/-- How far a value may be from the exact one: half a unit of the tenth place, but for rounding. -/
def valueError (bound : ℚ) : ℚ := 52 / 10 ^ 12 + bound / 2 ^ 50

/-- How far the last exact step may be above a greatest value of ten places and is still rounded to
it: half a unit of the tenth place, but for rounding. -/
def room (bound : ℚ) : ℚ := 48 / 10 ^ 12 - bound / 2 ^ 50

namespace IsFloatRange

variable (h : IsFloatRange low high step n)

include h

theorem lt_pow (hi : i < n) : i < 2 ^ 53 := by
  have := h.length_le
  rw [maxAxisValues] at this
  omega

theorem toRat_step_pos : 0 < toRat step := (toRat_pos_iff h.step_finite).2 h.step_pos

theorem exactAt_mono (hij : i ≤ j) : exactAt low step i ≤ exactAt low step j := by
  have hcast : (i : ℚ) ≤ j := by exact_mod_cast hij
  have := mul_le_mul_of_nonneg_right hcast h.toRat_step_pos.le
  rw [exactAt, exactAt]
  linarith

theorem exactAt_le (hends : EndsWithin bound low high) (hi : i < n) :
    exactAt low step i ≤ toRat high + overreach step bound := by
  have hlast := lastStep_le h.low_finite h.high_finite h.step_finite h.step_pos h.low_le_high hends
    (h.length_eq ▸ h.length_le)
  rw [← h.length_eq] at hlast
  exact (h.exactAt_mono (by omega)).trans hlast

/-- All steps of a range together are not much longer than it. -/
theorem steps_le (hends : EndsWithin bound low high) (hi : i < n) :
    0 ≤ i * toRat step ∧ i * toRat step ≤ bound * (201 / 100) + 1 / 10 ^ 14 ∧
      |exactAt low step i| ≤ bound * (101 / 100) + 1 / 10 ^ 14 := by
  have hpos := h.toRat_step_pos
  have hle := h.exactAt_le hends hi
  have hlow := abs_le.1 hends.low_le
  have hhigh := abs_le.1 hends.high_le
  have hnonneg : 0 ≤ i * toRat step := by positivity
  rw [exactAt] at hle ⊢
  rw [overreach] at hle
  rcases Nat.eq_zero_or_pos i with rfl | hone
  · rw [Nat.cast_zero, zero_mul, add_zero]
    exact ⟨le_rfl, by linarith, abs_le.2 ⟨by linarith, by linarith⟩⟩
  · have hstep : toRat step ≤ i * toRat step :=
      le_mul_of_one_le_left hpos.le (by exact_mod_cast hone)
    exact ⟨hnonneg, by linarith, abs_le.2 ⟨by linarith, by linarith⟩⟩

/-- The sum before it is rounded to ten places. -/
theorem abs_sum_sub_le (hends : EndsWithin bound low high) (hi : i < n) :
    (low + step * Float.ofNat i).isFinite = true ∧
      |toRat (low + step * Float.ofNat i) - exactAt low step i| ≤
        bound * (31 / 10) / 2 ^ 53 + 1 / 10 ^ 18 := by
  obtain ⟨hnonneg, hsteps, hexact⟩ := h.steps_le hends hi
  have hlow := abs_le.1 hends.low_le
  have hbound : 0 ≤ bound := by linarith
  have hproduct := roundsTo_steps h.step_finite (h.lt_pow hi)
  have hproductFinite := isFinite_of_abs_le hproduct hends.bound_le
    (by rw [abs_of_nonneg hnonneg]; linarith)
  have hP := hproduct.abs_sub_le_decimal hproductFinite
  have hsum := roundsTo_add h.low_finite hproductFinite
  rw [exactAt] at hexact ⊢
  rw [abs_of_nonneg hnonneg, abs_le] at hP
  rw [abs_le] at hexact
  have hsize : |toRat low + toRat (step * Float.ofNat i)| ≤ bound * (102 / 100) + 1 / 10 ^ 13 :=
    abs_le.2 ⟨by linarith, by linarith⟩
  have hsumFinite := isFinite_of_abs_le hsum hends.bound_le (hsize.trans (by linarith))
  have hS := abs_le.1 (hsum.abs_sub_le_decimal hsumFinite)
  exact ⟨hsumFinite, abs_le.2 ⟨by linarith, by linarith⟩⟩

/-- A value is finite and next to the exact one. -/
theorem abs_floatAt_sub_le (hends : EndsWithin bound low high) (hi : i < n) :
    (floatAt low step i).isFinite = true ∧
      |toRat (floatAt low step i) - exactAt low step i| ≤ valueError bound := by
  obtain ⟨hfinite, hsum⟩ := h.abs_sum_sub_le hends hi
  obtain ⟨hrounded, hplaces⟩ := abs_roundTenPlaces_sub_le hfinite
  have hexact := (h.steps_le hends hi).2.2
  have hbound : 0 ≤ bound := (abs_nonneg _).trans hends.low_le
  have hsize : |toRat (low + step * Float.ofNat i)| ≤ bound * (102 / 100) + 1 / 10 ^ 13 := by
    rw [abs_le] at hsum hexact ⊢
    constructor <;> linarith
  refine ⟨hrounded, ?_⟩
  rw [floatAt, valueError]
  rw [abs_le] at hsum hplaces ⊢
  constructor <;> linarith

/-- If no exact step is further above the greatest value than ten places tell, and this has ten
places, no value is above it. -/
theorem floatAt_le (hends : EndsWithin bound low high) (hplaces : roundTenPlaces high = high)
    (hlast : exactAt low step (n - 1) ≤ toRat high + room bound) (hi : i < n) :
    floatAt low step i ≤ high := by
  obtain ⟨hfinite, hsum⟩ := h.abs_sum_sub_le hends hi
  have hexact := (h.exactAt_mono (show i ≤ n - 1 by omega)).trans hlast
  have hbound : 0 ≤ bound := (abs_nonneg _).trans hends.low_le
  rw [abs_le] at hsum
  rw [room] at hexact
  exact roundTenPlaces_le_of_near hfinite h.high_finite hplaces hends.high_le (by linarith)

/-- Steps that are large against the error lead to different values. -/
theorem floatAt_lt (hends : EndsWithin bound low high) (hlarge : 2 * valueError bound < toRat step)
    (hij : i < j) (hj : j < n) : floatAt low step i < floatAt low step j := by
  obtain ⟨hfinite, hi⟩ := h.abs_floatAt_sub_le hends (hij.trans hj)
  obtain ⟨hfinite', hj⟩ := h.abs_floatAt_sub_le hends hj
  have hgap : exactAt low step i + toRat step ≤ exactAt low step j := by
    have hnext : ((i + 1 : ℕ) : ℚ) ≤ j := by exact_mod_cast hij
    have := mul_le_mul_of_nonneg_right hnext h.toRat_step_pos.le
    rw [exactAt, exactAt]
    push_cast at this
    linarith
  rw [abs_le] at hi hj
  rw [lt_iff_toRat hfinite hfinite']
  linarith

end IsFloatRange

example : floatAt 0 1e-11 1 = floatAt 0 1e-11 2 := by decide +kernel

theorem isFloatRange_of_ofFloats {name : String} {axis : Axis}
    (h : ofFloats name low high step = .ok axis) :
    ∃ n, axis = floats low step n ∧ IsFloatRange low high step n := by
  rw [ofFloats] at h
  split at h
  · cases h
  · rename_i hstep
    split at h
    · cases h
    · rename_i hends
      dsimp only at h
      split at h
      · cases h
      · rename_i hcount
        cases h
        rw [not_or, not_not] at hends
        have hle := (not_lt_iff (isNaN_of_isFinite hends.1.1)).1 hends.2
        rw [not_not] at hstep
        refine ⟨_, rfl, hends.1.1, hends.1.2, hstep.1, hstep.2, hle.resolve_left ?_, rfl, by omega⟩
        rw [isNaN_of_isFinite hends.1.2]
        exact Bool.false_ne_true

/-- An axis of doubles comes from a range of finite ones with a positive step. -/
theorem isFloatRange_of_ofParamRange {name : String} {least greatest stride : ParamValue}
    (h : ofParamRange name (.range least greatest stride) = .ok (.floats low step n)) :
    ∃ high, least.float? = some low ∧ greatest.float? = some high ∧ stride.float? = some step ∧
      IsFloatRange low high step n := by
  simp only [ofParamRange, ofRange] at h
  split at h
  -- A range of integers has an axis of integers.
  · simp only [ofInts] at h
    split at h
    · cases h
    · split at h
      · cases h
      · split at h <;> cases h
  · split at h
    · rename_i hlow hhigh hstep
      obtain ⟨n, heq, hrange⟩ := isFloatRange_of_ofFloats h
      cases heq
      exact ⟨_, hlow, hhigh, hstep, hrange⟩
    · cases h

/-! ## What holds of a range -/

/-- Values that rise strictly between the ends of a range. -/
def RisesWithin (low high : Float) (axis : Axis) : Prop :=
  ∀ i < axis.length, ∃ x, axis.nth i = .float x ∧ low ≤ x ∧ x ≤ high ∧
    ∀ j < i, ∃ y, axis.nth j = .float y ∧ y < x

/-- The values of a range follow the exact steps: in order, from the least value as ten places have
it, and next to the exact ones, of which the last may be above the greatest value by the overreach.
They rise strictly between the ends if the steps are large against the error, the ends have ten
places and there is room for the last exact step, as there always is if the overreach is not more.
A last step that is further above the greatest value than the error leads to a value above it. -/
structure FollowsSteps (low high step : Float) (n : ℕ) : Prop where
  never_falls : ∀ i j, i ≤ j → j < n → floatAt low step i ≤ floatAt low step j
  from_low : ∀ i < n, roundTenPlaces low ≤ floatAt low step i
  first_le : floatAt low step 0 ≤ roundTenPlaces low
  near : ∀ bound, EndsWithin bound low high → ∀ i < n, (floatAt low step i).isFinite = true ∧
    |toRat (floatAt low step i) - exactAt low step i| ≤ valueError bound
  steps_le : ∀ bound, EndsWithin bound low high → ∀ i < n,
    exactAt low step i ≤ toRat high + overreach step bound
  distinct : ∀ bound, EndsWithin bound low high → 2 * valueError bound < toRat step →
    ∀ i j, i < j → j < n → floatAt low step i < floatAt low step j
  rises_within : ∀ bound, EndsWithin bound low high → 2 * valueError bound < toRat step →
    low ≤ roundTenPlaces low → roundTenPlaces high = high →
    (overreach step bound ≤ room bound ∨ exactAt low step (n - 1) ≤ toRat high + room bound) →
    RisesWithin low high (floats low step n)
  rises_above : ∀ bound, EndsWithin bound low high →
    toRat high + valueError bound < exactAt low step (n - 1) → high < floatAt low step (n - 1)

namespace IsFloatRange

variable (h : IsFloatRange low high step n)

include h

theorem length_pos : 0 < n := by
  have hcount := (floatCount_eq (h.length_eq ▸ h.length_le)).2
  have := h.length_eq
  omega

theorem risesWithin (hends : EndsWithin bound low high)
    (hlarge : 2 * valueError bound < toRat step) (hlow : low ≤ roundTenPlaces low)
    (hhigh : roundTenPlaces high = high)
    (hlast : exactAt low step (n - 1) ≤ toRat high + room bound) :
    RisesWithin low high (floats low step n) := by
  intro i hi
  refine ⟨_, nth_floats low step n i, ?_, h.floatAt_le hends hhigh hlast hi, fun j hj => ?_⟩
  · exact Binary64.le_trans hlow
      (roundTenPlaces_le_floatAt h.low_finite h.step_finite h.step_pos (h.lt_pow hi))
  · exact ⟨_, nth_floats low step n j, h.floatAt_lt hends hlarge hj hi⟩

theorem followsSteps : FollowsSteps low high step n where
  never_falls i j hij hj := floatAt_mono h.low_finite h.step_finite h.step_pos hij (h.lt_pow hj)
  from_low i hi := roundTenPlaces_le_floatAt h.low_finite h.step_finite h.step_pos (h.lt_pow hi)
  first_le := floatAt_zero_le h.low_finite h.step_finite
  near bound hends i hi := h.abs_floatAt_sub_le hends hi
  steps_le bound hends i hi := h.exactAt_le hends hi
  distinct bound hends hlarge i j hij hj := h.floatAt_lt hends hlarge hij hj
  rises_within bound hends hlarge hlow hhigh hlast := by
    refine h.risesWithin hends hlarge hlow hhigh (hlast.elim (fun hsmall => ?_) id)
    have := h.exactAt_le hends (Nat.sub_lt h.length_pos Nat.one_pos)
    linarith
  rises_above bound hends habove := by
    obtain ⟨hfinite, hnear⟩ := h.abs_floatAt_sub_le hends (Nat.sub_lt h.length_pos Nat.one_pos)
    rw [abs_le] at hnear
    rw [lt_iff_toRat h.high_finite hfinite]
    linarith

end IsFloatRange

/-- **Ranges of doubles follow their steps.** The values of every accepted range that has an axis of
doubles are those of its three numbers as doubles, and follow the exact steps. -/
theorem ofParamRange_floats {name : String} {least greatest stride : ParamValue}
    (h : ofParamRange name (.range least greatest stride) = .ok (.floats low step n)) :
    ∃ high, least.float? = some low ∧ greatest.float? = some high ∧ stride.float? = some step ∧
      FollowsSteps low high step n := by
  obtain ⟨high, hlow, hhigh, hstep, hrange⟩ := isFloatRange_of_ofParamRange h
  exact ⟨high, hlow, hhigh, hstep, hrange.followsSteps⟩

/-- One, two and three percent. -/
theorem ofParamRange_floats_percents :
    ofParamRange "take_profit_pct" (.range (.float 0.01) (.float 0.03) (.float 0.01)) =
        .ok (.floats 0.01 0.01 3) ∧
      RisesWithin 0.01 0.03 (.floats 0.01 0.01 3) := by
  have hrange : ofParamRange "take_profit_pct"
      (.range (.float 0.01) (.float 0.03) (.float 0.01)) = .ok (.floats 0.01 0.01 3) := by
    have hcount : floatCount 0.01 0.03 0.01 = 3 := by decide +kernel
    simp only [ofParamRange, ofRange, ParamValue.float?, ofFloats, hcount]
    rw [if_neg (by decide +kernel), if_neg (by decide +kernel), if_neg (by decide)]
  obtain ⟨high, -, hhigh, -, hfollows⟩ := ofParamRange_floats hrange
  cases hhigh
  have hunpackOne : (0.01 : Float).toModel.unpack =
      .finite .positive 5764607523034235 (-59) (by decide) := rfl
  have hunpackThree : (0.03 : Float).toModel.unpack =
      .finite .positive 8646911284551352 (-58) (by decide) := rfl
  have hone : toRat 0.01 = 5764607523034235 / 2 ^ 59 := by
    rw [toRat_of_finite hunpackOne, signed]
    norm_num
  have hthree : toRat 0.03 = 8646911284551352 / 2 ^ 58 := by
    rw [toRat_of_finite hunpackThree, signed]
    norm_num
  refine ⟨hrange, hfollows.rises_within 1 ⟨?_, ?_, ?_⟩ ?_ (by decide +kernel)
    (by decide +kernel) (.inl ?_)⟩
  · rw [hone]; norm_num
  · rw [hthree]; norm_num
  · exact one_le_zpow₀ one_le_two (by decide)
  · rw [hone, valueError]; norm_num
  · rw [overreach, room, hone]; norm_num

/-- The tolerance of the count lets a value above the greatest one in. -/
theorem not_all_rise_within :
    ¬ ∀ (name : String) (least greatest stride : ParamValue) (low high step : Float) (n : ℕ),
      least.float? = some low → greatest.float? = some high → stride.float? = some step →
      ofParamRange name (.range least greatest stride) = .ok (.floats low step n) →
      RisesWithin low high (.floats low step n) := by
  intro h
  have hcount : floatCount 0 0.9999999999 1 = 2 := by decide +kernel
  have hrange : ofParamRange "a" (.range (.float 0) (.float 0.9999999999) (.float 1)) =
      .ok (.floats 0 1 2) := by
    simp only [ofParamRange, ofRange, ParamValue.float?, ofFloats, hcount]
    rw [if_neg (by decide +kernel), if_neg (by decide +kernel), if_neg (by decide)]
  obtain ⟨x, hx, -, hle, -⟩ := h "a" (.float 0) (.float 0.9999999999) (.float 1) 0 0.9999999999 1 2
    rfl rfl rfl hrange 1 (by decide)
  rw [nth_floats, ParamValue.float.injEq] at hx
  subst hx
  exact absurd hle (by decide +kernel)

end Backtest.Axis
