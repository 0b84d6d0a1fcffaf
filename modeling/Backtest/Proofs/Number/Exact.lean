import Backtest.Proofs.Number.Integral

/-!
# Exact results and what they are rounded to

An operation on finite doubles takes the exact result, a rational number, to a double. Which one is
said by a relation that holds of a number and a double, so that nothing about operations is left in
it: the number has steps of a power of two around it, and the double is the nearest of them. The
order of numbers is therefore kept, also beyond the greatest double, a double is rounded to itself,
and the error is at most half a step.

## Main definitions

* `toRat` — the number that a finite double is.
* `RoundsTo` — what a number is rounded to.
* `RoundsTo.le` — rounding keeps the order.
* `RoundsTo.abs_sub_le` — the error of rounding.
* `roundsTo_add`, `roundsTo_sub`, `roundsTo_mul`, `roundsTo_div`, `roundsTo_ofNat` — the operations.
* `le_iff_toRat`, `lt_iff_toRat` — finite doubles compare as their numbers.
-/
namespace Backtest.Binary64

open Float.Model (UnpackedFloat Format)
open Float.Model.UnpackedFloat (Sign Accuracy)

variable {x y : Float} {p q : ℚ}

/-! ## Numbers with a sign -/

theorem abs_signed (s : Sign) (q : ℚ) : |signed s q| = |q| := by
  cases s with
  | positive => rfl
  | negative => exact abs_neg q

theorem signed_neg (s : Sign) (q : ℚ) : signed (-s) q = -signed s q := by
  cases s with
  | positive => rfl
  | negative => exact (neg_neg q).symm

theorem signed_mul (s t : Sign) (p q : ℚ) : signed (s * t) (p * q) = signed s p * signed t q := by
  cases s with
  | positive =>
    cases t with
    | positive => rfl
    | negative => exact (mul_neg p q).symm
  | negative =>
    cases t with
    | positive => exact (neg_mul p q).symm
    | negative => exact (neg_mul_neg p q).symm

theorem signed_div (s t : Sign) (p q : ℚ) : signed (s / t) (p / q) = signed s p / signed t q := by
  cases s with
  | positive =>
    cases t with
    | positive => rfl
    | negative => exact (div_neg p).symm
  | negative =>
    cases t with
    | positive => exact (neg_div q p).symm
    | negative => exact (neg_div_neg_eq p q).symm

/-- A sign applied to a whole number. -/
theorem signed_natCast (s : Sign) (n : ℕ) : signed s (n : ℚ) = ((s.apply (n : ℤ) : ℤ) : ℚ) := by
  cases s with
  | positive => rfl
  | negative => exact (Int.cast_neg (R := ℚ) n).symm

theorem signed_sub (s : Sign) (p q : ℚ) : signed s (p - q) = signed s p - signed s q := by
  cases s with
  | positive => rfl
  | negative => exact (neg_sub_neg p q ▸ neg_sub p q)

/-! ## The number that a double is -/

/-- The number that a finite double is; the others count as zero. -/
def toRat (x : Float) : ℚ := (exactValue? x).getD 0

theorem toRat_of_zero {s : Sign} (h : x.toModel.unpack = .zero s) : toRat x = 0 := by
  rw [toRat, exactValue?, h]
  rfl

theorem toRat_of_finite {s : Sign} {m : ℕ} {e : ℤ} {hm : 0 < m}
    (h : x.toModel.unpack = .finite s m e hm) : toRat x = signed s (m * 2 ^ e) := by
  rw [toRat, exactValue?, h]
  rfl

theorem toRat_neg (x : Float) : toRat (-x) = -toRat x := by
  rw [toRat, toRat, exactValue?, exactValue?, unpack_neg]
  cases x.toModel.unpack with
  | finite s m e hm => exact signed_neg s _
  | _ => exact neg_zero.symm

theorem isFinite_neg (hx : x.isFinite = true) : (-x).isFinite = true := by
  rw [isFinite_iff] at hx ⊢
  rw [unpack_neg]
  cases h : x.toModel.unpack with
  | notANumber => rw [h] at hx; cases hx
  | infinity s => rw [h] at hx; cases hx
  | _ => rfl

/-! ## The steps around a number -/

/-- The exponent of the steps in which the doubles around a number follow each other. -/
def stepExponent (q : ℚ) : ℤ :=
  if q = 0 then -1074 else Max.max (Int.log 2 |q| - 52) (-1074)

theorem stepExponent_neg (q : ℚ) : stepExponent (-q) = stepExponent q := by
  simp only [stepExponent, neg_eq_zero, abs_neg]

theorem le_stepExponent (q : ℚ) : -1074 ≤ stepExponent q := by
  rw [stepExponent]
  split <;> omega

theorem abs_lt_pow_stepExponent (q : ℚ) : |q| < 2 ^ (stepExponent q + 53) := by
  rw [stepExponent]
  split
  · rename_i hzero
    rw [hzero, abs_zero]
    positivity
  · exact (Int.lt_zpow_succ_log_self one_lt_two |q|).trans_le
      (zpow_le_zpow_right₀ one_le_two (by omega))

theorem pow_stepExponent_le (h : -1074 < stepExponent q) : 2 ^ (stepExponent q + 52) ≤ |q| := by
  rw [stepExponent] at h ⊢
  split at h
  · omega
  · rename_i hne
    rw [if_neg hne, show Max.max (Int.log 2 |q| - 52) (-1074) + 52 = Int.log 2 |q| by omega]
    exact Int.zpow_log_le_self one_lt_two (by positivity)

/-- The steps around a number are the only ones it has enough, and not too many, of. -/
theorem stepExponent_le {k : ℤ} (hk : -1074 ≤ k) (hq : |q| < 2 ^ (k + 53)) :
    stepExponent q ≤ k := by
  by_contra h
  have hlarge := pow_stepExponent_le (q := q) (by omega)
  have hpow := (zpow_lt_zpow_iff_right₀ (one_lt_two (α := ℚ))).1 (hlarge.trans_lt hq)
  omega

theorem stepExponent_mono (h : |p| ≤ |q|) : stepExponent p ≤ stepExponent q :=
  stepExponent_le (le_stepExponent q) (h.trans_lt (abs_lt_pow_stepExponent q))

theorem stepExponent_eq {M r n : ℕ} {E : ℤ} (hr : r < n) (hE : E ≤ roundedExponent M E)
    (hq : |q| = (M + r / n) * 2 ^ E) : stepExponent q = roundedExponent M E := by
  refine le_antisymm ?_ (roundedExponent_le hr hE (le_stepExponent q) ?_)
  · by_cases hleast : stepExponent q ≤ -1074
    · exact hleast.trans (Int.le_max_right _ _)
    · refine le_roundedExponent_of_le hr ?_
      rw [← hq]
      exact pow_stepExponent_le (not_le.1 hleast)
  · rw [← hq]
    exact abs_lt_pow_stepExponent q

/-! ## Rounding -/

/-- A double is what a number is rounded to: the nearest number of steps, with its sign, and
infinite if that is too large. -/
def RoundsTo (q : ℚ) (x : Float) : Prop :=
  ∃ s m, q = signed s |q| ∧ IsNearest m (|q| / 2 ^ stepExponent q) ∧
    x.toModel.unpack = overflowed (carried s m (stepExponent q))

theorem isNearest_natCast (n : ℕ) : IsNearest n n :=
  ⟨by linarith, by linarith, fun _ => ⟨by linarith, by linarith⟩⟩

theorem roundsTo_of_zero {s : Sign} (h : x.toModel.unpack = .zero s) : RoundsTo 0 x := by
  refine ⟨s, 0, ?_, ?_, h⟩
  · cases s with
    | positive => exact abs_zero.symm
    | negative => exact (neg_eq_zero.2 abs_zero).symm
  · rw [abs_zero, zero_div]
    exact_mod_cast isNearest_natCast 0

/-- A magnitude with what is cut off is rounded to the nearest. -/
theorem roundsTo_of_roundWithAccuracy {s : Sign} {M r n : ℕ} {E : ℤ} (hr : r < n)
    (hE : E ≤ roundedExponent M E) (hq : q = signed s ((M + r / n) * 2 ^ E))
    (hx : x.toModel.unpack = overflowed (UnpackedFloat.roundWithAccuracy Format.binary64 s M E
      (UnpackedFloat.accuracyOfFraction r n))) : RoundsTo q x := by
  have habs : |q| = (M + r / n) * 2 ^ E := by
    rw [hq, abs_signed]
    exact abs_of_nonneg (by positivity)
  have hexponent := stepExponent_eq hr hE habs
  refine ⟨s, _, by rw [habs]; exact hq, ?_, by rw [hx, roundWithAccuracy_eq s _ hE, hexponent]⟩
  rw [habs, hexponent]
  exact isNearest_roundedMantissa hr hE

/-- An exact magnitude is rounded to the nearest. -/
theorem roundsTo_of_exact {s : Sign} {M : ℕ} {E : ℤ} (hE : E ≤ roundedExponent M E)
    (hq : q = signed s (M * 2 ^ E))
    (hx : x.toModel.unpack =
      overflowed (UnpackedFloat.roundWithAccuracy Format.binary64 s M E .exact)) :
    RoundsTo q x := by
  have hexact : UnpackedFloat.accuracyOfFraction 0 1 = .exact := rfl
  rw [← hexact] at hx
  exact roundsTo_of_roundWithAccuracy Nat.one_pos hE (by simpa using hq) hx

/-- A finite double is rounded to itself. -/
theorem roundsTo_toRat (hx : x.isFinite = true) : RoundsTo (toRat x) x := by
  have hcanonical := canonical_unpack x
  rw [isFinite_iff] at hx
  cases h : x.toModel.unpack with
  | notANumber => rw [h] at hx; cases hx
  | infinity s => rw [h] at hx; cases hx
  | zero s =>
    rw [toRat_of_zero h]
    exact roundsTo_of_zero h
  | finite s m e hm =>
    rw [h] at hcanonical
    refine roundsTo_of_exact (le_roundedExponent (hcanonical.2.2.2.imp_left Eq.le))
      (toRat_of_finite h) ?_
    rw [h, roundWithAccuracy_canonical hcanonical, overflowed_of_isCanonical hcanonical]

/-- What a double is rounded to depends on its parts only. -/
theorem RoundsTo.of_unpack_eq (h : RoundsTo q x) (heq : y.toModel.unpack = x.toModel.unpack) :
    RoundsTo q y := by
  obtain ⟨s, m, hs, hm, hx⟩ := h
  exact ⟨s, m, hs, hm, heq.trans hx⟩

theorem neg_carried (s : Sign) (m : ℕ) (e : ℤ) : (carried s m e).neg = carried (-s) m e := by
  rw [carried, carried]
  split
  · rfl
  · split <;> rfl

theorem neg_overflowed (u : UnpackedFloat) : (overflowed u).neg = overflowed u.neg := by
  cases u with
  | finite s m e hm =>
    rw [UnpackedFloat.neg, overflowed, overflowed]
    split <;> rfl
  | _ => rfl

theorem RoundsTo.neg (h : RoundsTo q x) : RoundsTo (-q) (-x) := by
  obtain ⟨s, m, hs, hm, hx⟩ := h
  refine ⟨-s, m, ?_, ?_, ?_⟩
  · rw [abs_neg, signed_neg, ← hs]
  · rwa [abs_neg, stepExponent_neg]
  · rw [unpack_neg, hx, neg_overflowed, neg_carried, stepExponent_neg]

/-- No number is rounded to NaN. -/
theorem RoundsTo.isNaN_eq_false (h : RoundsTo q x) : x.isNaN = false := by
  obtain ⟨s, m, -, -, hx⟩ := h
  exact isNaN_of_hasSign (hx ▸ (hasSign_carried s m _).overflowed)

/-! ## The order -/

theorem IsNearest.mono {m n : ℕ} (hm : IsNearest m p) (hn : IsNearest n q) (h : p ≤ q) :
    m ≤ n := by
  by_contra hlt
  have hlower := hm.lower
  have hupper := hn.upper
  have hnext : m = n + 1 := by
    have : (m : ℚ) ≤ n + 1 := by linarith
    have : m ≤ n + 1 := by exact_mod_cast this
    omega
  rw [hnext] at hlower
  push_cast at hlower
  -- Both numbers would lie halfway between `n` and `n + 1`, of which one is odd.
  rcases Nat.mod_two_eq_zero_or_one n with hbit | hbit
  · have := (hm.strict (by omega)).1
    rw [hnext] at this
    push_cast at this
    linarith
  · have := (hn.strict hbit).2
    linarith

/-- The steps of a rounded number are those of a double, but for a carry. -/
theorem IsNearest.bounds {m : ℕ} (h : IsNearest m (|q| / 2 ^ stepExponent q)) :
    m ≤ 9007199254740992 ∧ (-1074 < stepExponent q → 4503599627370496 ≤ m) := by
  have hstep : (0 : ℚ) < 2 ^ stepExponent q := by positivity
  constructor
  · have hlt : |q| / 2 ^ stepExponent q < 9007199254740992 := by
      have := abs_lt_pow_stepExponent q
      rw [zpow_add₀ two_ne_zero] at this
      rw [div_lt_iff₀ hstep]
      linarith
    have hlower := h.lower
    have : (m : ℚ) < 9007199254740993 := by linarith
    exact Nat.le_of_lt_succ (by exact_mod_cast this)
  · intro hleast
    have hle : 4503599627370496 ≤ |q| / 2 ^ stepExponent q := by
      have := pow_stepExponent_le hleast
      rw [zpow_add₀ two_ne_zero] at this
      rw [le_div_iff₀ hstep]
      linarith
    have hupper := h.upper
    have : (4503599627370495 : ℚ) < m := by linarith
    exact_mod_cast this

/-- The place of a rounded number counts its steps, up to infinity. -/
theorem RoundsTo.place_eq (h : RoundsTo q x) (hq : 0 ≤ q) :
    ∃ m : ℕ, IsNearest m (|q| / 2 ^ stepExponent q) ∧ place x =
      Min.min ((stepExponent q + 1074) * 4503599627370496 + m) 9218868437227405312 := by
  have hnan := h.isNaN_eq_false
  obtain ⟨s, m, hs, hm, hx⟩ := h
  refine ⟨m, hm, ?_⟩
  rw [← unpack_place hnan, hx]
  cases s with
  | positive =>
    exact unpackedPlace_carried hm.bounds.1 (le_stepExponent q) hm.bounds.2
  | negative =>
    have hzero : q = 0 := le_antisymm (hs ▸ neg_nonpos.2 (abs_nonneg q)) hq
    subst hzero
    rw [abs_zero, zero_div] at hm
    obtain rfl : m = 0 := hm.eq (by exact_mod_cast isNearest_natCast 0)
    rfl

/-- A larger positive number has no smaller place. -/
theorem RoundsTo.place_mono (hp : RoundsTo p x) (hq : RoundsTo q y) (hp0 : 0 ≤ p) (h : p ≤ q) :
    0 ≤ place x ∧ place x ≤ place y := by
  have habs : |p| ≤ |q| := by rwa [abs_of_nonneg hp0, abs_of_nonneg (hp0.trans h)]
  obtain ⟨m, hm, hx⟩ := hp.place_eq hp0
  obtain ⟨n, hn, hy⟩ := hq.place_eq (hp0.trans h)
  have hleast := le_stepExponent p
  rw [hx, hy]
  refine ⟨by omega, ?_⟩
  rcases Int.lt_or_eq_of_le (stepExponent_mono habs) with hlt | heq
  · have hm' := hm.bounds.1
    have hn' := hn.bounds.2 (by omega)
    omega
  · rw [heq] at hm
    have := hm.mono hn (div_le_div_of_nonneg_right habs (by positivity))
    omega

/-- Rounding keeps the order. -/
theorem RoundsTo.le (hp : RoundsTo p x) (hq : RoundsTo q y) (h : p ≤ q) : x ≤ y := by
  rw [le_iff_place hp.isNaN_eq_false hq.isNaN_eq_false]
  by_cases hp0 : 0 ≤ p
  · exact (hp.place_mono hq hp0 h).2
  · have hnegx := hp.neg.place_mono hp.neg (by linarith) le_rfl
    rw [place_neg hp.isNaN_eq_false] at hnegx
    by_cases hq0 : 0 ≤ q
    · have := (hq.place_mono hq hq0 le_rfl).1
      omega
    · have hneg := (hq.neg.place_mono hp.neg (by linarith) (by linarith)).2
      rw [place_neg hp.isNaN_eq_false, place_neg hq.isNaN_eq_false] at hneg
      omega

/-- The finite doubles are those between the infinities. -/
theorem isFinite_iff_place (hx : x.isNaN = false) :
    x.isFinite = true ↔ -9218868437227405312 < place x ∧ place x < 9218868437227405312 := by
  have hcanonical := canonical_unpack x
  have hnan : x.toModel.unpack.isNaN = false := hx
  rw [isFinite_iff, ← unpack_place hx]
  cases h : x.toModel.unpack with
  | notANumber => rw [h] at hnan; cases hnan
  | infinity s =>
    refine iff_of_false (by rintro ⟨⟩) ?_
    rw [unpackedPlace_infinity]
    cases s <;> dsimp only [Sign.apply] <;> omega
  | zero s => exact iff_of_true rfl (by rw [unpackedPlace_zero]; omega)
  | finite s m e hm =>
    rw [h, isCanonical_finite] at hcanonical
    refine iff_of_true rfl ?_
    rw [unpackedPlace_finite]
    cases s <;> dsimp only [Sign.apply] <;> omega

/-- A double between finite ones is finite. -/
theorem isFinite_of_le_of_le {z : Float} (hx : x.isFinite = true) (hz : z.isFinite = true)
    (hxy : x ≤ y) (hyz : y ≤ z) : y.isFinite = true := by
  have hnan := isNaN_of_le hxy
  have hnan' := isNaN_of_le hyz
  rw [isFinite_iff_place hnan.1] at hx
  rw [isFinite_iff_place hnan'.2] at hz
  rw [le_iff_place hnan.1 hnan.2] at hxy
  rw [le_iff_place hnan'.1 hnan'.2] at hyz
  rw [isFinite_iff_place hnan.2]
  omega

theorem toRat_zero : toRat 0 = 0 := toRat_of_zero unpack_zero

theorem toRat_negZero : toRat (-0.0) = 0 := toRat_of_zero unpack_negZero

/-- Doubles at one place are one number. -/
theorem toRat_eq_of_place_eq (h : place x = place y) : toRat x = toRat y := by
  rcases eq_or_zero_of_place_eq h with rfl | ⟨rfl, rfl⟩ | ⟨rfl, rfl⟩
  · rfl
  · rw [toRat_zero, toRat_negZero]
  · rw [toRat_zero, toRat_negZero]

/-- Finite doubles compare as their numbers. -/
theorem le_iff_toRat (hx : x.isFinite = true) (hy : y.isFinite = true) :
    x ≤ y ↔ toRat x ≤ toRat y := by
  refine ⟨fun h => ?_, fun h => (roundsTo_toRat hx).le (roundsTo_toRat hy) h⟩
  by_contra hlt
  have hnan := isNaN_of_le h
  have hle := (roundsTo_toRat hy).le (roundsTo_toRat hx) (not_le.1 hlt).le
  rw [le_iff_place hnan.1 hnan.2] at h
  rw [le_iff_place hnan.2 hnan.1] at hle
  exact hlt (toRat_eq_of_place_eq (Int.le_antisymm h hle)).le

theorem lt_iff_toRat (hx : x.isFinite = true) (hy : y.isFinite = true) :
    x < y ↔ toRat x < toRat y := by
  rw [← not_le, ← le_iff_toRat hy hx, lt_iff_place (isNaN_of_isFinite hx) (isNaN_of_isFinite hy),
    le_iff_place (isNaN_of_isFinite hy) (isNaN_of_isFinite hx), Int.not_le]

theorem toRat_pos_iff (hx : x.isFinite = true) : 0 < toRat x ↔ 0 < x := by
  rw [lt_iff_toRat (by decide) hx, toRat_zero]

/-! ## The error -/

/-- The number of a carried mantissa. -/
theorem toRat_of_carried {s : Sign} {m : ℕ} {e : ℤ} (hx : x.isFinite = true)
    (h : x.toModel.unpack = overflowed (carried s m e)) : toRat x = signed s (m * 2 ^ e) := by
  rw [isFinite_iff, h] at hx
  have hstays : overflowed (carried s m e) = carried s m e := by
    cases hc : carried s m e with
    | finite t n f hn =>
      rw [hc, overflowed] at hx
      rw [overflowed]
      split
      · rename_i hlarge
        rw [if_pos hlarge] at hx
        cases hx
      · rfl
    | _ => rfl
  rw [hstays, carried] at h
  split at h
  · rename_i hzero
    rw [toRat_of_zero h, hzero, Nat.cast_zero, zero_mul]
    cases s <;> rfl
  · split at h
    · rename_i hcarry
      rw [toRat_of_finite h, hcarry, zpow_add_one₀ two_ne_zero]
      congr 1
      push_cast
      ring
    · exact toRat_of_finite h

/-- A number is at most half a step away from what it is rounded to. -/
theorem RoundsTo.abs_sub_le_step (h : RoundsTo q x) (hx : x.isFinite = true) :
    |toRat x - q| ≤ 2 ^ stepExponent q / 2 := by
  obtain ⟨s, m, hs, hm, hu⟩ := h
  have hstep : (0 : ℚ) < 2 ^ stepExponent q := by positivity
  have hlower := hm.lower
  have hupper := hm.upper
  rw [← mul_div_assoc, le_div_iff₀ hstep] at hlower
  rw [← mul_div_assoc, div_le_iff₀ hstep] at hupper
  have hsigned : toRat x - q = signed s (m * 2 ^ stepExponent q - |q|) := by
    rw [signed_sub, ← hs, toRat_of_carried hx hu]
  rw [hsigned, abs_signed, abs_le]
  constructor <;> linarith

/-- Above the least steps the error of rounding is relative. -/
theorem RoundsTo.abs_sub_le_relative (h : RoundsTo q x) (hx : x.isFinite = true)
    (hleast : -1074 < stepExponent q) : |toRat x - q| ≤ |q| * 2 ^ (-53 : ℤ) := by
  have hlarge := pow_stepExponent_le hleast
  have hhalf : (2 : ℚ) ^ stepExponent q / 2 = 2 ^ (stepExponent q + 52) * 2 ^ (-53 : ℤ) := by
    rw [← zpow_add₀ two_ne_zero, div_eq_mul_inv, ← zpow_sub_one₀ two_ne_zero]
    congr 1
    ring
  refine (h.abs_sub_le_step hx).trans ?_
  rw [hhalf]
  exact mul_le_mul_of_nonneg_right hlarge (by positivity)

/-- The relative error of rounding is at most `2 ^ (-53)`, but for half of the least double. -/
theorem RoundsTo.abs_sub_le (h : RoundsTo q x) (hx : x.isFinite = true) :
    |toRat x - q| ≤ |q| * 2 ^ (-53 : ℤ) + 2 ^ (-1075 : ℤ) := by
  rcases Int.lt_or_eq_of_le (le_stepExponent q) with hleast | hleast
  · exact (h.abs_sub_le_relative hx hleast).trans (le_add_of_nonneg_right (by positivity))
  · refine (h.abs_sub_le_step hx).trans ?_
    rw [← hleast, div_eq_mul_inv, ← zpow_sub_one₀ two_ne_zero]
    exact le_add_of_nonneg_left (by positivity)

/-- The error in decimals, for sizes at which the part that does not depend on them is
negligible. -/
theorem RoundsTo.abs_sub_le_decimal (h : RoundsTo q x) (hx : x.isFinite = true) :
    |toRat x - q| ≤ |q| / 9007199254740992 + 1 / 10 ^ 20 := by
  have hrelative : (2 : ℚ) ^ (-53 : ℤ) = 1 / 9007199254740992 := by norm_num
  have hleast : (2 : ℚ) ^ (-1075 : ℤ) ≤ 1 / 10 ^ 20 :=
    calc (2 : ℚ) ^ (-1075 : ℤ) ≤ 2 ^ (-70 : ℤ) := zpow_le_zpow_right₀ one_le_two (by decide)
      _ ≤ 1 / 10 ^ 20 := by norm_num
  have herror := h.abs_sub_le hx
  rw [hrelative, mul_one_div] at herror
  exact herror.trans (add_le_add_right hleast _)

/-- A whole number of steps is not changed. -/
theorem RoundsTo.toRat_eq (h : RoundsTo q x) (hx : x.isFinite = true) {k : ℕ}
    (hk : |q| = k * 2 ^ stepExponent q) : toRat x = q := by
  obtain ⟨s, m, hs, hm, hu⟩ := h
  rw [hk, mul_div_cancel_right₀ _ (by positivity)] at hm
  obtain rfl : m = k := hm.eq (isNearest_natCast k)
  rw [toRat_of_carried hx hu, ← hk, ← hs]

/-- A number that is not too large is rounded to a finite double. -/
theorem RoundsTo.isFinite (h : RoundsTo q x) (hq : |q| < 2 ^ (1023 : ℤ)) : x.isFinite = true := by
  obtain ⟨s, m, -, -, hx⟩ := h
  have hexponent : stepExponent q ≤ 970 := stepExponent_le (by decide) hq
  rw [isFinite_iff, hx, carried]
  split
  · rfl
  · split
    · rw [overflowed, if_neg (by omega)]
      rfl
    · rw [overflowed, if_neg (by omega)]
      rfl

/-- A whole number of units for which 53 bits are enough is a double. -/
theorem RoundsTo.exact_of_units (h : RoundsTo q x) {k : ℕ} {e : ℤ} (hleast : -1074 ≤ e)
    (hmost : e ≤ 970) (hk : |q| = k * 2 ^ e) (hq : |q| < 2 ^ (e + 53)) :
    x.isFinite = true ∧ toRat x = q := by
  have hfinite := h.isFinite (hq.trans_le (zpow_le_zpow_right₀ one_le_two (by omega)))
  have hexponent := stepExponent_le hleast hq
  refine ⟨hfinite, h.toRat_eq hfinite (k := k * 2 ^ (e - stepExponent q).toNat) ?_⟩
  rw [hk, Nat.cast_mul, Nat.cast_pow, Nat.cast_ofNat, mul_assoc, ← zpow_natCast,
    ← zpow_add₀ two_ne_zero, Int.toNat_of_nonneg (by omega), sub_add_cancel]

/-! ## The operations -/

theorem roundsTo_mul (hx : x.isFinite = true) (hy : y.isFinite = true) :
    RoundsTo (toRat x * toRat y) (x * y) := by
  have hunpack := unpack_mul x y
  rcases isFinite_cases hx with ⟨s, h⟩ | ⟨s, m, e, hm, h, hu⟩
  · rw [toRat_of_zero h, zero_mul]
    rcases isFinite_cases hy with ⟨t, h'⟩ | ⟨t, n, f, hn, h', -⟩ <;>
      exact roundsTo_of_zero (s := s * t) (by rw [hunpack, h, h']; rfl)
  · rcases isFinite_cases hy with ⟨t, h'⟩ | ⟨t, n, f, hn, h', hv⟩
    · rw [toRat_of_zero h', mul_zero]
      exact roundsTo_of_zero (s := s * t) (by rw [hunpack, h, h']; rfl)
    · refine roundsTo_of_exact (s := s * t) (le_roundedExponent_mul hu hv) ?_
        (by rw [hunpack, h, h']; rfl)
      rw [toRat_of_finite h, toRat_of_finite h', ← signed_mul, zpow_add₀ two_ne_zero]
      congr 1
      push_cast
      ring

theorem roundsTo_div (hx : x.isFinite = true) (hy : y.isFinite = true) (hy0 : toRat y ≠ 0) :
    RoundsTo (toRat x / toRat y) (x / y) := by
  have hunpack := unpack_div x y
  rcases isFinite_cases hy with ⟨t, h'⟩ | ⟨t, n, f, hn, h', hv⟩
  · exact absurd (toRat_of_zero h') hy0
  rcases isFinite_cases hx with ⟨s, h⟩ | ⟨s, m, e, hm, h, hu⟩
  · rw [toRat_of_zero h, zero_div]
    exact roundsTo_of_zero (s := s / t) (by rw [hunpack, h, h']; rfl)
  · rw [h, h', UnpackedFloat.div, divCore_eq] at hunpack
    refine roundsTo_of_roundWithAccuracy (Nat.mod_lt _ hn)
      (le_roundedExponent_div hm.ne' hn.ne' e f) ?_ hunpack
    rw [quotient_value m hn (quotientExponent_le m e n f), signed_div, ← toRat_of_finite h,
      ← toRat_of_finite h']

/-- The signed mantissas of a sum stand for it. -/
theorem sumMantissa_value (s : Sign) (m : ℕ) (e : ℤ) (t : Sign) (n : ℕ) (f : ℤ) :
    (sumMantissa s m e t n f : ℚ) * 2 ^ Min.min e f =
      signed s (m * 2 ^ e) + signed t (n * 2 ^ f) := by
  have hscale : ∀ (s : Sign) (m : ℕ) (e g : ℤ), g ≤ e →
      ((s.apply (m * 2 ^ (e - g).toNat : ℕ) : ℤ) : ℚ) * 2 ^ g = signed s (m * 2 ^ e) := by
    intro s m e g hg
    have hpow : ((m * 2 ^ (e - g).toNat : ℕ) : ℚ) * 2 ^ g = m * 2 ^ e := by
      rw [Nat.cast_mul, Nat.cast_pow, Nat.cast_ofNat, mul_assoc, ← zpow_natCast,
        ← zpow_add₀ two_ne_zero, Int.toNat_of_nonneg (by omega), sub_add_cancel]
    rw [← signed_natCast, ← hpow]
    cases s with
    | positive => rfl
    | negative => exact neg_mul _ _
  rw [sumMantissa, Int.cast_add, add_mul, hscale s m e _ (Int.min_le_left _ _),
    hscale t n f _ (Int.min_le_right _ _)]

/-- A signed mantissa is rounded once. -/
theorem roundsTo_of_normalize {M : ℤ} {e : ℤ} {z : Sign} (hq : q = M * 2 ^ e)
    (hx : x.toModel.unpack = overflowed (UnpackedFloat.normalize Format.binary64 M e z)) :
    RoundsTo q x := by
  have hround : ∀ (s : Sign) (m : ℕ), m ≠ 0 → q = signed s (m * 2 ^ e) →
      x.toModel.unpack = overflowed (UnpackedFloat.round Format.binary64 s m e) →
      RoundsTo q x := by
    intro s m hm hq hx
    obtain ⟨k, -, hk, heq⟩ := round_eq s hm e
    rw [heq] at hx
    refine roundsTo_of_exact hk ?_ hx
    rw [hq]
    congr 1
    rw [Nat.cast_mul, Nat.cast_pow, Nat.cast_ofNat, mul_assoc, ← zpow_natCast,
      ← zpow_add₀ two_ne_zero, add_sub_cancel]
  rw [UnpackedFloat.normalize] at hx
  rcases Int.lt_trichotomy M 0 with h | h | h
  · rw [Int.compare_eq_lt.2 h] at hx
    refine hround .negative (-M).toNat (by omega) ?_ hx
    rw [hq, signed, ← neg_mul]
    congr 1
    have : (((-M).toNat : ℤ) : ℚ) = ((-M : ℤ) : ℚ) := by rw [Int.toNat_of_nonneg (by omega)]
    push_cast at this
    linarith
  · rw [Int.compare_eq_eq.2 h] at hx
    rw [hq, h, Int.cast_zero, zero_mul]
    exact roundsTo_of_zero hx
  · rw [Int.compare_eq_gt.2 h] at hx
    refine hround .positive M.toNat (by omega) ?_ hx
    rw [hq, signed]
    congr 1
    have : ((M.toNat : ℤ) : ℚ) = (M : ℚ) := by rw [Int.toNat_of_nonneg (by omega)]
    push_cast at this
    linarith

theorem roundsTo_add (hx : x.isFinite = true) (hy : y.isFinite = true) :
    RoundsTo (toRat x + toRat y) (x + y) := by
  have hunpack := unpack_add x y
  rcases isFinite_cases hx with ⟨s, h⟩ | ⟨s, m, e, hm, h, hu⟩
  · rw [toRat_of_zero h, zero_add]
    rcases isFinite_cases hy with ⟨t, h'⟩ | ⟨t, n, f, hn, h', hv⟩
    · rw [toRat_of_zero h']
      rw [h, h', UnpackedFloat.add] at hunpack
      cases s <;> cases t <;> exact roundsTo_of_zero hunpack
    · refine (roundsTo_toRat hy).of_unpack_eq ?_
      rw [hunpack, h, h']
      exact overflowed_of_isCanonical hv
  · rcases isFinite_cases hy with ⟨t, h'⟩ | ⟨t, n, f, hn, h', hv⟩
    · rw [toRat_of_zero h', add_zero]
      refine (roundsTo_toRat hx).of_unpack_eq ?_
      rw [hunpack, h, h']
      exact overflowed_of_isCanonical hu
    · rw [h, h', add_finite] at hunpack
      refine roundsTo_of_normalize ?_ hunpack
      rw [sumMantissa_value, toRat_of_finite h, toRat_of_finite h']

theorem roundsTo_sub (hx : x.isFinite = true) (hy : y.isFinite = true) :
    RoundsTo (toRat x - toRat y) (x - y) := by
  have hsum := roundsTo_add hx (isFinite_neg hy)
  rw [toRat_neg, ← SubNegMonoid.sub_eq_add_neg] at hsum
  refine hsum.of_unpack_eq ?_
  rw [unpack_sub, unpack_add, sub_eq_add_neg, unpack_neg]

theorem roundsTo_ofNat (n : ℕ) : RoundsTo n (Float.ofNat n) := by
  refine roundsTo_of_normalize (M := n) (e := 0) ?_ (unpack_ofNat n)
  rw [zpow_zero, MulOneClass.mul_one, Int.cast_natCast]

/-- A whole number of 53 bits is a double. -/
theorem ofNat_exact {n : ℕ} (hn : n < 2 ^ 53) :
    (Float.ofNat n).isFinite = true ∧ toRat (Float.ofNat n) = n := by
  refine (roundsTo_ofNat n).exact_of_units (k := n) (e := 0) (by decide) (by decide) ?_ ?_
  · rw [Nat.abs_cast, zpow_zero, MulOneClass.mul_one]
  · rw [Nat.abs_cast]
    exact_mod_cast hn

/-! ## Beyond the greatest double -/

/-- Finite doubles are below `2 ^ 1024`. -/
theorem abs_toRat_lt (hx : x.isFinite = true) : |toRat x| < 2 ^ (1024 : ℤ) := by
  rcases isFinite_cases hx with ⟨s, h⟩ | ⟨s, m, e, hm, h, -, hlarge, hm', -⟩
  · rw [toRat_of_zero h, abs_zero]
    positivity
  · have hmantissa : (m : ℚ) < 2 ^ (53 : ℤ) := by exact_mod_cast hm'
    rw [toRat_of_finite h, abs_signed, abs_of_nonneg (by positivity)]
    calc (m : ℚ) * 2 ^ e < 2 ^ (53 : ℤ) * 2 ^ e := mul_lt_mul_of_pos_right hmantissa (by positivity)
      _ = 2 ^ (53 + e) := (zpow_add₀ two_ne_zero _ _).symm
      _ ≤ 2 ^ (1024 : ℤ) := zpow_le_zpow_right₀ one_le_two (by omega)

/-- What is neither NaN nor finite is an infinity. -/
theorem exists_unpack_eq_infinity (hnan : x.isNaN = false) (hx : ¬ x.isFinite = true) :
    ∃ s, x.toModel.unpack = .infinity s := by
  change x.toModel.unpack.isNaN = false at hnan
  rw [isFinite_iff] at hx
  cases h : x.toModel.unpack with
  | notANumber => rw [h] at hnan; cases hnan
  | infinity s => exact ⟨s, rfl⟩
  | _ => rw [h] at hx; exact absurd rfl hx

/-- The infinities stand at both ends of the line. -/
theorem place_bounds (hnan : x.isNaN = false) :
    -9218868437227405312 ≤ place x ∧ place x ≤ 9218868437227405312 := by
  by_cases hfinite : x.isFinite = true
  · have := (isFinite_iff_place hnan).1 hfinite
    omega
  · obtain ⟨s, hs⟩ := exists_unpack_eq_infinity hnan hfinite
    rw [← unpack_place hnan, hs, unpackedPlace_infinity]
    cases s <;> decide

/-- A double that is at least a finite one, and not finite itself, is the largest. -/
theorem le_of_upper_not_isFinite {z : Float} (hx : x.isFinite = true) (hxy : x ≤ y)
    (hy : ¬ y.isFinite = true) (hz : z.isNaN = false) : z ≤ y := by
  have hnan := isNaN_of_le hxy
  have hbound := place_bounds hz
  rw [le_iff_place hnan.1 hnan.2] at hxy
  rw [isFinite_iff_place hnan.1] at hx
  rw [isFinite_iff_place hnan.2] at hy
  rw [le_iff_place hz hnan.2]
  omega

/-- A double that is at most a finite one, and not finite itself, is the smallest. -/
theorem le_of_lower_not_isFinite {z : Float} (hy : y.isFinite = true) (hxy : x ≤ y)
    (hx : ¬ x.isFinite = true) (hz : z.isNaN = false) : x ≤ z := by
  have hnan := isNaN_of_le hxy
  have hbound := place_bounds hz
  rw [le_iff_place hnan.1 hnan.2] at hxy
  rw [isFinite_iff_place hnan.2] at hy
  rw [isFinite_iff_place hnan.1] at hx
  rw [le_iff_place hnan.1 hz]
  omega

/-- An infinity absorbs what is added to it. -/
theorem add_eq_right (hx : x.isFinite = true) (hnan : y.isNaN = false)
    (hy : ¬ y.isFinite = true) : x + y = y := by
  obtain ⟨s, h⟩ := exists_unpack_eq_infinity hnan hy
  refine (eq_of_unpack_eq hnan ?_).symm
  rw [unpack_add, h]
  rcases isFinite_cases hx with ⟨t, h'⟩ | ⟨t, m, e, hm, h', -⟩ <;> rw [h'] <;> rfl

theorem add_eq_left (hnan : x.isNaN = false) (hx : ¬ x.isFinite = true)
    (hy : y.isFinite = true) : x + y = x := by
  obtain ⟨s, h⟩ := exists_unpack_eq_infinity hnan hx
  refine (eq_of_unpack_eq hnan ?_).symm
  rw [unpack_add, h]
  rcases isFinite_cases hy with ⟨t, h'⟩ | ⟨t, m, e, hm, h', -⟩ <;> rw [h'] <;> rfl

/-- Adding to a finite double keeps the order. -/
theorem add_mono_right {z : Float} (hx : x.isFinite = true) (h : y ≤ z) : x + y ≤ x + z := by
  have hnan := isNaN_of_le h
  have hsum : ∀ {v : Float}, v.isNaN = false → (x + v).isNaN = false := by
    intro v hv
    by_cases hfinite : v.isFinite = true
    · exact (roundsTo_add hx hfinite).isNaN_eq_false
    · rwa [add_eq_right hx hv hfinite]
  by_cases hy : y.isFinite = true
  · by_cases hz : z.isFinite = true
    · rw [le_iff_toRat hy hz] at h
      exact (roundsTo_add hx hy).le (roundsTo_add hx hz) (by linarith)
    · rw [add_eq_right hx hnan.2 hz]
      exact le_of_upper_not_isFinite hy h hz (hsum hnan.1)
  · rw [add_eq_right hx hnan.1 hy]
    by_cases hz : z.isFinite = true
    · exact le_of_lower_not_isFinite hz h hy (hsum hnan.2)
    · rwa [add_eq_right hx hnan.2 hz]

end Backtest.Binary64
