import Backtest.Proofs.Number.Rounding

/-!
# The arithmetic of doubles

Every operation on doubles is the operation on what they unpack to, rounded. From this come the laws
that hold for all operands: whole numbers and integers keep their order when they are converted,
sums and quotients of doubles above zero have no negative sign, and a relative change is never
rounded to the negative zero.

## Main definitions

* `unpack_add`, `unpack_sub`, `unpack_mul`, `unpack_div` — operations as operations on the parts.
* `unpack_ofNat` — a whole number is converted to the nearest double.
* `orderKey_ofInt_mono` — integers keep their order.
* `eq_or_zero_of_place_eq` — numerically equal doubles differ at most in the sign of a zero.
* `sub_ne_negZero`, `div_ne_negZero`, `percentChange_ne_negZero` — where no negative zero comes
  from.
* `add_negZero`, `not_pos_percentChange_self` — a double above zero that does not change.
-/
namespace Backtest.Binary64

open Float.Model (UnpackedFloat Format)
open Float.Model.UnpackedFloat (Sign)

variable {x y : Float}

theorem unpack_ofModel {u : UnpackedFloat} (hu : IsRounded u) :
    (Float.ofModel (Float.Model.pack u)).toModel.unpack = overflowed u :=
  unpack_pack hu

theorem unpack_add (x y : Float) : (x + y).toModel.unpack =
    overflowed (UnpackedFloat.add Format.binary64 x.toModel.unpack y.toModel.unpack) :=
  unpack_ofModel (isRounded_add (canonical_unpack x) (canonical_unpack y))

theorem unpack_sub (x y : Float) : (x - y).toModel.unpack =
    overflowed (UnpackedFloat.sub Format.binary64 x.toModel.unpack y.toModel.unpack) :=
  unpack_ofModel (isRounded_sub (canonical_unpack x) (canonical_unpack y))

theorem unpack_mul (x y : Float) : (x * y).toModel.unpack =
    overflowed (UnpackedFloat.mul Format.binary64 x.toModel.unpack y.toModel.unpack) :=
  unpack_ofModel (isRounded_mul (canonical_unpack x) (canonical_unpack y))

theorem unpack_div (x y : Float) : (x / y).toModel.unpack =
    overflowed (UnpackedFloat.div Format.binary64 x.toModel.unpack y.toModel.unpack) :=
  unpack_ofModel (isRounded_div (canonical_unpack x) (canonical_unpack y))

theorem unpack_neg (x : Float) : (-x).toModel.unpack = x.toModel.unpack.neg := by
  have hcanonical := isCanonical_neg (canonical_unpack x)
  exact (unpack_ofModel (isRounded_of_isCanonical hcanonical)).trans
    (overflowed_of_isCanonical hcanonical)

theorem unpackedPlace_neg (u : UnpackedFloat) : unpackedPlace u.neg = -unpackedPlace u := by
  cases u with
  | notANumber => rfl
  | infinity s => exact apply_neg s _
  | zero s => rfl
  | finite s m e hm => exact apply_neg s _

theorem isNaN_neg (u : UnpackedFloat) : u.neg.isNaN = u.isNaN := by
  cases u <;> rfl

theorem place_neg {x : Float} (hx : x.isNaN = false) : place (-x) = -place x := by
  have hneg : (-x).isNaN = false := by
    change (-x).toModel.unpack.isNaN = false
    rw [unpack_neg, isNaN_neg]
    exact hx
  rw [← unpack_place hneg, ← unpack_place hx, unpack_neg, unpackedPlace_neg]

/-! ## Whole numbers -/

theorem unpack_one : (Float.ofBits 0x3FF0000000000000).toModel.unpack =
    .finite .positive 4503599627370496 (-52) (by decide) := rfl

/-- A whole number rounds the same with any number of further bits. -/
theorem round_eq_roundWithAccuracy {n : Nat} (hn : n ≠ 0) :
    UnpackedFloat.round Format.binary64 .positive n 0 =
      UnpackedFloat.roundWithAccuracy Format.binary64 .positive (n * 2 ^ 53) (-53) .exact := by
  obtain ⟨k, hk, hround, heq⟩ := round_eq .positive hn 0
  have hexponent : -((53 : Nat) : Int) + ((53 - k : Nat) : Int) = 0 - k := by
    rw [roundedExponent] at hk
    omega
  have hpow : n * 2 ^ 53 = n * 2 ^ k * 2 ^ (53 - k) := by
    rw [Nat.mul_assoc, ← Nat.pow_add]
    congr 2
    omega
  rw [heq, hpow, ← hexponent]
  refine (roundWithAccuracy_mul_pow .positive (Nat.mul_ne_zero hn ?_) (53 - k) ?_).symm
  · exact Nat.pos_iff_ne_zero.1 (Nat.two_pow_pos k)
  · rw [hexponent]
    exact hround

theorem normalize_ofNat {n : Nat} (hn : n ≠ 0) :
    UnpackedFloat.normalize Format.binary64 n 0 .positive =
      UnpackedFloat.round Format.binary64 .positive n 0 := by
  rw [UnpackedFloat.normalize, Int.compare_eq_gt.2 (by omega)]
  rfl

/-- A number of 53 bits is converted as a word. -/
theorem unpack_toFloat {n : Nat} (hn : n < 2 ^ 53) : n.toUInt64.toFloat.toModel.unpack =
    overflowed (UnpackedFloat.normalize Format.binary64 n 0 .positive) := by
  have hword : n.toUInt64.toNat = n := UInt64.toNat_ofNat_of_lt (Nat.lt_trans hn (by decide))
  change (Float.ofModel (Float.Model.pack (UnpackedFloat.normalize Format.binary64
    n.toUInt64.toNat 0 .positive))).toModel.unpack = _
  rw [hword]
  exact unpack_ofModel (normalize_spec _ _).1

/-- A larger number is converted with 53 further bits. -/
theorem unpack_ofScientific {n : Nat} (hn : n ≠ 0) :
    (Float.ofModel (Float.Model.ofScientific n 0)).toModel.unpack =
      overflowed (UnpackedFloat.normalize Format.binary64 n 0 .positive) := by
  have hproduct :
      UnpackedFloat.roundWithAccuracy Format.binary64 .positive ((n <<< 53) * 1) (-53) .exact =
        UnpackedFloat.roundWithAccuracy Format.binary64 .positive (n * 2 ^ 53) (-53) .exact := by
    rw [Nat.mul_one, Nat.shiftLeft_eq]
  have hmul : UnpackedFloat.ofScientific Format.binary64 n 0 =
      UnpackedFloat.roundWithAccuracy Format.binary64 .positive (n * 2 ^ 53) (-53) .exact := by
    rw [UnpackedFloat.ofScientific, dif_neg hn, if_neg (by decide), if_neg, if_pos (by decide)]
    · exact hproduct
    · change ¬ (0 : Int) < -(2048 + n.log2)
      omega
  rw [normalize_ofNat hn, round_eq_roundWithAccuracy hn, ← hmul]
  refine unpack_ofModel ?_
  rw [hmul, ← round_eq_roundWithAccuracy hn, ← normalize_ofNat hn]
  exact (normalize_spec _ _).1

/-- A whole number as a double is the nearest one. -/
theorem unpack_ofNat (n : Nat) : (Float.ofNat n).toModel.unpack =
    overflowed (UnpackedFloat.normalize Format.binary64 n 0 .positive) := by
  change (Float.ofScientific n false 0).toModel.unpack = _
  rw [Float.ofScientific]
  split
  · rename_i hsmall
    change (n.toUInt64.toFloat * Float.ofBits 0x3FF0000000000000).toModel.unpack = _
    have hcanonical := canonical_unpack n.toUInt64.toFloat
    rw [unpack_mul, unpack_one, mul_one hcanonical, overflowed_of_isCanonical hcanonical,
      unpack_toFloat hsmall.1]
  · rename_i hlarge
    exact unpack_ofScientific fun h => hlarge ⟨by omega, by decide⟩

theorem isNaN_of_hasSign {s : Sign} (h : HasSign s x.toModel.unpack) : x.isNaN = false := by
  change x.toModel.unpack.isNaN = false
  cases hx : x.toModel.unpack with
  | notANumber => rw [hx] at h; cases h
  | _ => rfl

theorem isNaN_of_isFinite (h : x.isFinite = true) : x.isNaN = false := by
  change x.toModel.unpack.isNaN = false
  change x.toModel.unpack.isFinite = true at h
  cases hx : x.toModel.unpack with
  | notANumber => rw [hx] at h; cases h
  | _ => rfl

theorem unpack_ofNat_zero : (Float.ofNat 0).toModel.unpack = .zero .positive := by
  rw [unpack_ofNat]
  rfl

theorem unpack_ofNat_of_ne_zero {n : Nat} (hn : n ≠ 0) : (Float.ofNat n).toModel.unpack =
    overflowed (UnpackedFloat.roundWithAccuracy Format.binary64 .positive (n * 2 ^ 53) (-53)
      .exact) := by
  rw [unpack_ofNat, normalize_ofNat hn, round_eq_roundWithAccuracy hn]

theorem le_roundedExponent_ofNat {n : Nat} (hn : n ≠ 0) :
    -53 ≤ roundedExponent (n * 2 ^ 53) (-53) :=
  le_roundedExponent (.inr (by omega))

/-- A whole number above zero is at least one as a double. -/
theorem reaches_ofNat {n : Nat} (hn : n ≠ 0) :
    Reaches .positive 0 (Float.ofNat n).toModel.unpack := by
  rw [unpack_ofNat_of_ne_zero hn]
  refine (reaches_roundWithAccuracy (by omega) (le_roundedExponent_ofNat hn) (by decide)
    ?_).overflowed
  rw [log2_mul_pow hn]
  omega

theorem hasSign_ofNat (n : Nat) : HasSign .positive (Float.ofNat n).toModel.unpack := by
  by_cases hn : n = 0
  · rw [hn, unpack_ofNat_zero]
    rfl
  · exact (reaches_ofNat hn).hasSign

/-- A whole number below `2 ^ 64` is finite as a double. -/
theorem exists_finite_ofNat {n : Nat} (hn : n ≠ 0) (hlarge : n < 2 ^ 64) :
    ∃ m e h, (Float.ofNat n).toModel.unpack = .finite .positive m e h := by
  have hreaches := reaches_ofNat hn
  have hlog : n.log2 < 64 := (Nat.log2_lt hn).2 hlarge
  have hexponent : roundedExponent (n * 2 ^ 53) (-53) ≤ 12 := by
    rw [roundedExponent, log2_mul_pow hn]
    omega
  rw [unpack_ofNat_of_ne_zero hn, roundWithAccuracy_eq _ _ (le_roundedExponent_ofNat hn),
    carried] at hreaches ⊢
  split
  · rename_i hzero
    rw [dif_pos hzero] at hreaches
    cases hreaches
  · rename_i hzero
    split
    · exact ⟨_, _, by decide, if_neg (by omega)⟩
    · exact ⟨_, _, Nat.pos_of_ne_zero hzero, if_neg (by omega)⟩

theorem unpack_zero : (0 : Float).toModel.unpack = .zero .positive := unpack_ofNat_zero

/-- The doubles above zero. -/
theorem pos_iff_reaches : 0 < x ↔ Reaches .positive (-1074) x.toModel.unpack := by
  have hcanonical := canonical_unpack x
  rw [lt_iff_compare, unpack_zero]
  generalize x.toModel.unpack = u at hcanonical ⊢
  cases u with
  | notANumber => exact ⟨fun h => (nomatch h), fun h => (nomatch h)⟩
  | infinity s => cases s <;> simp [UnpackedFloat.compare, Reaches]
  | zero s => cases s <;> simp [UnpackedFloat.compare, Reaches]
  | finite s m e hm =>
    have hleast : -1074 ≤ m.log2 + e := by have := hcanonical.1; omega
    cases s <;> simp [UnpackedFloat.compare, Reaches, hleast]

theorem ofNat_pos {n : Nat} (hn : n ≠ 0) : 0 < Float.ofNat n :=
  pos_iff_reaches.2 ((reaches_ofNat hn).mono (by decide))

theorem place_pos (h : 0 < x) : 0 < place x := by
  have hnan := isNaN_of_lt h
  rwa [lt_iff_place hnan.1 hnan.2, place_zero] at h

theorem unpack_abs (x : Float) : x.abs.toModel.unpack = x.toModel.unpack.abs := by
  have hcanonical : IsCanonical x.toModel.unpack.abs := by
    have := canonical_unpack x
    generalize x.toModel.unpack = u at this ⊢
    cases u with
    | finite s m e hm => exact this
    | _ => trivial
  exact (unpack_ofModel (isRounded_of_isCanonical hcanonical)).trans
    (overflowed_of_isCanonical hcanonical)

theorem abs_pos (h : x < 0) : 0 < x.abs := by
  have hcanonical := canonical_unpack x
  rw [pos_iff_reaches, unpack_abs]
  rw [lt_iff_compare, unpack_zero] at h
  generalize x.toModel.unpack = u at h hcanonical ⊢
  cases u with
  | notANumber => cases h
  | infinity s => rfl
  | zero s => cases h
  | finite s m e hm => exact ⟨rfl, by have := hcanonical.1; omega⟩

theorem not_le_zero {x : Float} (h : 0 < x) : ¬ x ≤ 0 := by
  intro hle
  have hnan := isNaN_of_lt h
  rw [lt_iff_place hnan.1 hnan.2] at h
  rw [le_iff_place hnan.2 hnan.1] at hle
  omega

/-- Whole numbers keep their order as doubles. -/
theorem place_ofNat_mono {m n : Nat} (h : m ≤ n) :
    place (Float.ofNat m) ≤ place (Float.ofNat n) := by
  rw [← unpack_place (isNaN_of_hasSign (hasSign_ofNat m)),
    ← unpack_place (isNaN_of_hasSign (hasSign_ofNat n))]
  by_cases hn : n = 0
  · obtain rfl : m = n := by omega
    exact Int.le_refl _
  by_cases hm : m = 0
  · rw [hm, unpack_ofNat_zero, unpackedPlace_zero,
      unpack_place (isNaN_of_hasSign (hasSign_ofNat n))]
    exact Int.le_of_lt (place_pos (ofNat_pos hn))
  · rw [unpack_ofNat_of_ne_zero hm, unpack_ofNat_of_ne_zero hn]
    exact unpackedPlace_roundWithAccuracy_mono (Nat.mul_le_mul_right _ h)
      (le_roundedExponent_ofNat hm)

/-! ## The total order -/

theorem orderKey_of_place_pos (h : 0 < place x) : orderKey x = place x := by
  simp only [place, signedBits] at h
  simp only [orderKey, place, signedBits]
  split at h <;> split <;> omega

theorem orderKey_of_place_neg (h : place x < 0) : orderKey x = place x - 1 := by
  simp only [place, signedBits] at h
  simp only [orderKey, place, signedBits]
  split at h <;> split <;> omega

theorem orderKey_zero : orderKey 0 = 0 := by
  rw [orderKey, toBits_zero]
  rfl

theorem orderKey_negZero : orderKey (-0.0) = -1 := by
  rw [orderKey, toBits_negZero]
  rfl

theorem orderKey_ofNat (k : Nat) : orderKey (Float.ofNat k) = place (Float.ofNat k) := by
  by_cases hk : k = 0
  · rw [hk]
    exact orderKey_zero.trans place_zero.symm
  · exact orderKey_of_place_pos (place_pos (ofNat_pos hk))

theorem orderKey_neg_ofNat (k : Nat) :
    orderKey (-Float.ofNat (k + 1)) = -place (Float.ofNat (k + 1)) - 1 := by
  have hpos := place_pos (ofNat_pos (Nat.succ_ne_zero k))
  have hplace := place_neg (isNaN_of_hasSign (hasSign_ofNat (k + 1)))
  rw [orderKey_of_place_neg (by rw [hplace]; exact Int.neg_neg_of_pos hpos), hplace]

theorem place_ofNat_nonneg (k : Nat) : 0 ≤ place (Float.ofNat k) := by
  have := place_ofNat_mono (Nat.zero_le k)
  rwa [show place (Float.ofNat 0) = 0 from place_zero] at this

/-- Integers keep their order as doubles, and zero stays above the negative ones. -/
theorem orderKey_ofInt_mono {m n : Int} (h : m ≤ n) :
    orderKey (Float.ofInt m) ≤ orderKey (Float.ofInt n) := by
  cases m with
  | ofNat m =>
    cases n with
    | negSucc n =>
      have : 0 ≤ Int.ofNat m := Int.natCast_nonneg m
      omega
    | ofNat n =>
      change orderKey (Float.ofNat m) ≤ orderKey (Float.ofNat n)
      rw [orderKey_ofNat, orderKey_ofNat]
      exact place_ofNat_mono (Int.ofNat_le.1 h)
  | negSucc m =>
    change orderKey (-Float.ofNat (m + 1)) ≤ _
    rw [orderKey_neg_ofNat]
    cases n with
    | ofNat n =>
      change _ ≤ orderKey (Float.ofNat n)
      have hm := place_ofNat_nonneg (m + 1)
      have hn := place_ofNat_nonneg n
      rw [orderKey_ofNat]
      omega
    | negSucc n =>
      change _ ≤ orderKey (-Float.ofNat (n + 1))
      have := place_ofNat_mono (show n + 1 ≤ m + 1 by omega)
      rw [orderKey_neg_ofNat]
      omega

/-- The place of any 64 bits in the total order, also of those of a NaN that is not the quiet
one. -/
def keyOfBits (bits : UInt64) : Int :=
  let n := bits.toNat
  if n < 9223372036854775808 then n else 9223372036854775807 - n

theorem eq_of_keyOfBits_eq {a b : UInt64} (h : keyOfBits a = keyOfBits b) : a = b := by
  refine UInt64.toNat_inj.1 ?_
  simp only [keyOfBits] at h
  split at h <;> split at h <;> omega

/-- The total order tells any two doubles apart. -/
theorem eq_of_orderKey_eq {x y : Float} (h : orderKey x = orderKey y) : x = y :=
  eq_of_toBits_eq (congrArg UInt64.toNat (eq_of_keyOfBits_eq h))

/-- Two doubles at one place differ at most in the sign of a zero. -/
theorem eq_or_zero_of_place_eq {x y : Float} (h : place x = place y) :
    x = y ∨ (x = 0 ∧ y = -0.0) ∨ (x = -0.0 ∧ y = 0) := by
  by_cases hbits : x.toBits.toNat = y.toBits.toNat
  · exact .inl (eq_of_toBits_eq hbits)
  · refine .inr ?_
    simp only [place, signedBits] at h
    split at h <;> split at h
    · omega
    · refine .inl ⟨eq_of_toBits_eq ?_, eq_of_toBits_eq ?_⟩
      · rw [toBits_zero]; omega
      · rw [toBits_negZero]; omega
    · refine .inr ⟨eq_of_toBits_eq ?_, eq_of_toBits_eq ?_⟩
      · rw [toBits_negZero]; omega
      · rw [toBits_zero]; omega
    · omega

/-- The total order refines the order of places. -/
theorem place_le_of_orderKey_le {x y : Float} (h : orderKey x ≤ orderKey y) :
    place x ≤ place y := by
  simp only [orderKey] at h
  simp only [place, signedBits]
  split at h <;> split at h <;> omega

/-- All it tells apart at one place are the zeros. -/
theorem zeros_of_orderKey_lt {x y : Float} (h : orderKey x < orderKey y)
    (hplace : place y ≤ place x) : x = -0.0 ∧ y = 0 := by
  have hle := place_le_of_orderKey_le (Int.le_of_lt h)
  rcases eq_or_zero_of_place_eq (Int.le_antisymm hle hplace) with rfl | ⟨rfl, rfl⟩ | hzeros
  · omega
  · rw [orderKey_zero, orderKey_negZero] at h
    omega
  · exact hzeros

/-! ## Signed zeros -/

theorem unpack_negZero : (-0.0 : Float).toModel.unpack = .zero .negative := by
  rw [unpack_neg]
  rfl

/-- The negative zero is told by its parts. -/
theorem eq_negZero_iff : x = -0.0 ↔ x.toModel.unpack = .zero .negative := by
  refine ⟨fun h => h ▸ unpack_negZero, fun h => ?_⟩
  have hnan : x.isNaN = false := by
    change x.toModel.unpack.isNaN = false
    rw [h]
    rfl
  have hplace : place x = place (-0.0) := by
    rw [← unpack_place hnan, h, place_negZero]
    rfl
  rcases eq_or_zero_of_place_eq hplace with h' | ⟨rfl, -⟩ | ⟨h', -⟩
  · exact h'
  · rw [unpack_zero] at h
    cases h
  · exact h'

theorem eq_zero_of_overflowed {u : UnpackedFloat} {s : Sign} (h : overflowed u = .zero s) :
    u = .zero s := by
  cases u with
  | finite t m e hm =>
    rw [overflowed] at h
    split at h <;> cases h
  | _ => exact h

theorem ne_negZero_of_hasSign (h : HasSign .positive x.toModel.unpack) : x ≠ -0.0 := by
  intro hx
  rw [eq_negZero_iff.1 hx] at h
  cases h

theorem add_pos (hx : 0 < x) (hy : 0 < y) : 0 < x + y := by
  rw [pos_iff_reaches] at hx hy ⊢
  rw [unpack_add]
  exact (reaches_add (canonical_unpack x) (canonical_unpack y) hx hy).overflowed

/-- The negative zero adds nothing. -/
theorem negZero_add_pos (hx : 0 < x) : 0 < -0.0 + x := by
  have hcanonical := canonical_unpack x
  rw [pos_iff_reaches] at hx ⊢
  rw [unpack_add, unpack_negZero]
  generalize x.toModel.unpack = u at hx hcanonical ⊢
  cases u with
  | notANumber => cases hx
  | zero s => cases hx
  | _ => exact hx.overflowed

/-- A double above zero and the negative zero. -/
theorem add_negZero (hx : 0 < x) : x + -0.0 = x := by
  have hcanonical := canonical_unpack x
  have hunpack : (x + -0.0).toModel.unpack = x.toModel.unpack := by
    rw [pos_iff_reaches] at hx
    rw [unpack_add, unpack_negZero]
    generalize x.toModel.unpack = u at hx hcanonical ⊢
    cases u with
    | notANumber => cases hx
    | zero s => cases hx
    | infinity s => rfl
    | finite s m e hm => exact overflowed_of_isCanonical hcanonical
  have hnan := (isNaN_of_lt hx).2
  have hnan' : (x + -0.0).isNaN = false := by
    change (x + -0.0).toModel.unpack.isNaN = false
    rw [hunpack]
    exact hnan
  have hplace : place (x + -0.0) = place x := by
    rw [← unpack_place hnan, ← unpack_place hnan', hunpack]
  exact eq_of_place_eq hplace (by have := place_pos hx; omega)

/-- A difference is the negative zero only if it starts from there. -/
theorem sub_ne_negZero (hx : x ≠ -0.0) (y : Float) : x - y ≠ -0.0 := by
  intro h
  rw [eq_negZero_iff, unpack_sub, sub_eq_add_neg] at h
  exact hx (eq_negZero_iff.2 (eq_negative_zero_of_add (canonical_unpack x)
    (isCanonical_neg (canonical_unpack y)) (eq_zero_of_overflowed h)).1)

/-- Doubles of positive sign have no quotient of negative sign. -/
theorem div_ne_negZero (hx : HasSign .positive x.toModel.unpack)
    (hy : HasSign .positive y.toModel.unpack) : x / y ≠ -0.0 := by
  intro h
  rw [eq_negZero_iff, unpack_div] at h
  rcases hasSign_div hx hy with hnan | hsign
  · rw [hnan] at h
    cases h
  · rw [eq_zero_of_overflowed h] at hsign
    cases hsign

theorem negZero_div (hy : 0 < y) : -0.0 / y = -0.0 := by
  rw [pos_iff_reaches] at hy
  rw [eq_negZero_iff, unpack_div, unpack_negZero]
  generalize y.toModel.unpack = v at hy
  cases v with
  | notANumber => cases hy
  | zero s => cases hy
  | infinity s => cases hy; rfl
  | finite s n f hn => cases hy.1; rfl

theorem unpack_hundred : (100 : Float).toModel.unpack =
    .finite .positive 7036874417766400 (-46) (by decide) := rfl

/-- A difference to a double above zero, over that double, is NaN, the positive zero, or too large
to be rounded to zero. -/
theorem relative_cases (hy : 0 < y) :
    ((x - y) / y).toModel.unpack = .notANumber ∨ ((x - y) / y).toModel.unpack = .zero .positive ∨
      ∃ s, Reaches s (-54) ((x - y) / y).toModel.unpack := by
  have hcy := canonical_unpack y
  have hcx := canonical_unpack x
  have hdifference := unpack_sub x y
  rw [pos_iff_reaches] at hy
  rw [unpack_div]
  rw [sub_eq_add_neg] at hdifference
  generalize y.toModel.unpack = v at hy hcy hdifference ⊢
  cases v with
  | notANumber => cases hy
  | zero s => cases hy
  | infinity s =>
    cases hy
    refine .inl ?_
    rw [hdifference]
    generalize x.toModel.unpack = u
    cases u with
    | infinity t => cases t <;> rfl
    | _ => rfl
  | finite s n f hn =>
    cases hy.1
    rcases add_cases hcx (isCanonical_neg hcy) with hnan | hzero | ⟨t, hreaches⟩
    · refine .inl ?_
      rw [hdifference, UnpackedFloat.neg, hnan]
      rfl
    · refine .inr (.inl ?_)
      rw [hdifference, UnpackedFloat.neg, hzero]
      rfl
    · refine .inr (.inr ⟨t / .positive, ?_⟩)
      rw [hdifference]
      have hdividend := hreaches.overflowed
      exact (reaches_div hdividend (by omega)).overflowed.mono (by omega)

/-- In percent it is therefore never the negative zero. -/
theorem percentChange_ne_negZero (hy : 0 < y) : (x - y) / y * 100 ≠ -0.0 := by
  intro h
  have hcanonical := canonical_unpack ((x - y) / y)
  have hhundred : Reaches .positive 6 (100 : Float).toModel.unpack := by
    have hlog := (Nat.le_log2 (show 7036874417766400 ≠ 0 by decide)).2
      (show 2 ^ 52 ≤ 7036874417766400 by decide)
    rw [unpack_hundred]
    exact ⟨rfl, by omega⟩
  rw [eq_negZero_iff, unpack_mul] at h
  replace h := eq_zero_of_overflowed h
  rcases relative_cases hy (x := x) with hnan | hzero | ⟨s, hreaches⟩
  · rw [hnan] at h
    cases h
  · rw [hzero, unpack_hundred] at h
    cases h
  · have := reaches_mul hcanonical (canonical_unpack 100) hreaches hhundred (by decide)
    rw [h] at this
    cases this

/-- A double less itself is zero, or NaN where the double is infinite. -/
theorem unpack_sub_self (hx : 0 < x) :
    (x - x).toModel.unpack = .notANumber ∨ ∃ s, (x - x).toModel.unpack = .zero s := by
  rw [pos_iff_reaches] at hx
  rw [unpack_sub, sub_eq_add_neg]
  generalize x.toModel.unpack = u at hx
  cases u with
  | notANumber => cases hx
  | zero s => cases hx
  | infinity s => cases hx; exact .inl rfl
  | finite s m e hm =>
    have hsum : sumMantissa s m e (-s) m e = 0 := by
      rw [sumMantissa, apply_neg]
      exact Int.add_right_neg _
    rw [UnpackedFloat.neg, add_finite, hsum]
    exact .inr ⟨_, congrArg overflowed ((normalize_spec 0 _).2.1 rfl)⟩

/-- A change to the same double is no gain. -/
theorem not_pos_percentChange_self (hx : 0 < x) : ¬ 0 < (x - x) / x * 100 := by
  have hself := unpack_sub_self hx
  rw [pos_iff_reaches] at hx ⊢
  rw [unpack_mul, unpack_div, unpack_hundred]
  generalize (x - x).toModel.unpack = d at hself
  generalize x.toModel.unpack = u at hx
  cases u with
  | notANumber => cases hx
  | zero s => cases hx
  | infinity s => rcases hself with rfl | ⟨t, rfl⟩ <;> exact fun h => nomatch h
  | finite s m e hm => rcases hself with rfl | ⟨t, rfl⟩ <;> exact fun h => nomatch h

end Backtest.Binary64
