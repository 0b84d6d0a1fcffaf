import Backtest.Number.Binary64

/-!
# The order of doubles

A double other than NaN has a place on the line of integers: its bits below the sign, counted down
when the sign is set, so that both zeros stand at zero. The comparisons of doubles are the
comparisons of these places. Whatever holds of the order of integers therefore holds of doubles that
are not NaN, and two of them at one place other than zero are the same double.

## Main definitions

* `place` — where a double stands.
* `lt_iff_place`, `le_iff_place` — the comparisons in terms of places.
* `eq_of_place_eq` — a place other than zero belongs to one double.
* `max_cases`, `min_cases` — the larger and the smaller of two doubles.
-/
namespace Backtest.Binary64

open Float.Model (UnpackedFloat Format)
open Float.Model.UnpackedFloat (Sign)

/-- The number that 64 bits stand for when the first of them is a sign. -/
def signedBits (bits : Nat) : Int :=
  if bits < 9223372036854775808 then bits else 9223372036854775808 - bits

/-- Where a double stands among all of them, with both zeros at zero. -/
def place (x : Float) : Int := signedBits x.toBits.toNat

/-- The place of an unpacked double: below the sign, the exponent counts steps of `2 ^ 52`. -/
def unpackedPlace : UnpackedFloat → Int
  | .notANumber => 0
  | .infinity sign => sign.apply 9218868437227405312
  | .zero _ => 0
  | .finite sign mantissa exponent _ =>
    sign.apply ((exponent + 1074) * 4503599627370496 + mantissa)

/-- Mantissas have 53 bits and, above the least exponent, use all of them. -/
def IsCanonical : UnpackedFloat → Prop
  | .finite _ mantissa exponent _ =>
    -1074 ≤ exponent ∧ exponent ≤ 971 ∧ mantissa < 9007199254740992 ∧
      (exponent = -1074 ∨ 4503599627370496 ≤ mantissa)
  | _ => True

theorem isCanonical_finite {sign : Sign} {mantissa : Nat} {exponent : Int} {h : 0 < mantissa} :
    IsCanonical (.finite sign mantissa exponent h) ↔ -1074 ≤ exponent ∧ exponent ≤ 971 ∧
      mantissa < 9007199254740992 ∧ (exponent = -1074 ∨ 4503599627370496 ≤ mantissa) := Iff.rfl

theorem unpackedPlace_infinity (sign : Sign) :
    unpackedPlace (.infinity sign) = sign.apply 9218868437227405312 := rfl

theorem unpackedPlace_zero (sign : Sign) : unpackedPlace (.zero sign) = 0 := rfl

theorem unpackedPlace_finite (sign : Sign) (mantissa : Nat) (exponent : Int) (h : 0 < mantissa) :
    unpackedPlace (.finite sign mantissa exponent h) =
      sign.apply ((exponent + 1074) * 4503599627370496 + mantissa) := rfl

/-! ## Comparison of unpacked doubles -/

theorem lt_eq_compare {a b : Int} : .lt = Ord.compare a b ↔ a < b := by
  rw [eq_comm, Int.compare_eq_lt]

theorem gt_eq_compare {a b : Int} : .gt = Ord.compare a b ↔ b < a := by
  rw [eq_comm, Int.compare_eq_gt]

/-- Of two magnitudes the exponents decide, then the mantissas. -/
theorem then_compare_eq_compare {e e' : Int} {m m' : Nat}
    (he : -1074 ≤ e) (he' : -1074 ≤ e') (hm : m < 9007199254740992) (hm' : m' < 9007199254740992)
    (hn : e = -1074 ∨ 4503599627370496 ≤ m) (hn' : e' = -1074 ∨ 4503599627370496 ≤ m') :
    (Ord.compare e e').then (Ord.compare m m') =
      Ord.compare ((e + 1074) * 4503599627370496 + m) ((e' + 1074) * 4503599627370496 + m') := by
  rcases Int.lt_trichotomy e e' with h | rfl | h
  · rw [Int.compare_eq_lt.2 h, Ordering.lt_then, lt_eq_compare]
    omega
  · rw [Int.compare_eq_eq.2 rfl, Ordering.eq_then]
    rcases Nat.lt_trichotomy m m' with h | rfl | h
    · rw [Nat.compare_eq_lt.2 h, lt_eq_compare]; omega
    · rw [Nat.compare_eq_eq.2 rfl, eq_comm, Int.compare_eq_eq]
    · rw [Nat.compare_eq_gt.2 h, gt_eq_compare]; omega
  · rw [Int.compare_eq_gt.2 h, Ordering.gt_then, gt_eq_compare]
    omega

theorem compare_neg_neg (a b : Int) : Ord.compare (-a) (-b) = Ord.compare b a := by
  rcases Int.lt_trichotomy a b with h | rfl | h
  · rw [Int.compare_eq_gt.2 h, Int.compare_eq_gt]; omega
  · rw [Int.compare_eq_eq.2 rfl, Int.compare_eq_eq.2 rfl]
  · rw [Int.compare_eq_lt.2 h, Int.compare_eq_lt]; omega

/-- Unpacked doubles compare as their places. -/
theorem compare_eq_compare_unpackedPlace {u v : UnpackedFloat} (hu : IsCanonical u)
    (hv : IsCanonical v) (hu' : u.isNaN = false) (hv' : v.isNaN = false) :
    u.compare v = some (Ord.compare (unpackedPlace u) (unpackedPlace v)) := by
  cases u with
  | notANumber => cases hu'
  | infinity s =>
    cases v with
    | notANumber => cases hv'
    | infinity t => cases s <;> cases t <;> decide
    | zero t => cases s <;> cases t <;> decide
    | finite t m e hm =>
      rw [isCanonical_finite] at hv
      cases s <;> cases t <;> dsimp only [UnpackedFloat.compare, unpackedPlace, Sign.apply] <;>
        simp only [Option.some.injEq, lt_eq_compare, gt_eq_compare] <;> omega
  | zero s =>
    cases v with
    | notANumber => cases hv'
    | infinity t => cases s <;> cases t <;> decide
    | zero t => cases s <;> cases t <;> decide
    | finite t m e hm =>
      rw [isCanonical_finite] at hv
      cases t <;> dsimp only [UnpackedFloat.compare, unpackedPlace, Sign.apply] <;>
        simp only [Option.some.injEq, lt_eq_compare, gt_eq_compare] <;> omega
  | finite s m e hm =>
    rw [isCanonical_finite] at hu
    cases v with
    | notANumber => cases hv'
    | infinity t =>
      cases s <;> cases t <;> dsimp only [UnpackedFloat.compare, unpackedPlace, Sign.apply] <;>
        simp only [Option.some.injEq, lt_eq_compare, gt_eq_compare] <;> omega
    | zero t =>
      cases s <;> dsimp only [UnpackedFloat.compare, unpackedPlace, Sign.apply] <;>
        simp only [Option.some.injEq, lt_eq_compare, gt_eq_compare] <;> omega
    | finite t m' e' hm' =>
      rw [isCanonical_finite] at hv
      have key := then_compare_eq_compare hu.1 hv.1 hu.2.2.1 hv.2.2.1 hu.2.2.2 hv.2.2.2
      cases s <;> cases t <;> dsimp only [UnpackedFloat.compare, unpackedPlace, Sign.apply] <;>
        simp only [Option.some.injEq, lt_eq_compare, gt_eq_compare]
      · rw [key, Int.compare_swap, compare_neg_neg]
      · omega
      · omega
      · rw [key]

/-! ## From bits to places -/

/-- The leading bit that a mantissa above the least exponent does not store. -/
theorem toNat_one_append (m : BitVec Format.binary64.mantissaBitsWithoutImplicit) :
    (1#1 ++ m).toNat = 4503599627370496 + m.toNat := by
  rw [BitVec.toNat_append, ← Nat.shiftLeft_add_eq_or_of_lt m.isLt]
  rfl

/-- The three fields of 64 bits as numbers. -/
theorem toNat_fields (b : BitVec Format.binary64.numBits) :
    (Float.Model.UnpackedFloat.unpackMantissa b).toNat = b.toNat % 4503599627370496 ∧
      (Float.Model.UnpackedFloat.unpackExponent b).toNat = b.toNat / 4503599627370496 % 2048 ∧
      (Float.Model.UnpackedFloat.unpackSign b).toNat = b.toNat / 9223372036854775808 % 2 := by
  refine ⟨?_, ?_, ?_⟩
  · exact BitVec.extractLsb_toNat 51 0 b
  · have h : (UnpackedFloat.unpackExponent b).toNat = b.toNat >>> 52 % 2048 :=
      BitVec.extractLsb_toNat 62 52 b
    rw [h, Nat.shiftRight_eq_div_pow]
  · have h : (UnpackedFloat.unpackSign b).toNat = b.toNat >>> 63 % 2 :=
      BitVec.extractLsb_toNat 63 63 b
    rw [h, Nat.shiftRight_eq_div_pow]

theorem toNat_exponent_eq_zero {b : BitVec Format.binary64.numBits} :
    UnpackedFloat.unpackExponent b = 0#_ ↔ b.toNat / 4503599627370496 % 2048 = 0 := by
  rw [← (toNat_fields b).2.1, ← BitVec.toNat_inj]
  rfl

theorem toNat_exponent_eq_last {b : BitVec Format.binary64.numBits} :
    UnpackedFloat.unpackExponent b = (-1#_) ↔ b.toNat / 4503599627370496 % 2048 = 2047 := by
  rw [← (toNat_fields b).2.1, ← BitVec.toNat_inj]
  rfl

theorem toNat_mantissa_eq_zero {b : BitVec Format.binary64.numBits} :
    UnpackedFloat.unpackMantissa b = 0#_ ↔ b.toNat % 4503599627370496 = 0 := by
  rw [← (toNat_fields b).1, ← BitVec.toNat_inj]
  rfl

/-- The sign of a word counts the number below it up or down. -/
theorem apply_sign (b : BitVec Format.binary64.numBits) (n : Int) :
    (Sign.ofBitVec (UnpackedFloat.unpackSign b)).apply n =
      if b.toNat < 9223372036854775808 then n else -n := by
  have hb : b.toNat < 18446744073709551616 := b.isLt
  have hsign := (toNat_fields b).2.2
  by_cases h : b.toNat < 9223372036854775808
  · have hzero : UnpackedFloat.unpackSign b = 0#1 := by
      rw [← BitVec.toNat_inj, hsign]
      simp only [BitVec.toNat_ofNat]
      omega
    rw [if_pos h, hzero]
    rfl
  · have hone : UnpackedFloat.unpackSign b = 1#1 := by
      rw [← BitVec.toNat_inj, hsign]
      simp only [BitVec.toNat_ofNat]
      omega
    rw [if_neg h, hone]
    rfl

/-- Unpacking gives a canonical double at the place its bits say. -/
theorem unpack_canonical_place (b : BitVec Format.binary64.numBits) :
    IsCanonical (UnpackedFloat.unpack Format.binary64 b) ∧
      ((UnpackedFloat.unpack Format.binary64 b).isNaN = false →
        unpackedPlace (UnpackedFloat.unpack Format.binary64 b) = signedBits b.toNat) := by
  have hb : b.toNat < 18446744073709551616 := b.isLt
  obtain ⟨hmantissa, hexponent, -⟩ := toNat_fields b
  have hbias : ((Format.binary64.exponentBias : Nat) : Int) = 1023 := rfl
  unfold UnpackedFloat.unpack signedBits
  dsimp only
  by_cases he : UnpackedFloat.unpackExponent b = -1#_
  · rw [if_pos he]
    replace he := toNat_exponent_eq_last.1 he
    by_cases hm : UnpackedFloat.unpackMantissa b = 0#_
    · rw [if_pos hm]
      replace hm := toNat_mantissa_eq_zero.1 hm
      refine ⟨trivial, fun _ => ?_⟩
      rw [unpackedPlace_infinity, apply_sign]
      split <;> omega
    · rw [if_neg hm]
      exact ⟨trivial, fun h => nomatch h⟩
  · rw [if_neg he]
    replace he := mt toNat_exponent_eq_last.2 he
    by_cases hzero : UnpackedFloat.unpackExponent b = 0#_
    · rw [if_pos hzero]
      replace hzero := toNat_exponent_eq_zero.1 hzero
      by_cases hm : UnpackedFloat.unpackMantissa b = 0#_
      · rw [dif_pos hm]
        replace hm := toNat_mantissa_eq_zero.1 hm
        refine ⟨trivial, fun _ => ?_⟩
        rw [unpackedPlace_zero]
        split <;> omega
      · rw [dif_neg hm]
        refine ⟨?_, fun _ => ?_⟩
        · rw [isCanonical_finite, hmantissa, hexponent, hbias]
          omega
        · rw [unpackedPlace_finite, apply_sign, hmantissa, hexponent, hbias]
          split <;> omega
    · rw [if_neg hzero]
      replace hzero := mt toNat_exponent_eq_zero.2 hzero
      have hfull := toNat_one_append (UnpackedFloat.unpackMantissa b)
      refine ⟨?_, fun _ => ?_⟩
      · rw [isCanonical_finite, hexponent, hbias]
        omega
      · rw [unpackedPlace_finite, apply_sign, hfull, hmantissa, hexponent, hbias]
        split <;> omega

/-! ## Comparison of doubles -/

theorem canonical_unpack (x : Float) : IsCanonical x.toModel.unpack :=
  (unpack_canonical_place x.toModel.toBits.toBitVec).1

theorem unpack_place {x : Float} (hx : x.isNaN = false) :
    unpackedPlace x.toModel.unpack = place x :=
  (unpack_canonical_place x.toModel.toBits.toBitVec).2 hx

theorem compare_unpack {x y : Float} (hx : x.isNaN = false) (hy : y.isNaN = false) :
    x.toModel.unpack.compare y.toModel.unpack = some (Ord.compare (place x) (place y)) := by
  rw [compare_eq_compare_unpackedPlace (canonical_unpack x) (canonical_unpack y) hx hy,
    unpack_place hx, unpack_place hy]

theorem lt_iff_compare {x y : Float} :
    x < y ↔ x.toModel.unpack.compare y.toModel.unpack = some .lt := by
  change (decide (x.toModel.unpack.lt y.toModel.unpack = true)) = true ↔ _
  rw [decide_eq_true_iff, UnpackedFloat.lt, beq_iff_eq]

theorem le_iff_compare {x y : Float} :
    x ≤ y ↔ (x.toModel.unpack.compare y.toModel.unpack).any (·.isLE) = true := by
  change (decide (x.toModel.unpack.le y.toModel.unpack = true)) = true ↔ _
  rw [decide_eq_true_iff, UnpackedFloat.le]

theorem lt_iff_place {x y : Float} (hx : x.isNaN = false) (hy : y.isNaN = false) :
    x < y ↔ place x < place y := by
  rw [lt_iff_compare, compare_unpack hx hy, Option.some.injEq, Int.compare_eq_lt]

theorem le_iff_place {x y : Float} (hx : x.isNaN = false) (hy : y.isNaN = false) :
    x ≤ y ↔ place x ≤ place y := by
  rw [le_iff_compare, compare_unpack hx hy, Option.any_some, Int.isLE_compare]

/-- NaN does not compare with anything. -/
theorem isNaN_of_compare_eq_some {x y : Float} {o : Ordering}
    (h : x.toModel.unpack.compare y.toModel.unpack = some o) :
    x.isNaN = false ∧ y.isNaN = false := by
  change x.toModel.unpack.isNaN = false ∧ y.toModel.unpack.isNaN = false
  constructor
  · cases hu : x.toModel.unpack with
    | notANumber => rw [hu] at h; cases h
    | _ => rfl
  · cases hv : y.toModel.unpack with
    | notANumber => cases hu : x.toModel.unpack <;> rw [hu, hv] at h <;> cases h
    | _ => rfl

theorem isNaN_of_lt {x y : Float} (h : x < y) : x.isNaN = false ∧ y.isNaN = false := by
  rw [lt_iff_compare] at h
  exact isNaN_of_compare_eq_some h

/-- A double is its bits. -/
theorem eq_of_toBits_eq {x y : Float} (h : x.toBits.toNat = y.toBits.toNat) : x = y := by
  cases x with
  | ofModel m =>
    cases y with
    | ofModel n =>
      cases m; cases n
      congr
      exact UInt64.toNat_inj.1 h

/-- Two doubles at one place other than zero are the same. -/
theorem eq_of_place_eq {x y : Float} (h : place x = place y) (hzero : place x ≠ 0) : x = y := by
  refine eq_of_toBits_eq ?_
  simp only [place, signedBits] at h hzero
  split at h <;> split at h <;> omega

theorem toBits_zero : (0 : Float).toBits.toNat = 0 := rfl

theorem toBits_negZero : (-0.0 : Float).toBits.toNat = 9223372036854775808 := rfl

theorem place_zero : place 0 = 0 := by
  rw [place, signedBits, toBits_zero]
  rfl

theorem place_negZero : place (-0.0) = 0 := by
  rw [place, signedBits, toBits_negZero]
  rfl

/-- Doubles above zero that are at most each other are the same. -/
theorem eq_of_le_of_le {x y : Float} (hx : 0 < x) (hy : 0 < y) (hxy : x ≤ y) (hyx : y ≤ x) :
    x = y := by
  have hx' := (isNaN_of_lt hx).2
  have hy' := (isNaN_of_lt hy).2
  rw [le_iff_place hx' hy'] at hxy
  rw [le_iff_place hy' hx'] at hyx
  rw [lt_iff_place (isNaN_of_lt hx).1 hx', place_zero] at hx
  exact eq_of_place_eq (by omega) (by omega)

/-! ## The larger and the smaller of two doubles -/

theorem isNaN_of_le {x y : Float} (h : x ≤ y) : x.isNaN = false ∧ y.isNaN = false := by
  rw [le_iff_compare, Option.any_eq_true] at h
  obtain ⟨o, ho, -⟩ := h
  exact isNaN_of_compare_eq_some ho

theorem le_refl {x : Float} (hx : x.isNaN = false) : x ≤ x := (le_iff_place hx hx).2 (Int.le_refl _)

theorem le_trans {x y z : Float} (hxy : x ≤ y) (hyz : y ≤ z) : x ≤ z := by
  have hx := (isNaN_of_le hxy).1
  have hy := (isNaN_of_le hxy).2
  have hz := (isNaN_of_le hyz).2
  rw [le_iff_place hx hy] at hxy
  rw [le_iff_place hy hz] at hyz
  rw [le_iff_place hx hz]
  exact Int.le_trans hxy hyz

theorem le_of_lt {x y : Float} (h : x < y) : x ≤ y := by
  have hnan := isNaN_of_lt h
  rw [lt_iff_place hnan.1 hnan.2] at h
  rw [le_iff_place hnan.1 hnan.2]
  exact Int.le_of_lt h

theorem le_of_not_lt {x y : Float} (hx : x.isNaN = false) (hy : y.isNaN = false) (h : ¬ x < y) :
    y ≤ x := by
  rw [lt_iff_place hx hy] at h
  rw [le_iff_place hy hx]
  exact Int.not_lt.1 h

/-- What is not below a number is NaN or at least that. -/
theorem not_lt_iff {x y : Float} (hy : y.isNaN = false) : ¬ x < y ↔ x.isNaN = true ∨ y ≤ x := by
  cases hx : x.isNaN with
  | true =>
    refine ⟨fun _ => .inl rfl, fun _ h => ?_⟩
    rw [(isNaN_of_lt h).1] at hx
    cases hx
  | false =>
    rw [lt_iff_place hx hy, le_iff_place hy hx, Int.not_lt]
    exact ⟨.inr, fun h => h.resolve_left Bool.false_ne_true⟩

/-- What is not at most a number is NaN or above that. -/
theorem not_le_iff {x y : Float} (hy : y.isNaN = false) : ¬ x ≤ y ↔ x.isNaN = true ∨ y < x := by
  cases hx : x.isNaN with
  | true =>
    refine ⟨fun _ => .inl rfl, fun _ h => ?_⟩
    rw [(isNaN_of_le h).1] at hx
    cases hx
  | false =>
    rw [le_iff_place hx hy, lt_iff_place hy hx, Int.not_le]
    exact ⟨.inr, fun h => h.resolve_left Bool.false_ne_true⟩

/-- The larger of two doubles is one of them, and the other is at most that. -/
theorem max_cases {x y : Float} (hx : x.isNaN = false) (hy : y.isNaN = false) :
    (x ≤ y ∧ max x y = y) ∨ (y ≤ x ∧ max x y = x) := by
  rw [max]
  rw [if_neg (by rw [hx]; decide)]
  by_cases h : x < y
  · exact .inl ⟨le_of_lt h, if_pos h⟩
  · exact .inr ⟨le_of_not_lt hx hy h, if_neg h⟩

/-- The smaller of two doubles is one of them, and it is at most the other. -/
theorem min_cases {x y : Float} (hx : x.isNaN = false) (hy : y.isNaN = false) :
    (y ≤ x ∧ min x y = y) ∨ (x ≤ y ∧ min x y = x) := by
  rw [min]
  rw [if_neg (by rw [hx]; decide)]
  by_cases h : y < x
  · exact .inl ⟨le_of_lt h, if_pos h⟩
  · exact .inr ⟨le_of_not_lt hy hx h, if_neg h⟩

end Backtest.Binary64
