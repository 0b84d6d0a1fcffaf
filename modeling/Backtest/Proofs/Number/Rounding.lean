import Backtest.Proofs.Number.Order
import Mathlib

/-!
# Rounding

The arithmetic of doubles computes a magnitude exactly, or with a note on what was cut off, and
rounds it to 53 bits. What rounding does is said once here: it takes the nearest mantissa at one
exponent, carries when that is `2 ^ 53`, keeps the order of magnitudes, and never makes a magnitude
smaller than its leading bit unless it was below the least exponent. Each operation on unpacked
doubles then has its sign and a bound on its size.

## Main definitions

* `nearest` — the whole number nearest to a number with cut off bits.
* `roundWithAccuracy_eq` — rounding as one shift and a carry.
* `unpack_pack` — packing loses nothing but magnitudes that are too large.
* `Reaches` — an unpacked double of one sign that is not below a power of two.
* `unpackedPlace_roundWithAccuracy_mono` — rounding keeps the order.
-/
namespace Backtest.Binary64

open Float.Model (UnpackedFloat Format)
open Float.Model.UnpackedFloat (Sign Accuracy ExtendedMantissa)

/-! ## Mantissas that lose their last bits -/

/-- An exact mantissa shifted to the right: the round bit says whether at least half a unit was cut
off, and the sticky bit whether the rest is more than nothing or than that half. -/
theorem shiftRight_exact (m k : Nat) :
    (ExtendedMantissa.mk m false false) >>> k =
      ⟨m / 2 ^ k, decide (2 ^ k ≤ 2 * (m % 2 ^ k)), decide (2 * (m % 2 ^ k) % 2 ^ k ≠ 0)⟩ := by
  change Nat.repeat ExtendedMantissa.shiftRightOne k _ = _
  induction k with
  | zero => simp [Nat.repeat, Nat.mod_one]
  | succ k ih =>
    rw [Nat.repeat, ih, ExtendedMantissa.shiftRightOne]
    have hhalf := Nat.div_div_eq_div_mul m (2 ^ k) 2
    have hrest : m % 2 ^ (k + 1) = m % 2 ^ k + 2 ^ k * (m / 2 ^ k % 2) := Nat.mod_pow_succ
    have hlt : m % 2 ^ k < 2 ^ k := Nat.mod_lt _ (Nat.two_pow_pos k)
    have hbit : m / 2 ^ k % 2 = 0 ∨ m / 2 ^ k % 2 = 1 := Nat.mod_two_eq_zero_or_one _
    have hsticky : 2 * (m % 2 ^ (k + 1)) % 2 ^ (k + 1) = 2 * (m % 2 ^ k) := by
      rw [hrest, Nat.pow_succ]
      rcases hbit with h | h
      · rw [h, Nat.mod_eq_of_lt] <;> omega
      · rw [h, show 2 * (m % 2 ^ k + 2 ^ k * 1) = 2 * (m % 2 ^ k) + 2 ^ k * 2 by omega,
          Nat.add_mod_right, Nat.mod_eq_of_lt]
        omega
    rw [ExtendedMantissa.mk.injEq]
    refine ⟨by rw [hhalf, Nat.pow_succ], ?_, ?_⟩
    · rw [Bool.eq_iff_iff, bne_iff_ne, decide_eq_true_iff, hrest, Nat.pow_succ]
      rcases hbit with h | h <;> rw [h] <;> omega
    · rw [hsticky, ← Bool.decide_or, decide_eq_decide]
      constructor
      · rintro (h | h)
        · omega
        · exact fun h0 => h (by rw [h0, Nat.zero_mod])
      · intro h
        by_cases h' : 2 ^ k ≤ 2 * (m % 2 ^ k)
        · exact .inl h'
        · exact .inr (by rw [Nat.mod_eq_of_lt (by omega)]; exact h)


/-- The whole number nearest to `m / 2 ^ k`, the even one of two that are as near. -/
def nearest (m k : Nat) : Nat :=
  if 2 * (m % 2 ^ k) < 2 ^ k then m / 2 ^ k
  else if 2 * (m % 2 ^ k) = 2 ^ k then m / 2 ^ k + m / 2 ^ k % 2
  else m / 2 ^ k + 1

theorem roundedMantissa_shiftRight_exact (m k : Nat) :
    ((ExtendedMantissa.mk m false false) >>> k).roundedMantissa = nearest m k := by
  rw [shiftRight_exact, ExtendedMantissa.roundedMantissa, nearest]
  have hlt : m % 2 ^ k < 2 ^ k := Nat.mod_lt _ (Nat.two_pow_pos k)
  by_cases hhalf : 2 ^ k ≤ 2 * (m % 2 ^ k)
  · have hrest : 2 * (m % 2 ^ k) % 2 ^ k = 2 * (m % 2 ^ k) - 2 ^ k := by
      rw [Nat.mod_eq_sub_mod hhalf, Nat.mod_eq_of_lt (by omega)]
    rw [if_neg (by omega), decide_eq_true hhalf, hrest]
    by_cases htie : 2 * (m % 2 ^ k) = 2 ^ k
    · rw [if_pos htie, htie, Nat.sub_self]
      rfl
    · rw [if_neg htie, decide_eq_true (by omega)]
      rfl
  · rw [if_pos (by omega), decide_eq_false hhalf]
    by_cases hrest : 2 * (m % 2 ^ k) % 2 ^ k = 0
    · rw [decide_eq_false (not_not_intro hrest)]
      rfl
    · rw [decide_eq_true hrest]
      rfl

/-- Rounding keeps the order. -/
theorem nearest_mono {m n : Nat} (h : m ≤ n) (k : Nat) : nearest m k ≤ nearest n k := by
  have hm := Nat.div_add_mod m (2 ^ k)
  have hn := Nat.div_add_mod n (2 ^ k)
  rw [nearest, nearest]
  rcases Nat.lt_or_eq_of_le (Nat.div_le_div_right (c := 2 ^ k) h) with hdiv | hdiv
  · split <;> split <;> (try split) <;> (try split) <;> omega
  · rw [hdiv] at hm ⊢
    split <;> split <;> (try split) <;> (try split) <;> omega

/-- Bits that are zero do not count. -/
theorem nearest_mul_pow (m k j : Nat) : nearest (m * 2 ^ j) (k + j) = nearest m k := by
  have hpos := Nat.two_pow_pos j
  simp only [nearest, Nat.pow_add, Nat.mul_mod_mul_right, Nat.mul_div_mul_right _ _ hpos,
    ← Nat.mul_assoc, Nat.mul_lt_mul_right hpos, Nat.mul_right_cancel_iff hpos]

theorem nearest_zero (m : Nat) : nearest m 0 = m := by
  rw [nearest, Nat.pow_zero, Nat.mod_one, if_pos (by decide), Nat.div_one]

theorem mantissa_shiftRight (em : ExtendedMantissa) (k : Nat) :
    (em >>> k).mantissa = em.mantissa / 2 ^ k := by
  change (Nat.repeat ExtendedMantissa.shiftRightOne k em).mantissa = _
  induction k with
  | zero => simp [Nat.repeat]
  | succ k ih =>
    rw [Nat.repeat, ExtendedMantissa.shiftRightOne, ih, Nat.div_div_eq_div_mul, Nat.pow_succ]

/-- Rounding adds at most one. -/
theorem roundedMantissa_bounds (em : ExtendedMantissa) :
    em.mantissa ≤ em.roundedMantissa ∧ em.roundedMantissa ≤ em.mantissa + 1 := by
  obtain ⟨m, round, sticky⟩ := em
  have hbit := Nat.mod_lt m Nat.two_pos
  cases round <;> cases sticky <;>
    dsimp only [ExtendedMantissa.roundedMantissa, ExtendedMantissa.accuracy,
      Accuracy.roundToNearestEven] <;> omega

/-! ## Rounded magnitudes -/

/-- The exponent of a magnitude `m * 2 ^ e` with 53 bits, or the least one. -/
def roundedExponent (m : Nat) (e : Int) : Int := Max.max (m.log2 + e - 52) (-1074)

/-- The mantissa of a magnitude at that exponent. -/
def roundedMantissa (m : Nat) (e : Int) (accuracy : Accuracy) : Nat :=
  ((ExtendedMantissa.ofMantissaAndAccuracy m accuracy) >>>
    (roundedExponent m e - e).toNat).roundedMantissa

theorem log2_carry : Nat.log2 9007199254740992 = 53 := Nat.log2_two_pow (n := 53)

/-- A mantissa of at most `2 ^ 53` with an exponent; the largest one carries into the exponent. -/
def carried (sign : Sign) (m : Nat) (e : Int) : UnpackedFloat :=
  if h : m = 0 then .zero sign
  else if m = 9007199254740992 then .finite sign 4503599627370496 (e + 1) (by decide)
  else .finite sign m e (Nat.pos_of_ne_zero h)

theorem targetExponent_eq (m : Nat) (e : Int) :
    Format.binary64.targetExponent (Float.Model.totalExponent m e) = roundedExponent m e := by
  change Max.max ((m.log2 : Int) + 1 + e - 53) (-1074) = _
  rw [roundedExponent]
  congr 1
  omega

theorem mantissa_ofMantissaAndAccuracy (m : Nat) (accuracy : Accuracy) :
    (ExtendedMantissa.ofMantissaAndAccuracy m accuracy).mantissa = m := by
  cases accuracy with
  | exact => rfl
  | inexact o => cases o <;> rfl

/-- The digits that are left lie around the quotient. -/
theorem roundedMantissa_mem (m : Nat) (e : Int) (accuracy : Accuracy) :
    m / 2 ^ (roundedExponent m e - e).toNat ≤ roundedMantissa m e accuracy ∧
      roundedMantissa m e accuracy ≤ m / 2 ^ (roundedExponent m e - e).toNat + 1 := by
  have h := roundedMantissa_bounds ((ExtendedMantissa.ofMantissaAndAccuracy m accuracy) >>>
    (roundedExponent m e - e).toNat)
  rwa [mantissa_shiftRight, mantissa_ofMantissaAndAccuracy] at h

/-- An exact magnitude is rounded to the nearest. -/
theorem roundedMantissa_exact (m : Nat) (e : Int) :
    roundedMantissa m e .exact = nearest m (roundedExponent m e - e).toNat :=
  roundedMantissa_shiftRight_exact m _

/-- A rounded mantissa has at most 53 bits, but for a carry. -/
theorem roundedMantissa_le (m : Nat) (e : Int) (accuracy : Accuracy) :
    roundedMantissa m e accuracy ≤ 9007199254740992 := by
  have hquotient : m / 2 ^ (roundedExponent m e - e).toNat < 9007199254740992 := by
    rw [Nat.div_lt_iff_lt_mul (Nat.two_pow_pos _)]
    calc m < 2 ^ (m.log2 + 1) := Nat.lt_log2_self
      _ ≤ 2 ^ (53 + (roundedExponent m e - e).toNat) :=
        Nat.pow_le_pow_right Nat.two_pos (by rw [roundedExponent]; omega)
      _ = 9007199254740992 * 2 ^ (roundedExponent m e - e).toNat := by rw [Nat.pow_add]
  have := (roundedMantissa_mem m e accuracy).2
  omega

/-- The leading bit of a magnitude stays, if it is not below the exponent. -/
theorem pow_le_roundedMantissa {m : Nat} {e : Int} {accuracy : Accuracy} {k : Nat} (hm : m ≠ 0)
    (he : e ≤ roundedExponent m e) (hk : roundedExponent m e + k ≤ m.log2 + e) :
    2 ^ k ≤ roundedMantissa m e accuracy := by
  refine Nat.le_trans ?_ (roundedMantissa_mem m e accuracy).1
  rw [Nat.le_div_iff_mul_le (Nat.two_pow_pos _), ← Nat.pow_add]
  calc 2 ^ (k + (roundedExponent m e - e).toNat) ≤ 2 ^ m.log2 :=
        Nat.pow_le_pow_right Nat.two_pos (by omega)
    _ ≤ m := Nat.log2_self_le hm

/-- Above the least exponent all bits are used. -/
theorem le_roundedMantissa {m : Nat} {e : Int} {accuracy : Accuracy}
    (he : e ≤ roundedExponent m e) (hleast : -1074 < roundedExponent m e) :
    4503599627370496 ≤ roundedMantissa m e accuracy := by
  have hk : roundedExponent m e + (52 : Nat) ≤ m.log2 + e := by
    rw [roundedExponent] at hleast ⊢
    omega
  have hm : m ≠ 0 := by
    rintro rfl
    rw [Nat.log2_zero] at hk
    omega
  exact pow_le_roundedMantissa hm he hk

theorem shiftToTargetExponent_eq {m : Nat} {e : Int} {accuracy : Accuracy}
    (he : e ≤ roundedExponent m e) :
    UnpackedFloat.shiftToTargetExponent Format.binary64 m e accuracy =
      ((ExtendedMantissa.ofMantissaAndAccuracy m accuracy) >>> (roundedExponent m e - e).toNat,
        roundedExponent m e) := by
  rw [UnpackedFloat.shiftToTargetExponent, targetExponent_eq, UnpackedFloat.shiftToExponent,
    Prod.mk.injEq]
  exact ⟨rfl, by omega⟩

/-- Rounding shifts once, and again when it carries. -/
theorem roundWithAccuracy_eq {m : Nat} {e : Int} (sign : Sign) (accuracy : Accuracy)
    (he : e ≤ roundedExponent m e) :
    UnpackedFloat.roundWithAccuracy Format.binary64 sign m e accuracy =
      carried sign (roundedMantissa m e accuracy) (roundedExponent m e) := by
  have hle := roundedMantissa_le m e accuracy
  have hleast : -1074 ≤ roundedExponent m e := by rw [roundedExponent]; omega
  rw [UnpackedFloat.roundWithAccuracy, shiftToTargetExponent_eq he]
  change (match UnpackedFloat.shiftToTargetExponent Format.binary64 (roundedMantissa m e accuracy)
    (roundedExponent m e) .exact with
    | (last, exponent) => if h : last.mantissa = 0 then UnpackedFloat.zero sign
      else .finite sign last.mantissa exponent (Nat.pos_of_ne_zero h)) = _
  generalize roundedMantissa m e accuracy = digits at hle
  generalize roundedExponent m e = t at hleast
  rw [carried]
  by_cases hcarry : digits = 9007199254740992
  · subst hcarry
    have hnext : roundedExponent 9007199254740992 t = t + 1 := by
      rw [roundedExponent, log2_carry]
      omega
    rw [shiftToTargetExponent_eq (by omega), hnext, show (t + 1 - t).toNat = 1 by omega]
    rfl
  · have hlog : digits.log2 ≤ 52 := by
      by_cases hzero : digits = 0
      · rw [hzero]; decide
      · have := (Nat.log2_lt hzero (k := 53)).2 (by omega)
        omega
    have hstays : roundedExponent digits t ≤ t := by rw [roundedExponent]; omega
    rw [UnpackedFloat.shiftToTargetExponent, targetExponent_eq, UnpackedFloat.shiftToExponent,
      show (roundedExponent digits t - t).toNat = 0 by omega]
    by_cases hzero : digits = 0
    · rw [dif_pos hzero]
      exact dif_pos hzero
    · rw [dif_neg hzero, if_neg hcarry]
      refine (dif_neg hzero).trans ?_
      simp only [Int.natCast_zero, Int.add_zero]
      rfl

/-! ## Packing and unpacking -/

/-- An unpacked double that was rounded: as a canonical one, but for its greatest exponent. -/
def IsRounded : UnpackedFloat → Prop
  | .finite _ mantissa exponent _ =>
    -1074 ≤ exponent ∧ mantissa < 9007199254740992 ∧
      (exponent = -1074 ∨ 4503599627370496 ≤ mantissa)
  | _ => True

/-- A magnitude above the greatest exponent is infinite. -/
def overflowed : UnpackedFloat → UnpackedFloat
  | .finite sign mantissa exponent h =>
    if 971 < exponent then .infinity sign else .finite sign mantissa exponent h
  | u => u

theorem isRounded_of_isCanonical {u : UnpackedFloat} (h : IsCanonical u) : IsRounded u := by
  cases u with
  | finite s m e hm => exact ⟨h.1, h.2.2.1, h.2.2.2⟩
  | _ => trivial

theorem overflowed_of_isCanonical {u : UnpackedFloat} (h : IsCanonical u) : overflowed u = u := by
  cases u with
  | finite s m e hm => exact if_neg (Int.not_lt.2 h.2.1)
  | _ => rfl

/-- Unpacking the components of a word. -/
theorem unpack_packComponents (s : Sign) (e : BitVec Format.binary64.exponentBits)
    (m : BitVec Format.binary64.mantissaBitsWithoutImplicit) :
    UnpackedFloat.unpack Format.binary64 (UnpackedFloat.packComponents Format.binary64 s e m) =
      if e = -1#_ then if m = 0#_ then .infinity s else .notANumber
      else if e = 0#_ then
        if h : m = 0#_ then .zero s
        else .finite s m.toNat ((e.toNat : Int) - 1075 + 1)
          (by simpa [BitVec.toNat_pos, BitVec.pos_iff_ne_zero])
      else .finite s (1#1 ++ m).toNat ((e.toNat : Int) - 1075)
        (by rw [toNat_one_append]; omega) := by
  simp only [UnpackedFloat.unpack, UnpackedFloat.unpackMantissa_packComponents,
    UnpackedFloat.unpackExponent_packComponents, UnpackedFloat.unpackSign_packComponents,
    Sign.ofBitVec_toBitVec]
  rfl

theorem toNat_mantissa (m : Nat) :
    (BitVec.ofNat Format.binary64.mantissaBitsWithoutImplicit m).toNat = m % 4503599627370496 :=
  BitVec.toNat_ofNat m 52

/-- A full mantissa stands in its word without the leading bit. -/
theorem unpack_packComponents_of_le {s : Sign} {m : Nat} {e : Int} (hm : 0 < m)
    (hleast : -1074 ≤ e) (hlarge : e ≤ 971) (hm' : m < 9007199254740992)
    (hfull : 4503599627370496 ≤ m) :
    UnpackedFloat.unpack Format.binary64
      (UnpackedFloat.packComponents Format.binary64 s (BitVec.ofNat _ (e + 1023 + 52).toNat)
        (BitVec.ofNat _ m)) = .finite s m e hm := by
  have hexponent : (BitVec.ofNat Format.binary64.exponentBits (e + 1023 + 52).toNat).toNat =
      (e + 1023 + 52).toNat :=
    (BitVec.toNat_ofNat _ 11).trans (Nat.mod_eq_of_lt (by omega))
  have hlast : BitVec.ofNat Format.binary64.exponentBits (e + 1023 + 52).toNat ≠ -1#_ := by
    rw [ne_eq, ← BitVec.toNat_inj, hexponent]
    change ¬ (e + 1023 + 52).toNat = 2047
    omega
  have hzero : BitVec.ofNat Format.binary64.exponentBits (e + 1023 + 52).toNat ≠ 0#_ := by
    rw [ne_eq, ← BitVec.toNat_inj, hexponent]
    change ¬ (e + 1023 + 52).toNat = 0
    omega
  rw [unpack_packComponents, if_neg hlast, if_neg hzero, UnpackedFloat.finite.injEq,
    toNat_one_append, toNat_mantissa, hexponent]
  exact ⟨rfl, by omega, by omega⟩

/-- A smaller one has the least exponent. -/
theorem unpack_packComponents_of_lt {s : Sign} {m : Nat} (hm : 0 < m)
    (hsmall : m < 4503599627370496) :
    UnpackedFloat.unpack Format.binary64
      (UnpackedFloat.packComponents Format.binary64 s 0#_ (BitVec.ofNat _ m)) =
      .finite s m (-1074) hm := by
  have hzero : BitVec.ofNat Format.binary64.mantissaBitsWithoutImplicit m ≠ 0#_ := by
    rw [ne_eq, ← BitVec.toNat_inj, toNat_mantissa]
    change ¬ m % 4503599627370496 = 0
    omega
  rw [unpack_packComponents, if_neg (by decide), if_pos rfl, dif_neg hzero,
    UnpackedFloat.finite.injEq, toNat_mantissa]
  exact ⟨rfl, by omega, rfl⟩

/-- Packing loses nothing of a rounded double but a magnitude that is too large. -/
theorem unpack_pack {u : UnpackedFloat} (hu : IsRounded u) :
    UnpackedFloat.unpack Format.binary64 (UnpackedFloat.pack Format.binary64 u) = overflowed u := by
  cases u with
  | notANumber => rfl
  | infinity s => cases s <;> rfl
  | zero s => cases s <;> rfl
  | finite s m e hm =>
    obtain ⟨hleast, hm', hfull⟩ := hu
    change UnpackedFloat.unpack Format.binary64
      (if 2048 ≤ (e + 1023 + 52).toNat + 1 then UnpackedFloat.packedInfinity Format.binary64 s
      else if m.log2 + 1 = 53 then
        UnpackedFloat.packComponents Format.binary64 s (BitVec.ofNat _ (e + 1023 + 52).toNat)
          (BitVec.ofNat _ m)
      else UnpackedFloat.packComponents Format.binary64 s 0#_ (BitVec.ofNat _ m)) =
      if 971 < e then .infinity s else .finite s m e hm
    by_cases hlarge : 971 < e
    · rw [if_pos (by omega), if_pos hlarge]
      cases s <;> rfl
    rw [if_neg (by omega), if_neg hlarge]
    have hne : m ≠ 0 := Nat.pos_iff_ne_zero.1 hm
    by_cases hnormal : 4503599627370496 ≤ m
    · have hlog : m.log2 + 1 = 53 := by
        have := (Nat.le_log2 hne (k := 52)).2 hnormal
        have := (Nat.log2_lt hne (k := 53)).2 hm'
        omega
      rw [if_pos hlog, unpack_packComponents_of_le hm hleast (Int.not_lt.1 hlarge) hm' hnormal]
    · have hlog : m.log2 + 1 ≠ 53 := by
        have := (Nat.log2_lt hne (k := 52)).2 (Nat.not_le.1 hnormal)
        omega
      obtain rfl : e = -1074 := hfull.resolve_right hnormal
      rw [if_neg hlog, unpack_packComponents_of_lt hm (Nat.not_le.1 hnormal)]

/-! ## Sign and size of results -/

/-- Of one sign, and not NaN. -/
def HasSign (sign : Sign) : UnpackedFloat → Prop
  | .notANumber => False
  | .infinity s => s = sign
  | .zero s => s = sign
  | .finite s _ _ _ => s = sign

/-- Of one sign, and of a magnitude of at least `2 ^ k`. -/
def Reaches (sign : Sign) (k : Int) : UnpackedFloat → Prop
  | .notANumber => False
  | .infinity s => s = sign
  | .zero _ => False
  | .finite s m e _ => s = sign ∧ k ≤ m.log2 + e

theorem Reaches.mono {s : Sign} {k k' : Int} {u : UnpackedFloat} (h : Reaches s k u) (hk : k' ≤ k) :
    Reaches s k' u := by
  cases u with
  | finite t m e hm => exact ⟨h.1, Int.le_trans hk h.2⟩
  | _ => exact h

theorem Reaches.hasSign {s : Sign} {k : Int} {u : UnpackedFloat} (h : Reaches s k u) :
    HasSign s u := by
  cases u with
  | zero t => cases h
  | finite t m e hm => exact h.1
  | _ => exact h

theorem Reaches.overflowed {s : Sign} {k : Int} {u : UnpackedFloat} (h : Reaches s k u) :
    Reaches s k (overflowed u) := by
  cases u with
  | finite t m e hm =>
    rw [Binary64.overflowed]
    split
    · exact h.1
    · exact h
  | _ => exact h

theorem HasSign.overflowed {s : Sign} {u : UnpackedFloat} (h : HasSign s u) :
    HasSign s (overflowed u) := by
  cases u with
  | finite t m e hm =>
    rw [Binary64.overflowed]
    split
    · exact h
    · exact h
  | _ => exact h

theorem hasSign_carried (s : Sign) (m : Nat) (e : Int) : HasSign s (carried s m e) := by
  rw [carried]
  split
  · rfl
  · split
    · rfl
    · rfl

theorem isRounded_carried {s : Sign} {m : Nat} {e : Int} (hm : m ≤ 9007199254740992)
    (he : -1074 ≤ e) (hfull : -1074 < e → 4503599627370496 ≤ m) : IsRounded (carried s m e) := by
  rw [carried]
  split
  · trivial
  · split
    · exact ⟨by omega, by decide, .inr (Nat.le_refl _)⟩
    · exact ⟨he, by omega, by omega⟩

theorem reaches_carried {s : Sign} {m j : Nat} {e k : Int} (hm : 2 ^ j ≤ m) (hk : k ≤ e + j) :
    Reaches s k (carried s m e) := by
  have hpos : m ≠ 0 := Nat.pos_iff_ne_zero.1 (Nat.lt_of_lt_of_le (Nat.two_pow_pos j) hm)
  have hlog : j ≤ m.log2 := (Nat.le_log2 hpos).2 hm
  rw [carried, dif_neg hpos]
  split
  · rename_i hcarry
    rw [hcarry, log2_carry] at hlog
    refine ⟨rfl, ?_⟩
    have hnext : Nat.log2 4503599627370496 = 52 := Nat.log2_two_pow (n := 52)
    omega
  · exact ⟨rfl, by omega⟩

/-- What rounding a magnitude gives, whatever its size. -/
theorem roundWithAccuracy_spec {m : Nat} {e : Int} (s : Sign) (accuracy : Accuracy)
    (he : e ≤ roundedExponent m e) :
    IsRounded (UnpackedFloat.roundWithAccuracy Format.binary64 s m e accuracy) ∧
      HasSign s (UnpackedFloat.roundWithAccuracy Format.binary64 s m e accuracy) := by
  have hleast : -1074 ≤ roundedExponent m e := by rw [roundedExponent]; omega
  rw [roundWithAccuracy_eq s accuracy he]
  exact ⟨isRounded_carried (roundedMantissa_le m e accuracy) hleast (le_roundedMantissa he),
    hasSign_carried ..⟩

/-- A magnitude that is not below the least exponent does not become smaller than its leading
bit. -/
theorem reaches_roundWithAccuracy {m : Nat} {e k : Int} {s : Sign} {accuracy : Accuracy}
    (hm : m ≠ 0) (he : e ≤ roundedExponent m e) (hk : -1074 ≤ k) (hke : k ≤ m.log2 + e) :
    Reaches s k (UnpackedFloat.roundWithAccuracy Format.binary64 s m e accuracy) := by
  rw [roundWithAccuracy_eq s accuracy he]
  have hbits : roundedExponent m e + (m.log2 + e - roundedExponent m e).toNat ≤ m.log2 + e := by
    rw [roundedExponent]
    omega
  exact reaches_carried (pow_le_roundedMantissa hm he hbits) (by omega)

theorem log2_mul_pow {m : Nat} (hm : m ≠ 0) (k : Nat) : (m * 2 ^ k).log2 = m.log2 + k := by
  have hpos := Nat.two_pow_pos k
  rw [Nat.log2_eq_iff (Nat.mul_ne_zero hm (Nat.pos_iff_ne_zero.1 hpos)), Nat.pow_add,
    show m.log2 + k + 1 = m.log2 + 1 + k by omega, Nat.pow_add 2 (m.log2 + 1) k]
  exact ⟨Nat.mul_le_mul_right _ (Nat.log2_self_le hm),
    Nat.mul_lt_mul_of_pos_right Nat.lt_log2_self hpos⟩

theorem decreaseExponent_eq (m : Nat) (e t : Int) :
    UnpackedFloat.decreaseExponent m e t = (m * 2 ^ (e - t).toNat, e - (e - t).toNat) := by
  rw [UnpackedFloat.decreaseExponent, Nat.shiftLeft_eq]

theorem roundedExponent_mul_pow {m : Nat} (hm : m ≠ 0) (e : Int) (k : Nat) :
    roundedExponent (m * 2 ^ k) e = roundedExponent m (e + k) := by
  rw [roundedExponent, roundedExponent, log2_mul_pow hm]
  omega

/-- Rounding first takes as many bits as there can be. -/
theorem round_eq (s : Sign) {m : Nat} (hm : m ≠ 0) (e : Int) :
    ∃ k : Nat, k = (e - roundedExponent m e).toNat ∧
      e - k ≤ roundedExponent (m * 2 ^ k) (e - k) ∧
      UnpackedFloat.round Format.binary64 s m e =
        UnpackedFloat.roundWithAccuracy Format.binary64 s (m * 2 ^ k) (e - k) .exact := by
  refine ⟨(e - roundedExponent m e).toNat, rfl, ?_, ?_⟩
  · rw [roundedExponent_mul_pow hm, Int.sub_add_cancel]
    omega
  · rw [UnpackedFloat.round, targetExponent_eq, decreaseExponent_eq]

/-- A sum of signed magnitudes has its sign, and is zero only if nothing is left. -/
theorem normalize_spec (m : Int) {e : Int} (zeroSign : Sign) :
    IsRounded (UnpackedFloat.normalize Format.binary64 m e zeroSign) ∧
      (m = 0 → UnpackedFloat.normalize Format.binary64 m e zeroSign = .zero zeroSign) ∧
      ∀ s : Sign, ∀ k : Int, 0 < s.apply m → -1074 ≤ k → k ≤ m.natAbs.log2 + e →
        Reaches s k (UnpackedFloat.normalize Format.binary64 m e zeroSign) := by
  have hround : ∀ s : Sign, ∀ n : Nat, n ≠ 0 →
      IsRounded (UnpackedFloat.round Format.binary64 s n e) ∧ ∀ k : Int, -1074 ≤ k →
        k ≤ n.log2 + e → Reaches s k (UnpackedFloat.round Format.binary64 s n e) := by
    intro s n hn
    obtain ⟨j, -, hj, heq⟩ := round_eq s hn e
    rw [heq]
    refine ⟨(roundWithAccuracy_spec s .exact hj).1, fun k hk hke => ?_⟩
    refine reaches_roundWithAccuracy
      (Nat.mul_ne_zero hn (Nat.pos_iff_ne_zero.1 (Nat.two_pow_pos j))) hj hk ?_
    rw [log2_mul_pow hn]
    omega
  rw [UnpackedFloat.normalize]
  rcases Int.lt_trichotomy m 0 with h | h | h
  · rw [Int.compare_eq_lt.2 h]
    obtain ⟨hrounded, hreaches⟩ := hround .negative (-m).toNat (by omega)
    refine ⟨hrounded, fun h0 => absurd h0 (by omega), fun s k hs hk hke => ?_⟩
    cases s with
    | positive => exact absurd hs (by dsimp only [Sign.apply]; omega)
    | negative => exact hreaches k hk (by rwa [show (-m).toNat = m.natAbs by omega])
  · rw [Int.compare_eq_eq.2 h]
    refine ⟨trivial, fun _ => rfl, fun s k hs => ?_⟩
    rw [h] at hs
    cases s <;> cases hs
  · rw [Int.compare_eq_gt.2 h]
    obtain ⟨hrounded, hreaches⟩ := hround .positive m.toNat (by omega)
    refine ⟨hrounded, fun h0 => absurd h0 (by omega), fun s k hs hk hke => ?_⟩
    cases s with
    | negative => exact absurd hs (by dsimp only [Sign.apply]; omega)
    | positive => exact hreaches k hk (by rwa [show m.toNat = m.natAbs by omega])

/-! ## Operations on unpacked doubles -/

variable {u v : UnpackedFloat}

theorem isRounded_add (hu : IsCanonical u) (hv : IsCanonical v) :
    IsRounded (UnpackedFloat.add Format.binary64 u v) := by
  have hu := isRounded_of_isCanonical hu
  have hv := isRounded_of_isCanonical hv
  cases u with
  | notANumber => trivial
  | infinity s =>
    cases v with
    | infinity t => dsimp only [UnpackedFloat.add]; split <;> trivial
    | _ => trivial
  | zero s =>
    cases v with
    | zero t => dsimp only [UnpackedFloat.add]; split <;> trivial
    | _ => exact hv
  | finite s m e hm =>
    cases v with
    | finite t n f hn => exact (normalize_spec _ _).1
    | zero t => exact hu
    | _ => trivial

theorem isCanonical_neg (hu : IsCanonical u) : IsCanonical u.neg := by
  cases u with
  | finite s m e hm => exact hu
  | _ => trivial

theorem apply_neg (s : Sign) (n : Int) : (-s).apply n = -s.apply n := by
  cases s
  · exact (Int.neg_neg n).symm
  · rfl

/-- Subtraction adds the opposite. -/
theorem sub_eq_add_neg (u v : UnpackedFloat) :
    UnpackedFloat.sub Format.binary64 u v = UnpackedFloat.add Format.binary64 u v.neg := by
  cases u with
  | finite s m e hm =>
    cases v with
    | finite t n f hn =>
      dsimp only [UnpackedFloat.sub, UnpackedFloat.add, UnpackedFloat.neg]
      rw [apply_neg, Int.sub_eq_add_neg]
    | _ => rfl
  | _ => cases v <;> rfl

theorem isRounded_sub (hu : IsCanonical u) (hv : IsCanonical v) :
    IsRounded (UnpackedFloat.sub Format.binary64 u v) := by
  rw [sub_eq_add_neg]
  exact isRounded_add hu (isCanonical_neg hv)

/-- The signed mantissa of a sum of two finite doubles, at the smaller exponent. -/
def sumMantissa (s : Sign) (m : Nat) (e : Int) (t : Sign) (n : Nat) (f : Int) : Int :=
  s.apply (m * 2 ^ (e - Min.min e f).toNat : Nat) + t.apply (n * 2 ^ (f - Min.min e f).toNat : Nat)

theorem add_finite (s : Sign) (m : Nat) (e : Int) (hm : 0 < m) (t : Sign) (n : Nat) (f : Int)
    (hn : 0 < n) :
    UnpackedFloat.add Format.binary64 (.finite s m e hm) (.finite t n f hn) =
      UnpackedFloat.normalize Format.binary64 (sumMantissa s m e t n f) (Min.min e f)
        .positive := by
  rw [UnpackedFloat.add, decreaseExponent_eq, decreaseExponent_eq]
  rfl

/-- Doubles of one sign add up to one. -/
theorem reaches_add {s : Sign} {k j : Int} (hu : IsCanonical u) (hv : IsCanonical v)
    (hku : Reaches s k u) (hjv : Reaches s j v) :
    Reaches s (-1074) (UnpackedFloat.add Format.binary64 u v) := by
  cases u with
  | notANumber => cases hku
  | zero t => cases hku
  | infinity t =>
    cases hku
    cases v with
    | notANumber => cases hjv
    | zero t => cases hjv
    | infinity t => cases hjv; cases s <;> rfl
    | finite t n f hn => rfl
  | finite s' m e hm =>
    cases v with
    | notANumber => cases hjv
    | zero t => cases hjv
    | infinity t => exact hjv
    | finite t n f hn =>
      obtain ⟨rfl, -⟩ := hku
      obtain ⟨rfl, -⟩ := hjv
      have hleast : -1074 ≤ Min.min e f := by have := hu.1; have := hv.1; omega
      have hm' := Nat.mul_pos hm (Nat.two_pow_pos (e - Min.min e f).toNat)
      have hn' := Nat.mul_pos hn (Nat.two_pow_pos (f - Min.min e f).toNat)
      rw [add_finite]
      refine (normalize_spec _ _).2.2 t (-1074) ?_ (by decide) (by omega)
      rw [sumMantissa]
      cases t <;> dsimp only [Sign.apply] <;> omega

/-- A sum is the negative zero only if both its parts are. -/
theorem eq_negative_zero_of_add (hu : IsCanonical u) (hv : IsCanonical v)
    (h : UnpackedFloat.add Format.binary64 u v = .zero .negative) :
    u = .zero .negative ∧ v = .zero .negative := by
  cases u with
  | notANumber => cases h
  | infinity s =>
    cases v with
    | infinity t => cases s <;> cases t <;> cases h
    | _ => cases h
  | zero s =>
    cases v with
    | zero t => cases s <;> cases t <;> first | exact ⟨rfl, rfl⟩ | cases h
    | _ => cases h
  | finite s m e hm =>
    cases v with
    | finite t n f hn =>
      rw [add_finite] at h
      obtain ⟨-, hzero, hreaches⟩ := normalize_spec (sumMantissa s m e t n f) (e := Min.min e f)
        .positive
      have hleast : -1074 ≤ Min.min e f := by have := hu.1; have := hv.1; omega
      rcases Int.lt_trichotomy (sumMantissa s m e t n f) 0 with hsum | hsum | hsum
      · have := hreaches .negative (-1074) (by dsimp only [Sign.apply]; omega) (by omega) (by omega)
        rw [h] at this
        cases this
      · rw [hzero hsum] at h
        cases h
      · have := hreaches .positive (-1074) hsum (by omega) (by omega)
        rw [h] at this
        cases this
    | _ => cases h

/-- Unless it cancels, a sum is at most 53 places below each of its parts. -/
theorem le_log2_sumMantissa {s t : Sign} {m n : Nat} {e f : Int} {hm : 0 < m} {hn : 0 < n}
    (hu : IsCanonical (.finite s m e hm)) (hv : IsCanonical (.finite t n f hn))
    (hsum : sumMantissa s m e t n f ≠ 0) :
    n.log2 + f - 53 ≤ (sumMantissa s m e t n f).natAbs.log2 + Min.min e f := by
  obtain ⟨he, -, hm', -⟩ := hu
  obtain ⟨-, -, hn', hfull⟩ := hv
  have hlog : n.log2 ≤ 52 := Nat.lt_succ_iff.1 ((Nat.log2_lt (by omega)).2 hn')
  by_cases hef : f ≤ e
  · omega
  -- The part with the smaller exponent is below `2 ^ 53` steps, and the other one a multiple.
  · obtain ⟨d, hd⟩ : ∃ d : Nat, f - e = d + 1 := ⟨(f - e - 1).toNat, by omega⟩
    have hlarge : 9007199254740992 * 2 ^ d ≤ n * 2 ^ (d + 1) := by
      rw [Nat.pow_succ, Nat.mul_comm (2 ^ d), ← Nat.mul_assoc]
      exact Nat.mul_le_mul_right _ (by omega)
    have hbits : 2 ^ d ≤ (sumMantissa s m e t n f).natAbs := by
      have hpos := Nat.two_pow_pos d
      rw [sumMantissa, show (e - Min.min e f).toNat = 0 by omega,
        show (f - Min.min e f).toNat = d + 1 by omega, Nat.pow_zero, Nat.mul_one]
      cases s <;> cases t <;> dsimp only [Sign.apply] <;> omega
    have := (Nat.le_log2 (by omega)).2 hbits
    omega

/-- A sum with a finite double is NaN, cancels, or is not far below it. -/
theorem add_cases {t : Sign} {n : Nat} {f : Int} {hn : 0 < n} (hu : IsCanonical u)
    (hv : IsCanonical (.finite t n f hn)) :
    UnpackedFloat.add Format.binary64 u (.finite t n f hn) = .notANumber ∨
      UnpackedFloat.add Format.binary64 u (.finite t n f hn) = .zero .positive ∨
      ∃ s, Reaches s (n.log2 + f - 53)
        (UnpackedFloat.add Format.binary64 u (.finite t n f hn)) := by
  cases u with
  | notANumber => exact .inl rfl
  | infinity s => exact .inr (.inr ⟨s, rfl⟩)
  | zero s => exact .inr (.inr ⟨t, rfl, by omega⟩)
  | finite s m e hm =>
    rw [add_finite]
    obtain ⟨-, hzero, hreaches⟩ := normalize_spec (sumMantissa s m e t n f) (e := Min.min e f)
      .positive
    by_cases hsum : sumMantissa s m e t n f = 0
    · exact .inr (.inl (hzero hsum))
    have hleast : -1074 ≤ Min.min e f := by have := hu.1; have := hv.1; omega
    have hsize := le_log2_sumMantissa hu hv hsum
    obtain ⟨sign, hsign⟩ : ∃ sign : Sign, 0 < sign.apply (sumMantissa s m e t n f) := by
      by_cases hneg : sumMantissa s m e t n f < 0
      · exact ⟨.negative, by dsimp only [Sign.apply]; omega⟩
      · exact ⟨.positive, by dsimp only [Sign.apply]; omega⟩
    exact .inr (.inr ⟨sign, (hreaches sign _ hsign (by omega) (Int.le_refl _)).mono hsize⟩)

/-- A mantissa with enough bits, or of the least exponent, is not made longer. -/
theorem le_roundedExponent {m : Nat} {e : Int} (h : e ≤ -1074 ∨ 4503599627370496 ≤ m) :
    e ≤ roundedExponent m e := by
  rw [roundedExponent]
  rcases h with h | h
  · omega
  · have := (Nat.le_log2 (by omega) (k := 52)).2 h
    omega

theorem le_roundedExponent_mul {s t : Sign} {m n : Nat} {e f : Int} {hm : 0 < m} {hn : 0 < n}
    (hu : IsCanonical (.finite s m e hm)) (hv : IsCanonical (.finite t n f hn)) :
    e + f ≤ roundedExponent (m * n) (e + f) := by
  obtain ⟨-, -, -, he⟩ := hu
  obtain ⟨-, -, -, hf⟩ := hv
  refine le_roundedExponent ?_
  rcases he with he | he
  · rcases hf with hf | hf
    · exact .inl (by omega)
    · exact .inr (Nat.le_trans hf (Nat.le_mul_of_pos_left n hm))
  · exact .inr (Nat.le_trans he (Nat.le_mul_of_pos_right m hn))

theorem isRounded_mul (hu : IsCanonical u) (hv : IsCanonical v) :
    IsRounded (UnpackedFloat.mul Format.binary64 u v) := by
  cases u with
  | finite s m e hm =>
    cases v with
    | finite t n f hn =>
      exact (roundWithAccuracy_spec _ .exact (le_roundedExponent_mul hu hv)).1
    | _ => trivial
  | _ => cases v <;> trivial

/-- Magnitudes multiply. -/
theorem reaches_mul {s t : Sign} {k j : Int} (hu : IsCanonical u) (hv : IsCanonical v)
    (hsu : Reaches s k u) (htv : Reaches t j v) (hkj : -1074 ≤ k + j) :
    Reaches (s * t) (k + j) (UnpackedFloat.mul Format.binary64 u v) := by
  cases u with
  | notANumber => cases hsu
  | zero s => cases hsu
  | infinity s' =>
    cases v with
    | notANumber => cases htv
    | zero t => cases htv
    | infinity t' => cases hsu; cases htv; rfl
    | finite t' n f hn => cases hsu; cases htv.1; rfl
  | finite s' m e hm =>
    cases v with
    | notANumber => cases htv
    | zero t => cases htv
    | infinity t' => cases hsu.1; cases htv; rfl
    | finite t' n f hn =>
      obtain ⟨rfl, hk⟩ := hsu
      obtain ⟨rfl, hj⟩ := htv
      refine reaches_roundWithAccuracy (Nat.mul_ne_zero (by omega) (by omega))
        (le_roundedExponent_mul hu hv) hkj ?_
      have hbits : m.log2 + n.log2 ≤ (m * n).log2 := by
        rw [Nat.le_log2 (Nat.mul_ne_zero (by omega) (by omega)), Nat.pow_add]
        exact Nat.mul_le_mul (Nat.log2_self_le (by omega)) (Nat.log2_self_le (by omega))
      omega

/-- A quotient keeps the bits of the dividend that the divisor does not take. -/
theorem pow_le_div {a n j : Nat} (hn : n ≠ 0) (ha : a ≠ 0) (h : j + n.log2 + 1 ≤ a.log2) :
    2 ^ j ≤ a / n := by
  rw [Nat.le_div_iff_mul_le (Nat.pos_iff_ne_zero.2 hn)]
  calc 2 ^ j * n ≤ 2 ^ j * 2 ^ (n.log2 + 1) := Nat.mul_le_mul_left _ (Nat.le_of_lt Nat.lt_log2_self)
    _ = 2 ^ (j + n.log2 + 1) := by rw [← Nat.pow_add, Nat.add_assoc]
    _ ≤ 2 ^ a.log2 := Nat.pow_le_pow_right Nat.two_pos h
    _ ≤ a := Nat.log2_self_le ha

/-- The exponent of a quotient before it is rounded. -/
def quotientExponent (m : Nat) (e : Int) (n : Nat) (f : Int) : Int :=
  Min.min (e - f) (Max.max (m.log2 + e - (n.log2 + f) - 53) (-1074))

theorem divCore_eq (m : Nat) (e : Int) (n : Nat) (f : Int) :
    UnpackedFloat.divCore Format.binary64 m e n f =
      (m * 2 ^ (e - f - quotientExponent m e n f).toNat / n, quotientExponent m e n f,
        UnpackedFloat.accuracyOfFraction
          (m * 2 ^ (e - f - quotientExponent m e n f).toNat % n) n) := by
  have htarget : Min.min (e - f) (Format.binary64.targetExponent
      (Float.Model.totalExponent m e - Float.Model.totalExponent n f)) =
        quotientExponent m e n f := by
    change Min.min (e - f) (Max.max (((m.log2 : Int) + 1 + e - (n.log2 + 1 + f)) - 53) (-1074)) = _
    rw [quotientExponent]
    omega
  simp only [UnpackedFloat.divCore, htarget, Nat.shiftLeft_eq]

/-- The dividend of a quotient has the bits of the divisor and those of the exponent. -/
theorem log2_dividend {m : Nat} (hm : m ≠ 0) (e : Int) (n : Nat) (f : Int) :
    ((m * 2 ^ (e - f - quotientExponent m e n f).toNat).log2 : Int) =
      m.log2 + (e - f - quotientExponent m e n f) := by
  rw [log2_mul_pow hm, quotientExponent]
  omega

/-- A quotient has bits enough. -/
theorem le_roundedExponent_div {m n : Nat} (hm : m ≠ 0) (hn : n ≠ 0) (e f : Int) :
    quotientExponent m e n f ≤
      roundedExponent (m * 2 ^ (e - f - quotientExponent m e n f).toNat / n)
        (quotientExponent m e n f) := by
  refine le_roundedExponent ?_
  by_cases hleast : quotientExponent m e n f ≤ -1074
  · exact .inl hleast
  · have hdividend := log2_dividend hm e n f
    have hpos := Nat.two_pow_pos (e - f - quotientExponent m e n f).toNat
    refine .inr (pow_le_div hn (Nat.mul_ne_zero hm (by omega)) (j := 52) ?_)
    rw [quotientExponent] at hdividend hleast ⊢
    omega

/-- The leading bit of a quotient stands at most one below the difference of the leading bits. -/
theorem log2_quotient {m n : Nat} (hm : m ≠ 0) (hn : n ≠ 0) {e f : Int}
    (hreach : -1074 ≤ m.log2 + e - (n.log2 + f) - 1) :
    m * 2 ^ (e - f - quotientExponent m e n f).toNat / n ≠ 0 ∧
      m.log2 + e - (n.log2 + f) - 1 ≤
        (m * 2 ^ (e - f - quotientExponent m e n f).toNat / n).log2 + quotientExponent m e n f := by
  have hdividend := log2_dividend hm e n f
  have hpos := Nat.two_pow_pos (e - f - quotientExponent m e n f).toNat
  have hexponent : quotientExponent m e n f ≤ m.log2 + e - (n.log2 + f) - 1 := by
    rw [quotientExponent]
    omega
  have hpow : 2 ^ (m.log2 + e - (n.log2 + f) - 1 - quotientExponent m e n f).toNat ≤
      m * 2 ^ (e - f - quotientExponent m e n f).toNat / n :=
    pow_le_div hn (Nat.mul_ne_zero hm (by omega)) (by omega)
  have hquotient := Nat.pos_iff_ne_zero.1 (Nat.lt_of_lt_of_le (Nat.two_pow_pos _) hpow)
  have hlog := (Nat.le_log2 hquotient).2 hpow
  exact ⟨hquotient, by omega⟩

theorem isRounded_div (hu : IsCanonical u) (hv : IsCanonical v) :
    IsRounded (UnpackedFloat.div Format.binary64 u v) := by
  cases u with
  | finite s m e hm =>
    cases v with
    | finite t n f hn =>
      simp only [UnpackedFloat.div, divCore_eq]
      exact (roundWithAccuracy_spec _ _ (le_roundedExponent_div (by omega) (by omega) e f)).1
    | _ => trivial
  | _ => cases v <;> trivial

/-- A quotient by a finite double is not NaN. -/
theorem hasSign_div_finite {s t : Sign} {n : Nat} {f : Int} {hn : 0 < n} (hsu : HasSign s u) :
    HasSign (s / t) (UnpackedFloat.div Format.binary64 u (.finite t n f hn)) := by
  cases u with
  | notANumber => cases hsu
  | finite s' m e hm =>
    cases hsu
    simp only [UnpackedFloat.div, divCore_eq]
    exact (roundWithAccuracy_spec _ _ (le_roundedExponent_div (by omega) (by omega) e f)).2
  | _ => cases hsu; rfl

/-- A quotient has the sign of dividend and divisor, unless it is NaN. -/
theorem hasSign_div {s t : Sign} (hsu : HasSign s u) (htv : HasSign t v) :
    UnpackedFloat.div Format.binary64 u v = .notANumber ∨
      HasSign (s / t) (UnpackedFloat.div Format.binary64 u v) := by
  cases u with
  | notANumber => cases hsu
  | infinity s' =>
    cases hsu
    cases v with
    | notANumber => cases htv
    | infinity t' => exact .inl rfl
    | _ => cases htv; exact .inr rfl
  | zero s' =>
    cases hsu
    cases v with
    | notANumber => cases htv
    | zero t' => exact .inl rfl
    | _ => cases htv; exact .inr rfl
  | finite s' m e hm =>
    cases v with
    | notANumber => cases htv
    | finite t' n f hn => cases htv; exact .inr (hasSign_div_finite hsu)
    | _ => cases hsu; cases htv; exact .inr rfl

/-- A quotient by a finite double is smaller by the divisor's magnitude at most. -/
theorem reaches_div {s t : Sign} {k f : Int} {n : Nat} {hn : 0 < n} (hsu : Reaches s k u)
    (hk : -1074 ≤ k - (n.log2 + f) - 1) :
    Reaches (s / t) (k - (n.log2 + f) - 1)
      (UnpackedFloat.div Format.binary64 u (.finite t n f hn)) := by
  cases u with
  | notANumber => cases hsu
  | zero s' => cases hsu
  | infinity s' => cases hsu; rfl
  | finite s' m e hm =>
    obtain ⟨rfl, hsize⟩ := hsu
    obtain ⟨hquotient, hlog⟩ :=
      log2_quotient (m := m) (n := n) (e := e) (f := f) (by omega) (by omega) (by omega)
    simp only [UnpackedFloat.div, divCore_eq]
    exact reaches_roundWithAccuracy hquotient
      (le_roundedExponent_div (by omega) (by omega) e f) hk (by omega)

/-! ## Numbers as doubles -/

/-- Rounding sees a magnitude and not how it is written. -/
theorem roundWithAccuracy_mul_pow (s : Sign) {m : Nat} (hm : m ≠ 0) {e : Int} (k : Nat)
    (he : e + k ≤ roundedExponent m (e + k)) :
    UnpackedFloat.roundWithAccuracy Format.binary64 s (m * 2 ^ k) e .exact =
      UnpackedFloat.roundWithAccuracy Format.binary64 s m (e + k) .exact := by
  have hexponent := roundedExponent_mul_pow hm e k
  rw [roundWithAccuracy_eq s .exact (by omega), roundWithAccuracy_eq s .exact he, hexponent,
    roundedMantissa_exact, roundedMantissa_exact, hexponent,
    show (roundedExponent m (e + k) - e).toNat = (roundedExponent m (e + k) - (e + k)).toNat + k by
      omega, nearest_mul_pow]

/-- A canonical double is rounded already. -/
theorem roundWithAccuracy_canonical {s : Sign} {m : Nat} {e : Int} {hm : 0 < m}
    (h : IsCanonical (.finite s m e hm)) :
    UnpackedFloat.roundWithAccuracy Format.binary64 s m e .exact = .finite s m e hm := by
  obtain ⟨hleast, -, hm', hfull⟩ := h
  have hexponent : roundedExponent m e = e := by
    have hlog := (Nat.log2_lt (by omega) (k := 53)).2 hm'
    have hlog' : e = -1074 ∨ 52 ≤ m.log2 :=
      hfull.imp_right (Nat.le_log2 (by omega) (k := 52)).2
    rw [roundedExponent]
    omega
  rw [roundWithAccuracy_eq s .exact (by omega), roundedMantissa_exact, hexponent, Int.sub_self,
    Int.toNat_zero, nearest_zero, carried,
    dif_neg (by omega), if_neg (by omega)]

/-- The place of a rounded magnitude counts its steps, up to infinity. -/
theorem unpackedPlace_overflowed {m : Nat} {e : Int} {h : 0 < m}
    (hu : IsRounded (.finite .positive m e h)) :
    unpackedPlace (overflowed (.finite .positive m e h)) =
      Min.min ((e + 1074) * 4503599627370496 + m) 9218868437227405312 := by
  obtain ⟨he, hm, hfull⟩ := hu
  rw [overflowed]
  split
  · rw [unpackedPlace_infinity, Sign.apply]
    omega
  · rw [unpackedPlace_finite, Sign.apply]
    omega

theorem unpackedPlace_carried {m : Nat} {e : Int} (hm : m ≤ 9007199254740992) (he : -1074 ≤ e)
    (hfull : -1074 < e → 4503599627370496 ≤ m) :
    unpackedPlace (overflowed (carried .positive m e)) =
      Min.min ((e + 1074) * 4503599627370496 + m) 9218868437227405312 := by
  have hrounded := isRounded_carried (s := .positive) hm he hfull
  rw [carried] at hrounded ⊢
  by_cases hzero : m = 0
  · rw [dif_pos hzero]
    change (0 : Int) = _
    omega
  · rw [dif_neg hzero] at hrounded ⊢
    by_cases hcarry : m = 9007199254740992
    · rw [if_pos hcarry] at hrounded ⊢
      rw [unpackedPlace_overflowed hrounded]
      omega
    · rw [if_neg hcarry] at hrounded ⊢
      exact unpackedPlace_overflowed hrounded

theorem log2_mono {m n : Nat} (h : m ≤ n) : m.log2 ≤ n.log2 := by
  by_cases hm : m = 0
  · rw [hm, Nat.log2_zero]
    exact Nat.zero_le _
  · exact (Nat.le_log2 (by omega)).2 (Nat.le_trans (Nat.log2_self_le hm) h)

/-- Rounding keeps the order of magnitudes. -/
theorem unpackedPlace_roundWithAccuracy_mono {m n : Nat} {e : Int} (hmn : m ≤ n)
    (hm : e ≤ roundedExponent m e) :
    unpackedPlace (overflowed
        (UnpackedFloat.roundWithAccuracy Format.binary64 .positive m e .exact)) ≤
      unpackedPlace (overflowed
        (UnpackedFloat.roundWithAccuracy Format.binary64 .positive n e .exact)) := by
  have hexponents : roundedExponent m e ≤ roundedExponent n e := by
    have := log2_mono hmn
    rw [roundedExponent, roundedExponent]
    omega
  have hleast : -1074 ≤ roundedExponent m e := by rw [roundedExponent]; omega
  have hm' := roundedMantissa_le m e .exact
  have hn' := roundedMantissa_le n e .exact
  have hfull : -1074 < roundedExponent n e → 4503599627370496 ≤ roundedMantissa n e .exact :=
    le_roundedMantissa (Int.le_trans hm hexponents)
  rw [roundWithAccuracy_eq _ _ hm, roundWithAccuracy_eq _ _ (Int.le_trans hm hexponents),
    unpackedPlace_carried hm' hleast (le_roundedMantissa hm),
    unpackedPlace_carried hn' (by omega) hfull]
  rcases Int.lt_or_eq_of_le hexponents with h | h
  · have := hfull (by omega)
    omega
  · have : roundedMantissa m e .exact ≤ roundedMantissa n e .exact := by
      rw [roundedMantissa_exact, roundedMantissa_exact, h]
      exact nearest_mono hmn _
    omega

/-- Multiplication by one. -/
theorem mul_one (hu : IsCanonical u) :
    UnpackedFloat.mul Format.binary64 u (.finite .positive 4503599627370496 (-52) (by decide)) =
      u := by
  cases u with
  | notANumber => rfl
  | infinity s => cases s <;> rfl
  | zero s => cases s <;> rfl
  | finite s m e hm =>
    have hsign : s * .positive = s := by cases s <;> rfl
    have hexponent : e + -52 + ((52 : Nat) : Int) = e := by omega
    have hbits : e ≤ roundedExponent m e :=
      le_roundedExponent (hu.2.2.2.imp_left fun h => by omega)
    change UnpackedFloat.roundWithAccuracy Format.binary64 (s * .positive) (m * 4503599627370496)
      (e + -52) .exact = _
    rw [hsign, show 4503599627370496 = 2 ^ 52 by decide, roundWithAccuracy_mul_pow s (by omega) 52
      (by rwa [hexponent]), hexponent, roundWithAccuracy_canonical hu]

end Backtest.Binary64
