import Backtest.Number.Reader
import Backtest.Proofs.Number.Finite

/-!
# Reading the nearest double

A decimal is read as a quotient or a product that is rounded once. The residual bits of a mantissa
always say how much of it was cut off, so rounding takes the nearest whole number of steps. A
decimal that lies between the midpoints to the two neighbours of a double is therefore read as this
double.

## Main definitions

* `Describes` — what the residual bits of a mantissa say about the number it was cut off from.
* `IsNearest` — the whole number nearest to a number, an even one if two are as near.
* `ReadsBack` — the numbers between the midpoints to the neighbours of a double.
* `roundWithAccuracy_of_readsBack` — rounding takes them to that double.
* `ofDecimal_of_readsBack` — and so does reading a decimal.
-/
namespace Backtest.Binary64

open Float.Model (UnpackedFloat Format)
open Float.Model.UnpackedFloat (Sign Accuracy ExtendedMantissa)

/-! ## Residual bits -/

/-- What the residual bits of a mantissa say about the number that was cut off to it. -/
def Describes : ExtendedMantissa → ℚ → Prop
  | ⟨m, false, false⟩, x => x = m
  | ⟨m, false, true⟩, x => (m : ℚ) < x ∧ x < m + 1 / 2
  | ⟨m, true, false⟩, x => x = m + 1 / 2
  | ⟨m, true, true⟩, x => (m : ℚ) + 1 / 2 < x ∧ x < m + 1

theorem describes_ofFraction (m : ℕ) {r n : ℕ} (hr : r < n) :
    Describes (ExtendedMantissa.ofMantissaAndAccuracy m (UnpackedFloat.accuracyOfFraction r n))
      (m + r / n) := by
  have hn : (0 : ℚ) < n := by exact_mod_cast Nat.lt_of_le_of_lt (Nat.zero_le r) hr
  have hpart : (r : ℚ) / n < 1 := by rw [div_lt_one hn]; exact_mod_cast hr
  rw [UnpackedFloat.accuracyOfFraction]
  split
  · rename_i hzero
    simp [hzero, ExtendedMantissa.ofMantissaAndAccuracy, Describes]
  · rename_i hzero
    have hpos : (0 : ℚ) < r / n := div_pos (by exact_mod_cast Nat.pos_of_ne_zero hzero) hn
    rcases Nat.lt_trichotomy (2 * r) n with hhalf | hhalf | hhalf
    · rw [Nat.compare_eq_lt.2 hhalf]
      have : (r : ℚ) / n < 1 / 2 := by
        rw [div_lt_div_iff₀ hn two_pos]
        exact_mod_cast (by omega : r * 2 < 1 * n)
      exact ⟨by linarith, by linarith⟩
    · rw [Nat.compare_eq_eq.2 hhalf]
      have : (r : ℚ) / n = 1 / 2 := by
        rw [div_eq_div_iff hn.ne' two_ne_zero]
        exact_mod_cast (by omega : r * 2 = 1 * n)
      exact congrArg _ this
    · rw [Nat.compare_eq_gt.2 hhalf]
      have : 1 / 2 < (r : ℚ) / n := by
        rw [div_lt_div_iff₀ two_pos hn]
        exact_mod_cast (by omega : 1 * n < r * 2)
      exact ⟨by linarith, by linarith⟩

/-- One more bit is cut off. -/
theorem Describes.shiftRightOne {em : ExtendedMantissa} {x : ℚ} (h : Describes em x) :
    Describes em.shiftRightOne (x / 2) := by
  obtain ⟨m, round, sticky⟩ := em
  obtain ⟨k, hk⟩ : ∃ k, k = m / 2 := ⟨_, rfl⟩
  rcases Nat.mod_two_eq_zero_or_one m with hbit | hbit
  · have hm : (m : ℚ) = 2 * k := by exact_mod_cast (by omega : m = 2 * k)
    cases round <;> cases sticky <;>
      simp only [Describes, ExtendedMantissa.shiftRightOne, hbit, ← hk, hm, bne_self_eq_false,
        Bool.or_false, Bool.or_true, Bool.or_self] at h ⊢ <;>
      first | linarith | exact ⟨by linarith, by linarith⟩
  · have hone : (1 != 0) = true := rfl
    have hm : (m : ℚ) = 2 * k + 1 := by exact_mod_cast (by omega : m = 2 * k + 1)
    cases round <;> cases sticky <;>
      simp only [Describes, ExtendedMantissa.shiftRightOne, hbit, ← hk, hm, hone, Bool.or_false,
        Bool.or_true, Bool.or_self] at h ⊢ <;>
      first | linarith | exact ⟨by linarith, by linarith⟩

theorem Describes.shiftRight {em : ExtendedMantissa} {x : ℚ} (h : Describes em x) (k : ℕ) :
    Describes (em >>> k) (x / 2 ^ k) := by
  change Describes (Nat.repeat ExtendedMantissa.shiftRightOne k em) _
  induction k with
  | zero => simpa [Nat.repeat] using h
  | succ k ih =>
    rw [Nat.repeat, pow_succ, ← div_div]
    exact ih.shiftRightOne

/-- The whole number nearest to `x`, an even one if two are as near. -/
structure IsNearest (m : ℕ) (x : ℚ) : Prop where
  lower : 2 * (m : ℚ) - 1 ≤ 2 * x
  upper : 2 * x ≤ 2 * m + 1
  strict : m % 2 = 1 → 2 * (m : ℚ) - 1 < 2 * x ∧ 2 * x < 2 * m + 1

theorem Describes.isNearest {em : ExtendedMantissa} {x : ℚ} (h : Describes em x) :
    IsNearest em.roundedMantissa x := by
  obtain ⟨m, round, sticky⟩ := em
  cases round <;> cases sticky <;>
    simp only [Describes, ExtendedMantissa.roundedMantissa, ExtendedMantissa.accuracy,
      Accuracy.roundToNearestEven] at h ⊢
  case true.false =>
    rcases Nat.mod_two_eq_zero_or_one m with hbit | hbit
    · rw [hbit, Nat.add_zero]
      exact ⟨by linarith, by linarith, by omega⟩
    · rw [hbit]
      exact ⟨by push_cast; linarith, by push_cast; linarith, by omega⟩
  all_goals
    refine ⟨?_, ?_, fun _ => ⟨?_, ?_⟩⟩ <;> push_cast <;> linarith

/-- Only one whole number is the nearest. -/
theorem IsNearest.eq {m n : ℕ} {x : ℚ} (hm : IsNearest m x) (hn : IsNearest n x) : m = n := by
  -- Neighbours that are as near cannot both be even.
  have key : ∀ {a b : ℕ}, IsNearest a x → IsNearest b x → ¬ a < b := by
    intro a b ha hb hlt
    have hupper := ha.upper
    have hlower := hb.lower
    have hnext : b = a + 1 := by
      have : (b : ℚ) ≤ a + 1 := by linarith
      have : b ≤ a + 1 := by exact_mod_cast this
      omega
    rcases Nat.mod_two_eq_zero_or_one a with hbit | hbit
    · have := (hb.strict (by omega)).1
      rw [hnext] at this
      push_cast at this
      linarith
    · have := (ha.strict hbit).2
      rw [hnext] at hlower
      push_cast at hlower
      linarith
  exact Nat.le_antisymm (Nat.le_of_not_lt (key hn hm)) (Nat.le_of_not_lt (key hm hn))

/-! ## Rounding to a double -/

section Rounding

variable {M r n : ℕ} {E : ℤ}

/-- The rounded mantissa counts the nearest number of steps. -/
theorem isNearest_roundedMantissa (hr : r < n) (hE : E ≤ roundedExponent M E) :
    IsNearest (roundedMantissa M E (UnpackedFloat.accuracyOfFraction r n))
      ((M + r / n) * 2 ^ E / 2 ^ roundedExponent M E) := by
  have h := ((describes_ofFraction M hr).shiftRight (roundedExponent M E - E).toNat).isNearest
  have hscale : ((M : ℚ) + r / n) / 2 ^ (roundedExponent M E - E).toNat =
      (M + r / n) * 2 ^ E / 2 ^ roundedExponent M E := by
    rw [← zpow_natCast, Int.toNat_of_nonneg (by omega), zpow_sub₀ two_ne_zero, div_div_eq_mul_div]
  rwa [hscale] at h

theorem fraction_bounds (M : ℕ) (hr : r < n) :
    (M : ℚ) ≤ M + r / n ∧ (M : ℚ) + r / n < M + 1 := by
  have hn : (0 : ℚ) < n := by exact_mod_cast Nat.lt_of_le_of_lt (Nat.zero_le r) hr
  have hpart : (r : ℚ) / n < 1 := by rw [div_lt_one hn]; exact_mod_cast hr
  have : (0 : ℚ) ≤ r / n := by positivity
  exact ⟨by linarith, by linarith⟩

/-- A number below `2 ^ 53` steps has no larger step. -/
theorem roundedExponent_le {e : ℤ} (hr : r < n) (hE : E ≤ roundedExponent M E) (he : -1074 ≤ e)
    (h : ((M : ℚ) + r / n) * 2 ^ E < 2 ^ (e + 53)) : roundedExponent M E ≤ e := by
  by_cases hM : M = 0
  · rw [roundedExponent, hM, Nat.log2_zero] at hE ⊢
    omega
  · have hbits : (2 : ℚ) ^ ((M.log2 : ℤ) + E) < 2 ^ (e + 53) := by
      refine lt_of_le_of_lt ?_ h
      rw [zpow_add₀ two_ne_zero, zpow_natCast]
      have hmantissa : (2 : ℚ) ^ M.log2 ≤ M := by exact_mod_cast Nat.log2_self_le hM
      exact mul_le_mul_of_nonneg_right (hmantissa.trans (fraction_bounds M hr).1) (by positivity)
    have := (zpow_lt_zpow_iff_right₀ one_lt_two).1 hbits
    rw [roundedExponent]
    omega

/-- A number of at least `2 ^ 52` steps has no smaller step. -/
theorem le_roundedExponent_of_le {e : ℤ} (hr : r < n)
    (h : (2 : ℚ) ^ (e + 52) ≤ (M + r / n) * 2 ^ E) : e ≤ roundedExponent M E := by
  have hbits : (2 : ℚ) ^ (e + 52) < 2 ^ ((M.log2 : ℤ) + 1 + E) := by
    refine lt_of_le_of_lt h ?_
    rw [zpow_add₀ two_ne_zero (M.log2 + 1 : ℤ)]
    refine mul_lt_mul_of_pos_right (lt_of_lt_of_le (fraction_bounds M hr).2 ?_) (by positivity)
    exact_mod_cast (Nat.lt_log2_self (n := M))
  have := (zpow_lt_zpow_iff_right₀ one_lt_two).1 hbits
  rw [roundedExponent]
  omega

end Rounding

/-- Half the distance to the neighbour below, in steps: below a power of two it is only half as
far. -/
def halfBelow (m : ℕ) (e : ℤ) : ℚ := if m = 4503599627370496 ∧ -1074 < e then 1 / 4 else 1 / 2

theorem halfBelow_bounds (m : ℕ) (e : ℤ) : 1 / 4 ≤ halfBelow m e ∧ halfBelow m e ≤ 1 / 2 := by
  rw [halfBelow]
  split <;> norm_num

/-- A number between the midpoints to the neighbours of `m * 2 ^ e`. The midpoints themselves belong
to an even mantissa. -/
@[mk_iff] structure ReadsBack (m : ℕ) (e : ℤ) (q : ℚ) : Prop where
  lower : (m - halfBelow m e) * 2 ^ e ≤ q
  upper : q ≤ (m + 1 / 2) * 2 ^ e
  strict : m % 2 = 1 → (m - halfBelow m e) * 2 ^ e < q ∧ q < (m + 1 / 2) * 2 ^ e

namespace ReadsBack

variable {m : ℕ} {e : ℤ} {q : ℚ} {s : Sign} {hm : 0 < m}

/-- Counted in steps it is next to the mantissa. -/
theorem isNearest (h : ReadsBack m e q) : IsNearest m (q / 2 ^ e) := by
  have hstep : (0 : ℚ) < 2 ^ e := by positivity
  have hhalf := (halfBelow_bounds m e).2
  obtain ⟨hlower, hupper, hstrict⟩ := h
  rw [← le_div_iff₀ hstep] at hlower
  rw [← div_le_iff₀ hstep] at hupper
  rw [← lt_div_iff₀ hstep, ← div_lt_iff₀ hstep] at hstrict
  refine ⟨by linarith, by linarith, fun hodd => ?_⟩
  obtain ⟨hlower', hupper'⟩ := hstrict hodd
  exact ⟨by linarith, by linarith⟩

theorem lt_pow (h : ReadsBack m e q) (hcanonical : IsCanonical (.finite s m e hm)) :
    q < 2 ^ (e + 53) := by
  have hm' : (m : ℚ) ≤ 9007199254740991 := by exact_mod_cast Nat.le_of_lt_succ hcanonical.2.2.1
  calc q ≤ (m + 1 / 2) * 2 ^ e := h.upper
    _ < 2 ^ 53 * 2 ^ e := mul_lt_mul_of_pos_right (by linarith) (by positivity)
    _ = 2 ^ (e + 53) := by rw [zpow_add₀ two_ne_zero, mul_comm]; norm_num

/-- Above the least exponent and a power of two it has all bits. -/
theorem pow_le (h : ReadsBack m e q) (hfull : 4503599627370496 < m) : 2 ^ (e + 52) ≤ q := by
  have hm' : (4503599627370497 : ℚ) ≤ m := by exact_mod_cast hfull
  have hhalf := (halfBelow_bounds m e).2
  calc (2 : ℚ) ^ (e + 52) = 2 ^ 52 * 2 ^ e := by rw [zpow_add₀ two_ne_zero, mul_comm]; norm_num
    _ ≤ (m - halfBelow m e) * 2 ^ e := mul_le_mul_of_nonneg_right (by linarith) (by positivity)
    _ ≤ q := h.lower

end ReadsBack

/-- Rounding takes a number between the midpoints to the double. -/
theorem roundWithAccuracy_of_readsBack {s : Sign} {m M r n : ℕ} {e E : ℤ} {hm : 0 < m}
    (hcanonical : IsCanonical (.finite s m e hm)) (hr : r < n) (hE : E ≤ roundedExponent M E)
    (h : ReadsBack m e ((M + r / n) * 2 ^ E)) :
    UnpackedFloat.roundWithAccuracy Format.binary64 s M E
      (UnpackedFloat.accuracyOfFraction r n) = .finite s m e hm := by
  have hrounded := isNearest_roundedMantissa hr hE
  have hle := roundedExponent_le hr hE hcanonical.1 (h.lt_pow hcanonical)
  rw [roundWithAccuracy_eq s _ hE]
  by_cases hsame : roundedExponent M E = e
  · rw [hsame] at hrounded ⊢
    rw [hrounded.eq h.isNearest, carried, dif_neg (by omega),
      if_neg (by have := hcanonical.2.2.1; omega)]
  -- Only just below a power of two the step is smaller, and rounding carries.
  · have hleast : -1074 ≤ roundedExponent M E := by rw [roundedExponent]; omega
    have hsmall : ((M : ℚ) + r / n) * 2 ^ E < 2 ^ (e + 52) :=
      not_le.1 fun hlarge => hsame (le_antisymm hle (le_roundedExponent_of_le hr hlarge))
    have hpower : m = 4503599627370496 := by
      rcases hcanonical.2.2.2 with hbottom | hfull
      · omega
      · exact le_antisymm (not_lt.1 fun hlt => (not_le.2 hsmall) (h.pow_le hlt)) hfull
    have hhalf : halfBelow m e = 1 / 4 := if_pos ⟨hpower, by omega⟩
    have hlower := h.lower
    rw [hhalf, hpower] at hlower
    have hnext : roundedExponent M E = e - 1 := by
      refine le_antisymm (by omega) (le_roundedExponent_of_le hr (LE.le.trans ?_ hlower))
      rw [show e - 1 + 52 = e + 51 by ring, zpow_add₀ two_ne_zero, mul_comm]
      exact mul_le_mul_of_nonneg_right (by norm_num) (by positivity)
    have hcarry : IsNearest 9007199254740992 (((M : ℚ) + r / n) * 2 ^ E / 2 ^ (e - 1)) := by
      have hstep : (0 : ℚ) < 2 ^ (e - 1) := by positivity
      have hdouble : (2 : ℚ) ^ e = 2 * 2 ^ (e - 1) := by
        rw [mul_comm, ← zpow_add_one₀ two_ne_zero, sub_add_cancel]
      have hpow : (2 : ℚ) ^ (e + 52) = 9007199254740992 * 2 ^ (e - 1) := by
        rw [zpow_add₀ two_ne_zero, hdouble]
        ring
      rw [hdouble, ← mul_assoc, ← le_div_iff₀ hstep] at hlower
      rw [hpow, ← div_lt_iff₀ hstep] at hsmall
      refine ⟨?_, ?_, fun hodd => absurd hodd (by decide)⟩ <;> push_cast at hlower ⊢ <;> linarith
    rw [hnext] at hrounded ⊢
    rw [hrounded.eq hcarry, carried, dif_neg (by decide), if_pos rfl, UnpackedFloat.finite.injEq]
    exact ⟨rfl, hpower.symm, by omega⟩

/-! ## Products and quotients -/

section Exact

variable {s t : Sign} {m M N : ℕ} {e E F : ℤ} {hm : 0 < m} {hM : 0 < M} {hN : 0 < N}

/-- A product between the midpoints is the double. -/
theorem roundWithAccuracy_exact_of_readsBack (hcanonical : IsCanonical (.finite s m e hm))
    (hE : E ≤ roundedExponent M E) (h : ReadsBack m e (M * 2 ^ E)) :
    UnpackedFloat.roundWithAccuracy Format.binary64 s M E .exact = .finite s m e hm := by
  have hexact : UnpackedFloat.accuracyOfFraction 0 1 = .exact := rfl
  rw [← hexact]
  exact roundWithAccuracy_of_readsBack hcanonical Nat.one_pos hE (by simpa using h)

/-- The digits of a quotient and what is left over are the quotient. -/
theorem quotient_value (M : ℕ) (hN : 0 < N) {f : ℤ} (hle : f ≤ E - F) :
    (((M * 2 ^ (E - F - f).toNat / N : ℕ) : ℚ) + (M * 2 ^ (E - F - f).toNat % N : ℕ) / N) * 2 ^ f =
      M * 2 ^ E / (N * 2 ^ F) := by
  have hshift : (2 : ℚ) ^ (E - F - f).toNat = 2 ^ (E - F - f) := by
    rw [← zpow_natCast, Int.toNat_of_nonneg (by omega)]
  have hvalue : ((M * 2 ^ (E - F - f).toNat / N : ℕ) : ℚ) +
      (M * 2 ^ (E - F - f).toNat % N : ℕ) / N = M * 2 ^ (E - F - f) / N := by
    have hN' : (N : ℚ) ≠ 0 := by exact_mod_cast hN.ne'
    rw [← hshift, eq_div_iff hN', add_mul, div_mul_cancel₀ _ hN']
    exact_mod_cast Nat.div_add_mod' (M * 2 ^ (E - F - f).toNat) N
  have hpow : (2 : ℚ) ^ (E - F - f) * 2 ^ f = 2 ^ E / 2 ^ F := by
    rw [← zpow_add₀ two_ne_zero, sub_add_cancel, zpow_sub₀ two_ne_zero]
  rw [hvalue, div_mul_eq_mul_div, mul_assoc, hpow, mul_div_assoc', div_div, mul_comm ((2 : ℚ) ^ F)]

theorem quotientExponent_le (m : ℕ) (e : ℤ) (n : ℕ) (f : ℤ) : quotientExponent m e n f ≤ e - f :=
  Int.min_le_left _ _

/-- A quotient between the midpoints is the double. -/
theorem div_of_readsBack (hcanonical : IsCanonical (.finite (s / t) m e hm))
    (h : ReadsBack m e (M * 2 ^ E / (N * 2 ^ F))) :
    UnpackedFloat.div Format.binary64 (.finite s M E hM) (.finite t N F hN) =
      .finite (s / t) m e hm := by
  simp only [UnpackedFloat.div, divCore_eq]
  refine roundWithAccuracy_of_readsBack hcanonical (Nat.mod_lt _ hN)
    (le_roundedExponent_div hM.ne' hN.ne' E F) ?_
  rw [quotient_value M hN (quotientExponent_le M E N F)]
  exact h

end Exact

/-! ## Decimals -/

/-- A number of 53 bits is a double. -/
theorem exists_unpack_toFloat {n : ℕ} (hn : n ≠ 0) (hsmall : n < 2 ^ 53) :
    ∃ m e h, n.toUInt64.toFloat.toModel.unpack = .finite .positive m e h ∧
      (m : ℚ) * 2 ^ e = n := by
  have hlog : n.log2 ≤ 52 := Nat.lt_succ_iff.1 ((Nat.log2_lt hn).2 hsmall)
  obtain ⟨k, hk, -, hround⟩ := round_eq .positive hn 0
  have hbits : (n * 2 ^ k).log2 = 52 := by
    rw [log2_mul_pow hn]
    rw [roundedExponent] at hk
    omega
  have hpos : n * 2 ^ k ≠ 0 := Nat.mul_ne_zero hn (Nat.pos_iff_ne_zero.1 (Nat.two_pow_pos k))
  have hcanonical :
      IsCanonical (.finite .positive (n * 2 ^ k) (0 - k) (Nat.pos_of_ne_zero hpos)) := by
    rw [roundedExponent] at hk
    exact ⟨by omega, by omega, (Nat.log2_lt hpos (k := 53)).1 (by omega),
      .inr ((Nat.le_log2 hpos (k := 52)).1 (by omega))⟩
  refine ⟨n * 2 ^ k, 0 - k, Nat.pos_of_ne_zero hpos, ?_, ?_⟩
  · rw [unpack_toFloat hsmall, normalize_ofNat hn, hround, roundWithAccuracy_canonical hcanonical,
      overflowed_of_isCanonical hcanonical]
  · rw [zero_sub, zpow_neg, zpow_natCast]
    push_cast
    exact mul_inv_cancel_right₀ (by positivity) _

/-- A magnitude that is a whole number. -/
def IsWhole (n : ℕ) : UnpackedFloat → Prop
  | .finite .positive m e _ => m * 2 ^ e.toNat = n * 2 ^ (-e).toNat
  | _ => False

instance (n : ℕ) : DecidablePred (IsWhole n)
  | .finite .positive m e _ => inferInstanceAs (Decidable (m * 2 ^ e.toNat = n * 2 ^ (-e).toNat))
  | .finite .negative _ _ _ => isFalse id
  | .notANumber => isFalse id
  | .infinity _ => isFalse id
  | .zero _ => isFalse id

theorem IsWhole.exists_finite {n : ℕ} {u : UnpackedFloat} (h : IsWhole n u) :
    ∃ m e hm, u = .finite .positive m e hm ∧ (m : ℚ) * 2 ^ e = n := by
  cases u with
  | finite s m e hm =>
    cases s with
    | negative => exact h.elim
    | positive =>
      refine ⟨m, e, hm, rfl, ?_⟩
      have hvalue : (m : ℚ) * 2 ^ e.toNat = n * 2 ^ (-e).toNat := by exact_mod_cast h
      rcases Int.le_total 0 e with he | he
      · have hpow : (2 : ℚ) ^ e = 2 ^ e.toNat := by rw [← zpow_natCast, Int.toNat_of_nonneg he]
        rw [show (-e).toNat = 0 by omega, pow_zero] at hvalue
        rw [hpow]
        linarith
      · have hpow : (2 : ℚ) ^ e = (2 ^ (-e).toNat)⁻¹ := by
          rw [← zpow_natCast, Int.toNat_of_nonneg (by omega), zpow_neg, inv_inv]
        rw [show e.toNat = 0 by omega, pow_zero] at hvalue
        rw [hpow, ← div_eq_mul_inv, div_eq_iff (by positivity)]
        linarith
  | _ => exact h.elim

/-- The powers of ten in the table are exact. -/
theorem isWhole_powerOfTen : ∀ k : ℕ, ∀ h : k < Float.exactlyRepresentablePowersOfTen.size,
    IsWhole (10 ^ k) Float.exactlyRepresentablePowersOfTen[k].toModel.unpack := by
  decide +kernel

section Decimal

variable {x : Float} {m digits : ℕ} {e k : ℤ} {hm : 0 < m}

/-- A decimal of a few digits is read by one operation on doubles. -/
theorem ofScientific_of_small (hx : x.toModel.unpack = .finite .positive m e hm)
    (hdigits : digits ≠ 0) (hsmall : digits < 2 ^ 53 ∧ k.natAbs ≤ 22)
    (h : ReadsBack m e (digits * 10 ^ k)) :
    (Float.ofScientific digits (k < 0) k.natAbs).toModel.unpack = x.toModel.unpack := by
  have hcanonical : IsCanonical (.finite .positive m e hm) := hx ▸ canonical_unpack x
  obtain ⟨M, E, hM, hword, hvalue⟩ := exists_unpack_toFloat hdigits hsmall.1
  obtain ⟨N, F, hN, hpower, htable⟩ :=
    (isWhole_powerOfTen k.natAbs
      (by simp [Float.exactlyRepresentablePowersOfTen]; omega)).exists_finite
  push_cast at htable
  have hcM : IsCanonical (.finite .positive M E hM) := hword ▸ canonical_unpack _
  have hcN : IsCanonical (.finite .positive N F hN) := hpower ▸ canonical_unpack _
  rw [Float.ofScientific, dif_pos hsmall]
  by_cases hneg : k < 0
  · rw [decide_eq_true hneg]
    refine (unpack_div _ _).trans ?_
    have hinv : (10 : ℚ) ^ k = (10 ^ k.natAbs)⁻¹ := by
      rw [← zpow_natCast, ← zpow_neg]
      congr 1
      omega
    have hquotient : UnpackedFloat.div Format.binary64 (.finite .positive M E hM)
        (.finite .positive N F hN) = .finite .positive m e hm :=
      div_of_readsBack hcanonical (by rwa [hvalue, htable, div_eq_mul_inv, ← hinv])
    rw [hword, hpower, hx, hquotient, overflowed_of_isCanonical hcanonical]
  · rw [decide_eq_false hneg]
    refine (unpack_mul _ _).trans ?_
    have hpow : (10 : ℚ) ^ k = 10 ^ k.natAbs := by
      rw [← zpow_natCast]
      congr 1
      omega
    have hproduct : UnpackedFloat.mul Format.binary64 (.finite .positive M E hM)
        (.finite .positive N F hN) = .finite .positive m e hm := by
      refine roundWithAccuracy_exact_of_readsBack hcanonical (le_roundedExponent_mul hcM hcN) ?_
      rw [hpow, ← hvalue, ← htable] at h
      rw [zpow_add₀ two_ne_zero]
      push_cast
      rwa [mul_mul_mul_comm] at h
    rw [hword, hpower, hx, hproduct, overflowed_of_isCanonical hcanonical]

/-- A longer one is read by one operation on exact numbers. -/
theorem unpack_ofScientific_of_readsBack (hcanonical : IsCanonical (.finite .positive m e hm))
    (hdigits : digits ≠ 0) (hlarge : k ≤ 400) (hleast : -1200 ≤ k + (digits.log2 : ℤ))
    (h : ReadsBack m e (digits * 10 ^ k)) :
    UnpackedFloat.ofScientific Format.binary64 digits k = .finite .positive m e hm := by
  rw [UnpackedFloat.ofScientific, dif_neg hdigits]
  have hnotLarge : ¬ (2 ^ Format.binary64.exponentBits : ℤ) < k := by
    change ¬ (2048 : ℤ) < k
    omega
  have hnotSmall : ¬ k < -((2 ^ Format.binary64.exponentBits : ℤ) + digits.log2) := by
    change ¬ k < -((2048 : ℤ) + digits.log2)
    omega
  rw [if_neg hnotLarge, if_neg hnotSmall]
  split
  · rename_i hnonneg
    change UnpackedFloat.roundWithAccuracy Format.binary64 .positive
      ((digits <<< 53) * 10 ^ k.toNat) (-53 + 0) .exact = _
    rw [Nat.shiftLeft_eq]
    have hpos : 0 < digits * 10 ^ k.toNat := Nat.mul_pos (by omega) (Nat.pow_pos (by decide))
    refine roundWithAccuracy_exact_of_readsBack hcanonical (le_roundedExponent (.inr ?_)) ?_
    · calc 4503599627370496 ≤ 2 ^ 53 * (digits * 10 ^ k.toNat) := by omega
        _ = digits * 2 ^ 53 * 10 ^ k.toNat := by ring
    · have hpow : (10 : ℚ) ^ k = 10 ^ k.toNat := by
        rw [← zpow_natCast, Int.toNat_of_nonneg hnonneg]
      rw [hpow] at h
      have hvalue : ((digits * 2 ^ 53 * 10 ^ k.toNat : ℕ) : ℚ) * 2 ^ (-53 + 0 : ℤ) =
          digits * 10 ^ k.toNat := by
        push_cast
        norm_num
        ring
      rwa [hvalue]
  · rename_i hneg
    refine div_of_readsBack hcanonical ?_
    have hinv : (10 : ℚ) ^ k = (10 ^ (-k).toNat)⁻¹ := by
      rw [← zpow_natCast, ← zpow_neg, Int.toNat_of_nonneg (by omega), neg_neg]
    rw [hinv] at h
    simpa [div_eq_mul_inv] using h

/-- A decimal below all powers of two beyond the largest double has no large exponent. -/
theorem exponent_le_of_lt (hdigits : digits ≠ 0) (h : (digits : ℚ) * 10 ^ k < 2 ^ (1024 : ℤ)) :
    k ≤ 400 := by
  by_contra hlarge
  obtain ⟨j, rfl⟩ : ∃ j : ℕ, k = j := ⟨k.toNat, by omega⟩
  have hone : (1 : ℚ) ≤ digits := by exact_mod_cast Nat.pos_of_ne_zero hdigits
  have hpow : (2 : ℚ) ^ (1024 : ℤ) ≤ digits * 10 ^ (j : ℤ) := by
    calc (2 : ℚ) ^ (1024 : ℤ) ≤ 2 ^ ((3 * j : ℕ) : ℤ) :=
          zpow_le_zpow_right₀ one_le_two (by omega)
      _ = 8 ^ j := by rw [zpow_natCast, pow_mul]; norm_num
      _ ≤ 10 ^ j := pow_le_pow_left₀ (by norm_num) (by norm_num) _
      _ = 10 ^ (j : ℤ) := (zpow_natCast _ _).symm
      _ ≤ digits * 10 ^ (j : ℤ) := le_mul_of_one_le_left (by positivity) hone
  exact absurd h (not_lt.2 hpow)

/-- A decimal that is not below half of the least double has enough digits for its exponent. -/
theorem le_exponent_of_le (h : (2 : ℚ) ^ (-1075 : ℤ) ≤ digits * 10 ^ k) :
    -1200 ≤ k + (digits.log2 : ℤ) := by
  by_contra hsmall
  have hpow : (10 : ℚ) ^ k ≤ 2 ^ k := by
    have hinv : ∀ b : ℚ, b ^ k = (b ^ (-k).toNat)⁻¹ := fun b => by
      rw [← zpow_natCast, ← zpow_neg, Int.toNat_of_nonneg (by omega), neg_neg]
    rw [hinv, hinv]
    exact inv_anti₀ (by positivity) (pow_le_pow_left₀ (by norm_num) (by norm_num) _)
  have hbits : (digits : ℚ) < 2 ^ ((digits.log2 : ℤ) + 1) := by
    exact_mod_cast (Nat.lt_log2_self (n := digits))
  have hlt : (digits : ℚ) * 10 ^ k < 2 ^ (-1075 : ℤ) := by
    calc (digits : ℚ) * 10 ^ k ≤ digits * 2 ^ k := mul_le_mul_of_nonneg_left hpow (by positivity)
      _ < 2 ^ ((digits.log2 : ℤ) + 1) * 2 ^ k := mul_lt_mul_of_pos_right hbits (by positivity)
      _ = 2 ^ ((digits.log2 : ℤ) + 1 + k) := (zpow_add₀ two_ne_zero _ _).symm
      _ ≤ 2 ^ (-1075 : ℤ) := zpow_le_zpow_right₀ one_le_two (by omega)
  exact absurd h (not_le.2 hlt)

/-- What reads back is not far outside the range of doubles. -/
theorem bounds_of_readsBack (hcanonical : IsCanonical (.finite .positive m e hm))
    (h : ReadsBack m e (digits * 10 ^ k)) :
    digits ≠ 0 ∧ k ≤ 400 ∧ -1200 ≤ k + (digits.log2 : ℤ) := by
  have hlower : (2 : ℚ) ^ (-1075 : ℤ) ≤ digits * 10 ^ k := by
    have hm' : (1 : ℚ) ≤ m := by exact_mod_cast hm
    have hhalf := (halfBelow_bounds m e).2
    calc (2 : ℚ) ^ (-1075 : ℤ) ≤ 2 ^ (e - 1) :=
          zpow_le_zpow_right₀ one_le_two (by have := hcanonical.1; omega)
      _ = 1 / 2 * 2 ^ e := by rw [zpow_sub_one₀ two_ne_zero]; ring
      _ ≤ (m - halfBelow m e) * 2 ^ e := mul_le_mul_of_nonneg_right (by linarith) (by positivity)
      _ ≤ digits * 10 ^ k := h.lower
  have hupper : (digits : ℚ) * 10 ^ k < 2 ^ (1024 : ℤ) :=
    lt_of_lt_of_le (h.lt_pow hcanonical)
      (zpow_le_zpow_right₀ one_le_two (by have := hcanonical.2.1; omega))
  have hdigits : digits ≠ 0 := by
    rintro rfl
    rw [Nat.cast_zero, zero_mul] at hlower
    exact absurd hlower (not_le.2 (by positivity))
  exact ⟨hdigits, exponent_le_of_lt hdigits hupper, le_exponent_of_le hlower⟩

/-- A decimal between the midpoints to the neighbours of a double is read as this double. -/
theorem ofDecimal_of_readsBack (hx : x.toModel.unpack = .finite .positive m e hm)
    (h : ReadsBack m e (digits * 10 ^ k)) : ofDecimal digits k = x := by
  have hcanonical : IsCanonical (.finite .positive m e hm) := hx ▸ canonical_unpack x
  obtain ⟨hdigits, hlarge, hleast⟩ := bounds_of_readsBack hcanonical h
  have hnan : x.isNaN = false := isNaN_of_hasSign (s := .positive) (hx ▸ rfl)
  rw [ofDecimal, if_neg (by simpa using hdigits), if_neg (by omega), if_neg (by omega)]
  refine (eq_of_unpack_eq hnan ?_).symm
  by_cases hsmall : digits < 2 ^ 53 ∧ k.natAbs ≤ 22
  · exact (ofScientific_of_small hx hdigits hsmall h).symm
  · have hexponent : (if decide (k < 0) = true then Int.negOfNat k.natAbs else Int.ofNat k.natAbs) =
        k := by
      split
      · rename_i hneg
        rw [decide_eq_true_iff] at hneg
        rw [Int.negOfNat_eq]
        simp only [Int.ofNat_eq_natCast]
        omega
      · rename_i hneg
        rw [decide_eq_true_iff] at hneg
        simp only [Int.ofNat_eq_natCast]
        omega
    rw [Float.ofScientific, dif_neg hsmall, hexponent]
    have hread := unpack_ofScientific_of_readsBack hcanonical hdigits hlarge hleast h
    refine Eq.symm ((unpack_ofModel ?_).trans ?_)
    · rw [hread]
      exact isRounded_of_isCanonical hcanonical
    · rw [hread, hx]
      exact overflowed_of_isCanonical hcanonical

end Decimal

end Backtest.Binary64
