import Backtest.Proofs.Number.Arithmetic

/-!
# Finite doubles

A result is infinite only if its magnitude is beyond the greatest exponent, so an operation whose
operands leave room there has a finite result. Rounding makes a magnitude at most twice as large,
and dividing by a double of at least one makes none larger. Counts below `2 ^ 64` are far from the
end: their quotients are finite, and a count over itself is one.

## Main definitions

* `StaysBelow` — a finite unpacked double below a power of two.
* `isFinite_of_staysBelow` — below `2 ^ 1024` a rounded double does not overflow.
* `staysBelow_div` — quotients by doubles of at least one.
* `isFinite_div_ofNat`, `div_self_ofNat` — quotients of counts.
* `isFinite_or_eq_infinity` — a double of positive sign is finite or infinity.
-/
namespace Backtest.Binary64

open Float.Model (UnpackedFloat Format)
open Float.Model.UnpackedFloat (Sign Accuracy)

variable {x y : Float} {u v : UnpackedFloat}

theorem isFinite_iff : x.isFinite = true ↔ x.toModel.unpack.isFinite = true := Iff.rfl

theorem isFinite_cases (hx : x.isFinite = true) :
    (∃ s, x.toModel.unpack = .zero s) ∨
      ∃ s m e hm, x.toModel.unpack = .finite s m e hm ∧ IsCanonical (.finite s m e hm) := by
  have hcanonical := canonical_unpack x
  rw [isFinite_iff] at hx
  cases h : x.toModel.unpack with
  | notANumber => rw [h] at hx; cases hx
  | infinity s => rw [h] at hx; cases hx
  | zero s => exact .inl ⟨s, rfl⟩
  | finite s m e hm => exact .inr ⟨s, m, e, hm, rfl, h ▸ hcanonical⟩

theorem isFinite_of_isFinite_neg (h : u.neg.isFinite = true) : u.isFinite = true := by
  cases u with
  | notANumber => cases h
  | infinity s => cases h
  | zero s => rfl
  | finite s m e hm => rfl

/-- A double other than NaN is told by its parts. -/
theorem eq_of_unpack_eq (hx : x.isNaN = false) (h : x.toModel.unpack = y.toModel.unpack) :
    x = y := by
  have hy : y.isNaN = false := by
    change y.toModel.unpack.isNaN = false
    rw [← h]
    exact hx
  have hplace : place x = place y := by rw [← unpack_place hx, ← unpack_place hy, h]
  rcases eq_or_zero_of_place_eq hplace with heq | ⟨rfl, rfl⟩ | ⟨rfl, rfl⟩
  · exact heq
  · rw [unpack_zero, unpack_negZero] at h
    cases h
  · rw [unpack_zero, unpack_negZero] at h
    cases h

/-- Zero, or of a magnitude below `2 ^ k`. -/
def StaysBelow (k : Int) : UnpackedFloat → Prop
  | .zero _ => True
  | .finite _ m e _ => m.log2 + e < k
  | _ => False

/-- A rounded double below `2 ^ 1024` has an exponent that a word can hold. -/
theorem overflowed_of_staysBelow (hu : IsRounded u) (h : StaysBelow 1024 u) : overflowed u = u := by
  cases u with
  | finite s m e hm =>
    have hexponent : ¬ 971 < e := by
      intro hlarge
      have hfull : 52 ≤ m.log2 := (Nat.le_log2 (by omega)).2 (hu.2.2.resolve_left (by omega))
      have hbelow : (m.log2 : Int) + e < 1024 := h
      omega
    simp [overflowed, hexponent]
  | _ => rfl

theorem StaysBelow.mono {k j : Int} (h : StaysBelow k u) (hkj : k ≤ j) : StaysBelow j u := by
  cases u with
  | finite s m e hm => exact Int.lt_of_lt_of_le h hkj
  | _ => exact h

theorem isFinite_of_staysBelow {k : Int} (h : StaysBelow k u) : u.isFinite = true := by
  cases u with
  | notANumber => cases h
  | infinity s => cases h
  | _ => rfl

/-- Rounding adds at most one to the leading place of a magnitude. -/
theorem staysBelow_roundWithAccuracy {m : Nat} {e k : Int} {s : Sign} {accuracy : Accuracy}
    (he : e ≤ roundedExponent m e) (hk : -1020 ≤ k) (h : m.log2 + e + 1 < k) :
    StaysBelow k (UnpackedFloat.roundWithAccuracy Format.binary64 s m e accuracy) := by
  have hle := roundedMantissa_le m e accuracy
  have hexponent : roundedExponent m e + 53 < k := by
    rw [roundedExponent]
    omega
  rw [roundWithAccuracy_eq s accuracy he, carried]
  split
  · trivial
  · rename_i hzero
    split
    · have hlog : Nat.log2 4503599627370496 = 52 := Nat.log2_two_pow (n := 52)
      simp only [StaysBelow, hlog]
      omega
    · have hlog := (Nat.log2_lt hzero (k := 54)).2 (by omega)
      simp only [StaysBelow]
      omega

/-- A quotient has at most the bits of the dividend that the divisor leaves. -/
theorem log2_div_le {a n : Nat} (hquotient : a / n ≠ 0) :
    (a / n).log2 + n.log2 ≤ a.log2 := by
  have hn : n ≠ 0 := fun h => hquotient (by simp [h])
  have ha : a ≠ 0 := fun h => hquotient (by simp [h])
  rw [Nat.le_log2 ha, Nat.pow_add]
  calc 2 ^ (a / n).log2 * 2 ^ n.log2 ≤ a / n * n :=
        Nat.mul_le_mul (Nat.log2_self_le hquotient) (Nat.log2_self_le hn)
    _ ≤ a := Nat.div_mul_le_self a n

/-- A divisor of at least one makes no magnitude larger, but for rounding. -/
theorem staysBelow_div {k : Int} {t : Sign} (hk : -1022 ≤ k) (hu : StaysBelow k u)
    (hv : Reaches t 0 v) : StaysBelow (k + 2) (UnpackedFloat.div Format.binary64 u v) := by
  cases u with
  | notANumber => cases hu
  | infinity s => cases hu
  | zero s =>
    cases v with
    | notANumber => cases hv
    | zero t => cases hv
    | infinity t => trivial
    | finite t n f hn => trivial
  | finite s m e hm =>
    cases v with
    | notANumber => cases hv
    | zero t => cases hv
    | infinity t => trivial
    | finite t n f hn =>
      have hbelow : (m.log2 : Int) + e < k := hu
      have hone : 0 ≤ (n.log2 : Int) + f := hv.2
      have hdividend := log2_dividend (m := m) (by omega) e n f
      have hexponent : quotientExponent m e n f < k := by
        rw [quotientExponent]
        omega
      simp only [UnpackedFloat.div, divCore_eq]
      refine staysBelow_roundWithAccuracy (le_roundedExponent_div (by omega) (by omega) e f)
        (by omega) ?_
      by_cases hquotient : m * 2 ^ (e - f - quotientExponent m e n f).toNat / n = 0
      · rw [hquotient, Nat.log2_zero]
        omega
      · have hbits := log2_div_le hquotient
        omega

/-! ## Counts -/

theorem staysBelow_ofNat {n : Nat} (h : n < 2 ^ 64) :
    StaysBelow 66 (Float.ofNat n).toModel.unpack := by
  by_cases hn : n = 0
  · rw [hn, unpack_ofNat_zero]
    trivial
  · have hlog : n.log2 < 64 := (Nat.log2_lt hn).2 h
    have hexponent := le_roundedExponent_ofNat hn
    have hbelow : StaysBelow 66 (UnpackedFloat.roundWithAccuracy Format.binary64 .positive
        (n * 2 ^ 53) (-53) .exact) := by
      refine staysBelow_roundWithAccuracy hexponent (by omega) ?_
      rw [log2_mul_pow hn]
      omega
    have hrounded := (roundWithAccuracy_spec .positive .exact hexponent).1
    rw [unpack_ofNat_of_ne_zero hn,
      overflowed_of_staysBelow hrounded (hbelow.mono (by decide))]
    exact hbelow

/-- A count over another one is finite. -/
theorem isFinite_div_ofNat {m n : Nat} (hm : m < 2 ^ 64) (hn : n ≠ 0) :
    (Float.ofNat m / Float.ofNat n).isFinite = true := by
  have hbelow := staysBelow_div (by decide) (staysBelow_ofNat hm) (reaches_ofNat hn)
  have hrounded :=
    isRounded_div (canonical_unpack (Float.ofNat m)) (canonical_unpack (Float.ofNat n))
  rw [isFinite_iff, unpack_div, overflowed_of_staysBelow hrounded (hbelow.mono (by decide))]
  exact isFinite_of_staysBelow hbelow

/-- A double of positive sign is finite or infinity. -/
theorem isFinite_or_eq_infinity (h : HasSign .positive x.toModel.unpack) :
    x.isFinite = true ∨ x = infinity := by
  cases hx : x.toModel.unpack with
  | notANumber =>
    rw [hx] at h
    cases h
  | infinity s =>
    rw [hx] at h
    cases h
    exact .inr (eq_of_unpack_eq (isNaN_of_hasSign (s := .positive) (hx ▸ rfl)) hx)
  | _ => exact .inl (by rw [isFinite_iff, hx]; rfl)

end Backtest.Binary64
