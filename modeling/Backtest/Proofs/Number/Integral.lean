import Backtest.Proofs.Number.Shortest

/-!
# Doubles without a fraction

A finite double is a mantissa times a power of two, and so a rational number. It counts as integral
exactly if this number is an integer, and its integer part is then that integer, whatever its size.
Only the conversion to a bounded range changes it, and only where it lies outside: it is moved to
the nearer end.

## Main definitions

* `exactValue?` — the number that a finite double is.
* `isIntegral_iff` — integral doubles are integers.
* `toIntClamped_eq` — an integral double is converted exactly or moved to an end of the range.
-/
namespace Backtest.Binary64

open Float.Model (UnpackedFloat)
open Float.Model.UnpackedFloat (Sign)

variable {x : Float} {n : ℤ}

namespace Magnitude

variable (a : Magnitude)

/-- The number that a magnitude is. -/
def value : ℚ := a.mantissa * 2 ^ a.exponent

theorem den_pos : 0 < a.den := by
  rw [den, Nat.shiftLeft_eq, Nat.one_mul]
  positivity

theorem num_div_den : (a.num : ℚ) / a.den = a.value := by
  rw [num, den, value, Shortest.zpow_eq_div two_ne_zero]
  push_cast [Nat.shiftLeft_eq]
  ring

/-- Nothing stands behind the binary point of an integer. -/
theorem isIntegral_iff : a.isIntegral = true ↔ ∃ k : ℕ, a.value = k := by
  have hden : (a.den : ℚ) ≠ 0 := Nat.cast_ne_zero.2 a.den_pos.ne'
  rw [isIntegral, beq_iff_eq, ← Nat.dvd_iff_mod_eq_zero]
  constructor
  · rintro ⟨k, hk⟩
    refine ⟨k, ?_⟩
    rw [← num_div_den, hk, Nat.cast_mul, mul_div_cancel_left₀ _ hden]
  · rintro ⟨k, hk⟩
    rw [← num_div_den, div_eq_iff hden] at hk
    exact ⟨k, by rw [Nat.mul_comm]; exact_mod_cast hk⟩

/-- An integer is its integer part. -/
theorem floor_eq {k : ℕ} (h : a.value = k) : a.floor = k := by
  have hden : (a.den : ℚ) ≠ 0 := Nat.cast_ne_zero.2 a.den_pos.ne'
  rw [← num_div_den, div_eq_iff hden] at h
  have hnum : a.num = k * a.den := by exact_mod_cast h
  rw [floor, hnum, Nat.mul_div_cancel _ a.den_pos]

theorem value_nonneg : 0 ≤ a.value := by
  rw [value]
  positivity

end Magnitude

/-- A number with a sign. -/
def signed : Sign → ℚ → ℚ
  | .positive, q => q
  | .negative, q => -q

/-- The number that a finite double is; NaN and the infinities are none. -/
def exactValue? (x : Float) : Option ℚ :=
  match x.toModel.unpack with
  | .zero _ => some 0
  | .finite sign mantissa exponent _ => some (signed sign (Magnitude.value ⟨mantissa, exponent⟩))
  | _ => none

/-- A magnitude is an integer whichever sign it has. -/
theorem exists_signed_eq_intCast (s : Sign) {q : ℚ} (hq : 0 ≤ q) :
    (∃ n : ℤ, signed s q = n) ↔ ∃ k : ℕ, q = k := by
  constructor
  · rintro ⟨n, hn⟩
    refine ⟨n.natAbs, ?_⟩
    rw [Nat.cast_natAbs, Int.cast_abs, ← hn]
    cases s with
    | positive => exact (abs_of_nonneg hq).symm
    | negative => rw [signed, abs_neg, abs_of_nonneg hq]
  · rintro ⟨k, rfl⟩
    cases s with
    | positive => exact ⟨k, by simp [signed]⟩
    | negative => exact ⟨-k, by simp [signed]⟩

/-- Integral doubles are integers. -/
theorem isIntegral_iff : isIntegral x = true ↔ ∃ n : ℤ, exactValue? x = some (n : ℚ) := by
  rw [isIntegral, exactValue?]
  cases x.toModel.unpack with
  | notANumber => simp
  | infinity s => simp
  | zero s => exact ⟨fun _ => ⟨0, by simp⟩, fun _ => rfl⟩
  | finite s m e hm =>
    dsimp only
    rw [Magnitude.isIntegral_iff, ← exists_signed_eq_intCast s (Magnitude.value_nonneg _)]
    simp only [Option.some.injEq]

/-- The integer part of an integer is itself. -/
theorem truncate?_eq (h : exactValue? x = some (n : ℚ)) : truncate? x = some n := by
  rw [exactValue?] at h
  rw [truncate?]
  cases hx : x.toModel.unpack with
  | notANumber => rw [hx] at h; cases h
  | infinity s => rw [hx] at h; cases h
  | zero s =>
    rw [hx, Option.some.injEq] at h
    dsimp only
    rw [Option.some.injEq]
    exact_mod_cast h
  | finite s m e hm =>
    rw [hx, Option.some.injEq] at h
    obtain ⟨k, hk⟩ := (exists_signed_eq_intCast s (Magnitude.value_nonneg ⟨m, e⟩)).1 ⟨n, h⟩
    dsimp only
    rw [Magnitude.floor_eq _ hk, Option.some.injEq]
    rw [hk] at h
    cases s with
    | positive =>
      have hvalue : (k : ℚ) = n := h
      exact Int.cast_injective (α := ℚ) hvalue
    | negative =>
      have hvalue : -(k : ℚ) = n := h
      exact Int.cast_injective (α := ℚ) ((Int.cast_neg _).trans hvalue)

/-- An integral double is converted exactly, or moved to the nearer end of the range. -/
theorem toIntClamped_eq (low high : ℤ) (h : exactValue? x = some (n : ℚ)) :
    toIntClamped low high x = Max.max low (Min.min high n) := by
  have htruncate := truncate?_eq h
  rw [toIntClamped]
  rw [exactValue?] at h
  cases hx : x.toModel.unpack with
  | notANumber => rw [hx] at h; cases h
  | infinity s => rw [hx] at h; cases h
  | zero s => rw [htruncate, Option.getD_some]
  | finite s m e hm => rw [htruncate, Option.getD_some]

end Backtest.Binary64
