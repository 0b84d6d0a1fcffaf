import Backtest.Proofs.Json.Tokens
import Backtest.Proofs.Number.Exact
import Backtest.Proofs.Number.Plain

/-!
# Doubles in JSON

Which doubles are read from their own texts depends on how a reader turns digits into a double, and
on nothing else of the text. One that rounds once gives all finite doubles back. One that scales a
significand agrees with it as long as the significand has 53 bits and the power of ten is exact; of
longer decimals it misses some.

## Main definitions

* `NumberReader.nearest` — the reader that rounds once.
* `NumberReader.ReadsBack` — the doubles that a reader gives back.
* `NumberReader.readsBack_nearest_iff` — these are the finite ones if it rounds once.
* `NumberReader.magnitude?_scaling`, `NumberReader.readsBack_scaling` — short decimals.
-/
namespace Backtest.Json

namespace NumberReader

/-- The reader that rounds once: the nearest double of the whole decimal. -/
def nearest : NumberReader where
  magnitude? whole fraction exponent :=
    let x := Binary64.ofDecimal (Binary64.digitsValue (whole ++ fraction))
      (exponent - fraction.length)
    if x.isFinite then some x else none

/-- The text of a double is read as this double. -/
def ReadsBack (numbers : NumberReader) (x : Float) : Prop :=
  (read? (compact (.real x)) numbers).bind Document.real? = some x

instance (numbers : NumberReader) : DecidablePred numbers.ReadsBack := fun x =>
  inferInstanceAs (Decidable ((read? (compact (.real x)) numbers).bind Document.real? = some x))

end NumberReader

section Real

variable {numbers : NumberReader} {x : Float} {cs rest : List Char} {c : Char} {d : Document}

/-- A digit begins a number. -/
theorem readValue?_digit (hc : c.isDigit = true) (fuel depth : ℕ) (cs : List Char) :
    readValue? numbers (fuel + 1) depth (c :: cs) = readNumber? numbers false (c :: cs) := by
  rcases Binary64.digit_cases hc with
    rfl | rfl | rfl | rfl | rfl | rfl | rfl | rfl | rfl | rfl <;> rfl

theorem readValue?_numberText (h : IsNumberText numbers cs d) (hrest : EndsNumber rest)
    (fuel depth : ℕ) : readValue? numbers (fuel + 1) depth (cs ++ rest) = some (d, rest) := by
  obtain ⟨negative, body, rfl, ⟨c, hhead, hdigit⟩, hread⟩ := h
  have hbody := hread rest hrest
  cases body with
  | nil => cases hhead
  | cons b body =>
    cases hhead
    cases negative with
    | true => exact hbody
    | false => exact (readValue?_digit hdigit fuel depth _).trans hbody

theorem read?_numberText (h : IsNumberText numbers cs d) :
    read? (String.ofList cs) numbers = some d := by
  have hread : readValue? numbers (2 * cs.length + 2) 0 (cs ++ []) = some (d, []) :=
    readValue?_numberText h endsNumber_nil _ _
  rw [List.append_nil] at hread
  simp only [read?, String.toList_ofList, hread]
  rfl

/-- What a finite double is read back as depends on its digits alone. -/
theorem exists_readsBack_iff (hx : x.isFinite = true) :
    ∃ negative t, Binary64.IsWritten numberLayout x negative t ∧ ∀ numbers : NumberReader,
      IsNumberText numbers (numberLayout.write x).toList
          (decimal negative (numbers.magnitude? t.whole t.fraction (t.exponent.getD 0))) ∧
        (numbers.ReadsBack x ↔
          decimal negative (numbers.magnitude? t.whole t.fraction (t.exponent.getD 0)) =
            .real x) := by
  obtain ⟨negative, t, hwritten, htext⟩ := exists_isNumberText_write hx
  refine ⟨negative, t, hwritten, fun numbers => ⟨htext numbers, ?_⟩⟩
  have hread : read? (compact (.real x)) numbers = _ := read?_numberText (htext numbers)
  rw [NumberReader.ReadsBack, hread, Option.bind_some]
  cases numbers.magnitude? t.whole t.fraction (t.exponent.getD 0) with
  | none => exact ⟨nofun, nofun⟩
  | some y => exact ⟨fun h => congrArg Document.real (Option.some.inj h), fun h => congrArg _ h⟩

/-- Infinities and NaN are written as null. -/
theorem NumberReader.ReadsBack.isFinite (h : numbers.ReadsBack x) : x.isFinite = true := by
  by_contra hx
  have hnull : numberLayout.write x = "null" := by
    rw [NumberLayout.write]
    rw [Binary64.isFinite_iff] at hx
    cases hunpack : x.toModel.unpack with
    | notANumber => rfl
    | infinity s => cases s <;> rfl
    | zero s => exact absurd (hunpack ▸ rfl) hx
    | finite s m e hm => exact absurd (hunpack ▸ rfl) hx
  have hread : read? (compact (.real x)) numbers = some .null := by
    rw [compact, render, hnull]
    rfl
  rw [ReadsBack, hread] at h
  cases h

/-- The text of a double that is read back. -/
theorem isNumberText_write (h : numbers.ReadsBack x) :
    IsNumberText numbers (numberLayout.write x).toList (.real x) := by
  obtain ⟨negative, t, -, hread⟩ := exists_readsBack_iff h.isFinite
  obtain ⟨htext, hback⟩ := hread numbers
  rwa [hback.1 h] at htext

namespace NumberReader

/-- A reader that rounds once reads all finite doubles back. -/
theorem readsBack_nearest_iff : nearest.ReadsBack x ↔ x.isFinite = true := by
  refine ⟨ReadsBack.isFinite, fun hx => ?_⟩
  obtain ⟨negative, t, hwritten, hread⟩ := exists_readsBack_iff hx
  refine (hread nearest).2.2 ?_
  have hmagnitude : nearest.magnitude? t.whole t.fraction (t.exponent.getD 0) = some t.toDouble :=
    if_pos hwritten.finite
  rw [hmagnitude, decimal, ← hwritten.value]

/-! ## Short decimals -/

open Binary64 (digitsValue toRat)

/-- Digits that fit 64 bits all go into the significand. -/
theorem takeDigits_digitsValue {front cs : List Char}
    (h : digitsValue (front ++ cs) < 18446744073709551616) :
    takeDigits (digitsValue front) cs = (digitsValue (front ++ cs), 0) := by
  induction cs generalizing front with
  | nil => rw [List.append_nil, takeDigits]
  | cons c cs ih =>
    have hnext : digitsValue (front ++ [c]) = 10 * digitsValue front + (c.toNat - '0'.toNat) :=
      List.foldl_append
    have hle : digitsValue (front ++ [c]) ≤ digitsValue (front ++ [c] ++ cs) := by
      rw [Binary64.digitsValue_append _ cs]
      exact (Nat.le_mul_of_pos_right _ (Nat.pow_pos (by decide))).trans (Nat.le_add_right _ _)
    rw [List.append_cons] at h ⊢
    rw [takeDigits, ← hnext, if_pos (hle.trans_lt h), ih h]

/-- The first powers of ten are exact. -/
theorem powerOfTen_exact : ∀ k ≤ 22, ∃ h : k < Float.exactlyRepresentablePowersOfTen.size,
    powerOfTen k = Float.exactlyRepresentablePowersOfTen[k] := by
  decide +kernel

theorem toRat_powerOfTen {k : ℕ} (hk : k ≤ 22) :
    (powerOfTen k).isFinite = true ∧ toRat (powerOfTen k) = 10 ^ k := by
  obtain ⟨hsize, htable⟩ := powerOfTen_exact k hk
  obtain ⟨m, e, hm, hunpack, hvalue⟩ := (Binary64.isWhole_powerOfTen k hsize).exists_finite
  rw [← htable] at hunpack
  refine ⟨Binary64.isFinite_iff.2 (hunpack ▸ rfl), ?_⟩
  rw [Binary64.toRat_of_finite hunpack]
  exact_mod_cast hvalue

theorem scale?_of_neg {n : ℕ} {e : ℤ} (hneg : e < 0) (he : e.natAbs ≤ 308) :
    scale? n e = some (Float.ofNat n / powerOfTen e.natAbs) := by
  have htimes : (e.natAbs - 1) / 308 = 0 := by omega
  simp only [scale?, if_pos hneg, htimes, shrink, Nat.mul_zero, Nat.sub_zero]

theorem scale?_of_nonneg {n : ℕ} {e : ℤ} (hn : n ≠ 0) (hnonneg : ¬ e < 0) (he : e.natAbs ≤ 308)
    (hfinite : (Float.ofNat n * powerOfTen e.natAbs).isFinite = true) :
    scale? n e = some (Float.ofNat n * powerOfTen e.natAbs) := by
  have hnonzero : ¬ (Float.ofNat n == 0) = true := fun h =>
    (Binary64.place_pos (Binary64.ofNat_pos hn)).ne' (Binary64.beq_iff_place.1 h).2.2
  have hle : ¬ 308 < e := by omega
  simp only [scale?, if_neg hnonneg, if_neg hnonzero, if_neg hle, if_pos hfinite]

theorem scale?_zero {e : ℤ} (he : e.natAbs ≤ 22) : scale? 0 e = some 0 := by
  by_cases hneg : e < 0
  · have hquotient : ∀ k ≤ 22, Float.ofNat 0 / powerOfTen k = 0 := by decide +kernel
    rw [scale?_of_neg hneg (by omega), hquotient _ he]
  · rw [scale?, if_neg hneg]
    rfl

/-- The nearest double is computed the same way if the significand and the power are exact. -/
theorem ofDecimal_eq {n : ℕ} {e : ℤ} (hzero : n ≠ 0) (hn : n < 2 ^ 53) (he : e.natAbs ≤ 22) :
    Binary64.ofDecimal n e =
      if e < 0 then Float.ofNat n / powerOfTen e.natAbs
      else Float.ofNat n * powerOfTen e.natAbs := by
  obtain ⟨hsize, htable⟩ := powerOfTen_exact e.natAbs he
  have hword : n.toUInt64.toFloat = Float.ofNat n :=
    (Binary64.eq_of_unpack_eq (Binary64.isNaN_of_isFinite (Binary64.ofNat_exact hn).1)
      ((Binary64.unpack_ofNat n).trans (Binary64.unpack_toFloat hn).symm)).symm
  rw [Binary64.ofDecimal, if_neg (by simpa using hzero), if_neg (by omega), if_neg (by omega),
    Float.ofScientific, dif_pos ⟨hn, he⟩, hword, ← htable]
  by_cases hneg : e < 0
  · rw [decide_eq_true hneg, if_pos hneg]
    rfl
  · rw [decide_eq_false hneg, if_neg hneg]
    rfl

/-- A whole number of 53 bits times one of these powers, or divided by it, is rounded once. -/
theorem scale?_eq {n : ℕ} {e : ℤ} (hn : n < 2 ^ 53) (he : e.natAbs ≤ 22) :
    (Binary64.ofDecimal n e).isFinite = true ∧ scale? n e = some (Binary64.ofDecimal n e) := by
  by_cases hzero : n = 0
  · subst hzero
    have hread : Binary64.ofDecimal 0 e = 0 := if_pos rfl
    exact ⟨hread ▸ by decide +kernel, hread ▸ scale?_zero he⟩
  obtain ⟨hpower, hten⟩ := toRat_powerOfTen he
  obtain ⟨hfinite, hvalue⟩ := Binary64.ofNat_exact hn
  have hsmall : (n : ℚ) < 2 ^ 53 := by exact_mod_cast hn
  have hrange : (2 : ℚ) ^ (200 : ℤ) < 2 ^ (1023 : ℤ) :=
    zpow_lt_zpow_right₀ one_lt_two (by decide)
  rw [ofDecimal_eq hzero hn he]
  by_cases hneg : e < 0
  · have hquotient := Binary64.roundsTo_div hfinite hpower (by rw [hten]; positivity)
    have hbound : |toRat (Float.ofNat n) / toRat (powerOfTen e.natAbs)| < 2 ^ (1023 : ℤ) := by
      rw [hvalue, hten, abs_of_nonneg (by positivity)]
      calc (n : ℚ) / 10 ^ e.natAbs ≤ n := div_le_self (by positivity) (one_le_pow₀ (by norm_num))
        _ < 2 ^ (200 : ℤ) := hsmall.trans (by norm_num)
        _ < 2 ^ (1023 : ℤ) := hrange
    rw [scale?_of_neg hneg (by omega), if_pos hneg]
    exact ⟨hquotient.isFinite hbound, rfl⟩
  · have hproduct := Binary64.roundsTo_mul hfinite hpower
    have hbound : |toRat (Float.ofNat n) * toRat (powerOfTen e.natAbs)| < 2 ^ (1023 : ℤ) := by
      rw [hvalue, hten, abs_of_nonneg (by positivity)]
      calc (n : ℚ) * 10 ^ e.natAbs ≤ 2 ^ 53 * 10 ^ 22 :=
            mul_le_mul hsmall.le (pow_le_pow_right₀ (by norm_num) he) (by positivity)
              (by positivity)
        _ < 2 ^ (200 : ℤ) := by norm_num
        _ < 2 ^ (1023 : ℤ) := hrange
    have hfinite := hproduct.isFinite hbound
    rw [scale?_of_nonneg hzero hneg (by omega) hfinite, if_neg hneg]
    exact ⟨hfinite, rfl⟩

/-- Digits of 53 bits and a small exponent become the nearest double. -/
theorem magnitude?_scaling {whole fraction : List Char} {exponent : ℤ}
    (hdigits : digitsValue (whole ++ fraction) < 2 ^ 53)
    (hexponent : (exponent - fraction.length).natAbs ≤ 22) :
    scaling.magnitude? whole fraction exponent = nearest.magnitude? whole fraction exponent := by
  obtain ⟨hfinite, hscale⟩ := scale?_eq hdigits hexponent
  have hle : digitsValue whole ≤ digitsValue (whole ++ fraction) := by
    rw [Binary64.digitsValue_append]
    exact (Nat.le_mul_of_pos_right _ (Nat.pow_pos (by decide))).trans (Nat.le_add_right _ _)
  have hwhole : takeDigits 0 whole = (digitsValue whole, 0) :=
    @takeDigits_digitsValue [] whole (by simp; omega)
  have hfraction : takeDigits (digitsValue whole) fraction = (digitsValue (whole ++ fraction), 0) :=
    takeDigits_digitsValue (by omega)
  simp only [scaling, hwhole, hfraction, nearest, if_pos hfinite]
  simpa using hscale

/-- A double is read back if its text has digits of 53 bits and a small exponent. -/
theorem readsBack_scaling (hx : x.isFinite = true)
    (hshort : ∀ negative t, Binary64.IsWritten numberLayout x negative t →
      digitsValue (t.whole ++ t.fraction) < 2 ^ 53 ∧
        (t.exponent.getD 0 - t.fraction.length).natAbs ≤ 22) : scaling.ReadsBack x := by
  obtain ⟨negative, t, hwritten, hread⟩ := exists_readsBack_iff hx
  obtain ⟨hdigits, hexponent⟩ := hshort negative t hwritten
  refine (hread scaling).2.2 ?_
  rw [magnitude?_scaling hdigits hexponent]
  exact (hread nearest).2.1 (readsBack_nearest_iff.2 hx)

example : scaling.ReadsBack 100.1 ∧ ¬ scaling.ReadsBack 100.10000000000001 := by decide +kernel

end NumberReader

end Real
end Backtest.Json
