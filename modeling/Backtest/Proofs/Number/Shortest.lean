import Backtest.Number.Shortest
import Backtest.Proofs.Number.Nearest

/-!
# Shortest decimals read back

The interval that the search looks at is the one between the midpoints to the neighbours. A decimal
of seventeen digits is always in it: its grid is finer than the steps of doubles, so one of the two
neighbours of a double on the grid is nearer than half a step. The search therefore ends with a
decimal that is read as the double it was made for.

## Main definitions

* `Interval.holds_iff` — the interval holds what reads back.
* `readsBack_of_onGrid?`, `isSome_onGrid?` — a hit reads back, and a fine grid has one.
* `zpow_decimalExponent_le` — the estimate of the decimal exponent is never too large.
* `readsBack_ofMagnitude` — the shortest decimal of a magnitude reads back.
-/
namespace Backtest.Shortest

open Float.Model (UnpackedFloat)
open Float.Model.UnpackedFloat (Sign)
open Binary64 (ReadsBack IsCanonical halfBelow)

/-! ## Fractions -/

theorem zpow_eq_div {b : ℚ} (hb : b ≠ 0) (k : ℤ) : b ^ k = b ^ k.toNat / b ^ (-k).toNat := by
  rw [← zpow_natCast, ← zpow_natCast, ← zpow_sub₀ hb]
  congr 1
  omega

/-- A multiple of a power of ten as a fraction. -/
theorem mul_zpow_eq_div (n : ℕ) (k : ℤ) :
    (n : ℚ) * 10 ^ k = (n * Nat.pow 10 k.toNat : ℕ) / (Nat.pow 10 (-k).toNat : ℕ) := by
  rw [zpow_eq_div (by norm_num)]
  push_cast [Nat.pow_eq]
  ring

section Interval

variable {m : ℕ} {e : ℤ}

theorem Interval.den_of (m : ℕ) (e : ℤ) :
    ((Interval.of ⟨m, e⟩).den : ℚ) = 4 * 2 ^ (-e).toNat := by
  simp [Interval.of, Binary64.Magnitude.den, Nat.shiftLeft_eq]

theorem Interval.den_pos (m : ℕ) (e : ℤ) : (0 : ℚ) < (Interval.of ⟨m, e⟩).den := by
  rw [den_of]
  positivity

theorem Interval.value_of (m : ℕ) (e : ℤ) :
    ((Interval.of ⟨m, e⟩).value : ℚ) / (Interval.of ⟨m, e⟩).den = m * 2 ^ e := by
  rw [den_of, zpow_eq_div two_ne_zero, Interval.of]
  push_cast [Nat.shiftLeft_eq]
  field_simp

theorem Interval.below_of (m : ℕ) (e : ℤ) :
    ((Interval.of ⟨m, e⟩).below : ℚ) / (Interval.of ⟨m, e⟩).den = halfBelow m e * 2 ^ e := by
  rw [den_of, zpow_eq_div two_ne_zero, Interval.of, halfBelow]
  by_cases hnarrow : m = 4503599627370496 ∧ -1074 < e
  · simp [hnarrow, Nat.shiftLeft_eq]
    field_simp
  · have hwide : (m == 4503599627370496 && decide (e > -1074)) = false := by
      simpa using hnarrow
    simp only [hwide, if_neg hnarrow, Nat.shiftLeft_eq]
    push_cast
    field_simp
    norm_num

theorem Interval.above_of (m : ℕ) (e : ℤ) :
    ((Interval.of ⟨m, e⟩).above : ℚ) / (Interval.of ⟨m, e⟩).den = 1 / 2 * 2 ^ e := by
  rw [den_of, zpow_eq_div two_ne_zero, Interval.of]
  push_cast [Nat.shiftLeft_eq]
  field_simp
  norm_num

theorem Interval.below_le_value (hm : 0 < m) (e : ℤ) :
    (Interval.of ⟨m, e⟩).below ≤ (Interval.of ⟨m, e⟩).value := by
  simp only [Interval.of, Nat.shiftLeft_eq]
  exact Nat.mul_le_mul_right _ (by split <;> omega)

theorem natCast_div_le_iff {a b c d : ℕ} (hb : (0 : ℚ) < b) (hd : (0 : ℚ) < d) :
    (a : ℚ) / b ≤ c / d ↔ a * d ≤ c * b := by
  rw [div_le_div_iff₀ hb hd]
  exact_mod_cast Iff.rfl

theorem natCast_div_lt_iff {a b c d : ℕ} (hb : (0 : ℚ) < b) (hd : (0 : ℚ) < d) :
    (a : ℚ) / b < c / d ↔ a * d < c * b := by
  rw [div_lt_div_iff₀ hb hd]
  exact_mod_cast Iff.rfl

/-- The interval holds what reads back. -/
theorem Interval.holds_iff (hm : 0 < m) {n d : ℕ} (hd : 0 < d) :
    (Interval.of ⟨m, e⟩).holds n d = true ↔ ReadsBack m e (n / d) := by
  have hden := den_pos m e
  have hd' : (0 : ℚ) < d := by exact_mod_cast hd
  have hlow : (m - halfBelow m e) * 2 ^ e =
      (((Interval.of ⟨m, e⟩).value - (Interval.of ⟨m, e⟩).below : ℕ) : ℚ) /
        (Interval.of ⟨m, e⟩).den := by
    rw [Nat.cast_sub (below_le_value hm e), sub_div, value_of, below_of, sub_mul]
  have hhigh : (m + 1 / 2) * 2 ^ e =
      (((Interval.of ⟨m, e⟩).value + (Interval.of ⟨m, e⟩).above : ℕ) : ℚ) /
        (Interval.of ⟨m, e⟩).den := by
    rw [Nat.cast_add, add_div, value_of, above_of, add_mul]
  have hclosed : (Interval.of ⟨m, e⟩).closed = (m % 2 == 0) := rfl
  rw [Binary64.readsBack_iff, hlow, hhigh, natCast_div_le_iff hden hd', natCast_div_le_iff hd' hden,
    natCast_div_lt_iff hden hd', natCast_div_lt_iff hd' hden, Interval.holds, hclosed]
  rcases Nat.mod_two_eq_zero_or_one m with hbit | hbit
  · simp [hbit]
  · simp [hbit]
    omega

end Interval

/-! ## Grids -/

section Grid

variable {tie : Tie} {m : ℕ} {e k : ℤ} {d : Decimal}

/-- What is found on a grid reads back. -/
theorem readsBack_of_onGrid? (hm : 0 < m) (h : onGrid? tie (Interval.of ⟨m, e⟩) k = some d) :
    ReadsBack m e (d.digits * 10 ^ d.exponent) := by
  have key : ∀ n : ℕ, (Interval.of ⟨m, e⟩).holds (n * Nat.pow 10 k.toNat)
      (Nat.pow 10 (-k).toNat) = true → ReadsBack m e (n * 10 ^ k) := fun n hn => by
    rw [mul_zpow_eq_div]
    exact (Interval.holds_iff hm (Nat.pow_pos (by decide))).1 hn
  rw [onGrid?] at h
  split at h
  · rename_i hlower hupper
    cases h
    dsimp only
    split
    · exact key _ hupper
    · exact key _ hlower
  · rename_i hlower _
    cases h
    exact key _ hlower
  · rename_i _ hupper
    cases h
    exact key _ hupper
  · cases h

/-- A grid with a line within reach of a double has a hit. -/
theorem isSome_onGrid?_of_readsBack (hm : 0 < m) {n : ℕ}
    (hn : n = (Interval.of ⟨m, e⟩).value * Nat.pow 10 (-k).toNat /
      ((Interval.of ⟨m, e⟩).den * Nat.pow 10 k.toNat))
    (h : ReadsBack m e (n * 10 ^ k) ∨ ReadsBack m e ((n + 1 : ℕ) * 10 ^ k)) :
    (onGrid? tie (Interval.of ⟨m, e⟩) k).isSome = true := by
  have hpos : 0 < Nat.pow 10 (-k).toNat := Nat.pow_pos (by decide)
  rw [mul_zpow_eq_div, mul_zpow_eq_div, ← Interval.holds_iff hm hpos,
    ← Interval.holds_iff hm hpos, hn] at h
  rw [onGrid?]
  split
  · rfl
  · rfl
  · rfl
  · rename_i hlower hupper
    exact absurd h (by rw [hlower, hupper]; decide)

/-- The line below a magnitude. -/
theorem floor_bounds (m : ℕ) (e k : ℤ) {n : ℕ}
    (hn : n = (Interval.of ⟨m, e⟩).value * Nat.pow 10 (-k).toNat /
      ((Interval.of ⟨m, e⟩).den * Nat.pow 10 k.toNat)) :
    (n : ℚ) * 10 ^ k ≤ m * 2 ^ e ∧ (m : ℚ) * 2 ^ e < (n + 1) * 10 ^ k := by
  have hden := Interval.den_pos m e
  have hpos : (0 : ℚ) < (Interval.of ⟨m, e⟩).den * 10 ^ k.toNat := by positivity
  have hquotient : (m : ℚ) * 2 ^ e / 10 ^ k =
      (Interval.of ⟨m, e⟩).value * 10 ^ (-k).toNat /
        ((Interval.of ⟨m, e⟩).den * 10 ^ k.toNat) := by
    rw [← Interval.value_of, zpow_eq_div (by norm_num : (10 : ℚ) ≠ 0)]
    field_simp
  have hpos' : 0 < (Interval.of ⟨m, e⟩).den * Nat.pow 10 k.toNat := by
    exact_mod_cast hpos
  have hten : (0 : ℚ) < 10 ^ k := by positivity
  rw [← le_div_iff₀ hten, ← div_lt_iff₀ hten, hquotient, le_div_iff₀ hpos, div_lt_iff₀ hpos, hn]
  constructor
  · exact_mod_cast Nat.div_mul_le_self _ _
  · have := Nat.lt_mul_div_succ ((Interval.of ⟨m, e⟩).value * Nat.pow 10 (-k).toNat) hpos'
    rw [Nat.mul_comm ((Interval.of ⟨m, e⟩).den * Nat.pow 10 k.toNat)] at this
    exact_mod_cast this

/-- A grid of seventeen digits has a hit. -/
theorem isSome_onGrid? {hm : 0 < m} (hcanonical : IsCanonical (.finite .positive m e hm))
    (hk : (10 : ℚ) ^ (k + 16) ≤ m * 2 ^ e) :
    (onGrid? tie (Interval.of ⟨m, e⟩) k).isSome = true := by
  obtain ⟨n, hn⟩ : ∃ n, n = (Interval.of ⟨m, e⟩).value * Nat.pow 10 (-k).toNat /
    ((Interval.of ⟨m, e⟩).den * Nat.pow 10 k.toNat) := ⟨_, rfl⟩
  obtain ⟨hlower, hupper⟩ := floor_bounds m e k hn
  have hstep : (0 : ℚ) < 2 ^ e := by positivity
  have hm' : (m : ℚ) ≤ 9007199254740991 := by exact_mod_cast Nat.le_of_lt_succ hcanonical.2.2.1
  have hgrid : (10 : ℚ) ^ k * 10000000000000000 ≤ m * 2 ^ e := by
    rw [zpow_add₀ (by norm_num)] at hk
    norm_num at hk
    exact hk
  -- The grid is finer than the steps, and twice as fine next to a power of two.
  have hwide : (10 : ℚ) ^ k < 2 ^ e := by
    have := mul_le_mul_of_nonneg_right hm' hstep.le
    linarith
  have hnarrow : (10 : ℚ) ^ k < 2 * halfBelow m e * 2 ^ e := by
    rw [halfBelow]
    split
    · rename_i hpower
      rw [hpower.1] at hgrid
      push_cast at hgrid
      linarith
    · linarith
  refine isSome_onGrid?_of_readsBack hm hn ?_
  by_cases hnear : (n + 1) * (10 : ℚ) ^ k - m * 2 ^ e ≤ 1 / 2 * 10 ^ k
  · have hhalf := (Binary64.halfBelow_bounds m e).1
    have hbelow : (0 : ℚ) ≤ halfBelow m e * 2 ^ e := by positivity
    refine .inr ⟨?_, ?_, fun _ => ⟨?_, ?_⟩⟩ <;> push_cast <;> linarith
  · refine .inl ⟨?_, ?_, fun _ => ⟨?_, ?_⟩⟩ <;> linarith

end Grid

/-! ## The search -/

section Search

variable {m : ℕ} {e : ℤ} {d : Decimal}

theorem powerAtMost_iff {a : ℤ} {n d : ℕ} (hd : 0 < d) :
    powerAtMost a n d = true ↔ (10 : ℚ) ^ a ≤ n / d := by
  have hd' : (0 : ℚ) < d := by exact_mod_cast hd
  rw [powerAtMost, decide_eq_true_iff, zpow_eq_div (by norm_num),
    div_le_div_iff₀ (by positivity) hd']
  exact_mod_cast Iff.rfl

/-- Powers of ten against powers of two, by the two sides of `log₁₀ 2` as fractions. -/
theorem ten_zpow_le_two_zpow {a b : ℤ} (h : 0 ≤ b ∧ 196 * a ≤ 59 * b ∨ b ≤ 0 ∧ 93 * a ≤ 28 * b) :
    (10 : ℚ) ^ a ≤ 2 ^ b := by
  rcases h with ⟨hb, hab⟩ | ⟨hb, hab⟩
  · refine le_of_pow_le_pow_left₀ (n := 196) (by decide) (by positivity) ?_
    calc ((10 : ℚ) ^ a) ^ 196 = 10 ^ (196 * a) := by rw [← zpow_natCast, ← zpow_mul]; ring_nf
      _ ≤ 10 ^ (59 * b) := zpow_le_zpow_right₀ (by norm_num) hab
      _ = (10 ^ 59) ^ b := by rw [zpow_mul]; norm_cast
      _ ≤ (2 ^ 196) ^ b := zpow_le_zpow_left₀ hb (by positivity) (by norm_num)
      _ = ((2 : ℚ) ^ b) ^ 196 := by
        rw [← zpow_natCast, ← zpow_natCast, ← zpow_mul, ← zpow_mul]
        ring_nf
  · refine le_of_pow_le_pow_left₀ (n := 93) (by decide) (by positivity) ?_
    calc ((10 : ℚ) ^ a) ^ 93 = 10 ^ (93 * a) := by rw [← zpow_natCast, ← zpow_mul]; ring_nf
      _ ≤ 10 ^ (28 * b) := zpow_le_zpow_right₀ (by norm_num) hab
      _ = ((10 ^ 28) ^ (-b))⁻¹ := by rw [← zpow_neg, neg_neg, zpow_mul]; norm_cast
      _ ≤ ((2 ^ 93) ^ (-b))⁻¹ :=
          inv_anti₀ (by positivity) (zpow_le_zpow_left₀ (by omega) (by positivity) (by norm_num))
      _ = ((2 : ℚ) ^ b) ^ 93 := by
          rw [← zpow_neg, neg_neg, ← zpow_natCast, ← zpow_natCast, ← zpow_mul, ← zpow_mul]; ring_nf

/-- The estimate of the decimal exponent is never too large. -/
theorem zpow_decimalExponent_le {n d : ℕ} (hn : n ≠ 0) (hd : d ≠ 0)
    (hleast : -5000 ≤ (n.log2 : ℤ) - d.log2) (hlarge : (n.log2 : ℤ) - d.log2 ≤ 5000) :
    (10 : ℚ) ^ decimalExponent n d ≤ n / d := by
  have hd' : (0 : ℚ) < d := by exact_mod_cast Nat.pos_of_ne_zero hd
  rw [decimalExponent]
  split
  · exact (powerAtMost_iff (Nat.pos_of_ne_zero hd)).1 ‹_›
  · split
    · exact (powerAtMost_iff (Nat.pos_of_ne_zero hd)).1 ‹_›
    · have hbits : (2 : ℚ) ^ ((n.log2 : ℤ) - d.log2 - 1) ≤ n / d := by
        have hnbits : (2 : ℚ) ^ n.log2 ≤ n := by exact_mod_cast Nat.log2_self_le hn
        have hdbits : (d : ℚ) ≤ 2 ^ (d.log2 + 1) := by
          exact_mod_cast (Nat.lt_log2_self (n := d)).le
        rw [show (n.log2 : ℤ) - d.log2 - 1 = (n.log2 : ℕ) - (d.log2 + 1 : ℕ) by push_cast; ring,
          zpow_sub₀ two_ne_zero, zpow_natCast, zpow_natCast]
        exact div_le_div₀ (by positivity) hnbits hd' hdbits
      exact (ten_zpow_le_two_zpow (by omega)).trans hbits

theorem log2_interval {hm : 0 < m} (hcanonical : IsCanonical (.finite .positive m e hm)) :
    -5000 ≤ ((Interval.of ⟨m, e⟩).value.log2 : ℤ) - (Interval.of ⟨m, e⟩).den.log2 ∧
      ((Interval.of ⟨m, e⟩).value.log2 : ℤ) - (Interval.of ⟨m, e⟩).den.log2 ≤ 5000 := by
  obtain ⟨hleast, hgreatest, hm', -⟩ := hcanonical
  have hlog : m.log2 ≤ 52 := Nat.lt_succ_iff.1 ((Nat.log2_lt (by omega)).2 hm')
  have hvalue : (Interval.of ⟨m, e⟩).value = m * 2 ^ (e.toNat + 2) := by
    simp only [Interval.of, Nat.shiftLeft_eq]
    ring
  have hden : (Interval.of ⟨m, e⟩).den = 1 * 2 ^ ((-e).toNat + 2) := by
    simp only [Interval.of, Binary64.Magnitude.den, Nat.shiftLeft_eq]
    ring
  have hone : Nat.log2 1 = 0 := Nat.log2_two_pow (n := 0)
  rw [hvalue, hden, Binary64.log2_mul_pow (by omega), Binary64.log2_mul_pow (by decide), hone]
  omega

/-- The search ends with what it finds first. -/
theorem readsBack_search {tie : Tie} (hm : 0 < m) {a : ℤ} {j : ℕ}
    (hhit : (onGrid? tie (Interval.of ⟨m, e⟩) (a - j)).isSome = true) (grids tried : ℕ)
    (hlower : tried ≤ j) (hupper : j < tried + grids) :
    ReadsBack m e ((search tie (Interval.of ⟨m, e⟩) a grids tried).digits *
      10 ^ (search tie (Interval.of ⟨m, e⟩) a grids tried).exponent) := by
  induction grids generalizing tried with
  | zero => omega
  | succ grids ih =>
    rw [search]
    cases hfound : onGrid? tie (Interval.of ⟨m, e⟩) (a - tried) with
    | some d => exact readsBack_of_onGrid? hm hfound
    | none =>
      have hne : j ≠ tried := by
        rintro rfl
        rw [hfound] at hhit
        cases hhit
      exact ih (tried + 1) (by omega) (by omega)

/-- The shortest decimal of a magnitude is between the midpoints to its neighbours. -/
theorem readsBack_ofMagnitude (tie : Tie) {hm : 0 < m}
    (hcanonical : IsCanonical (.finite .positive m e hm)) :
    ReadsBack m e
      ((ofMagnitude tie ⟨m, e⟩).digits * 10 ^ (ofMagnitude tie ⟨m, e⟩).exponent) := by
  obtain ⟨hleast, hlarge⟩ := log2_interval hcanonical
  have hden : (Interval.of ⟨m, e⟩).den ≠ 0 := by
    have := Interval.den_pos m e
    exact_mod_cast this.ne'
  have hvalue : (Interval.of ⟨m, e⟩).value ≠ 0 := by
    have := Nat.two_pow_pos e.toNat
    simp only [Interval.of, Nat.shiftLeft_eq]
    exact Nat.mul_ne_zero (by omega) (by omega)
  have hestimate := zpow_decimalExponent_le hvalue hden hleast hlarge
  rw [Interval.value_of] at hestimate
  refine readsBack_search hm (j := 16) (isSome_onGrid? hcanonical ?_) 17 0 (by decide) (by decide)
  rwa [Nat.cast_ofNat, sub_add_cancel]

end Search

end Backtest.Shortest
