import Backtest.Market.Candle
import Backtest.Proofs.Indicator.Recurrence
import Backtest.Proofs.Number.Sums

/-!
# What is left of closes that left the window

A simple average takes a close back out of its sum by subtracting it. In doubles the subtraction
need not undo the addition, and what it leaves stays in the sum for good. Two statements say how far
the average still is one of its window. Where the closes are whole numbers of one unit and 53 bits
are enough for a window and one close more, nothing is rounded, and the average is that of a fresh
one over the window alone. In general each update moves the sum away from the total of its window by
two errors of rounding at most, and these are relative to the largest close of the whole history.

## Main definitions

* `Sma.total` — the exact total of closes.
* `Sma.CountsExactly`, `Sma.isExact_foldl_new` — closes that are summed without rounding.
* `Sma.IsWithin`, `Sma.drift`, `Sma.isNear_foldl_new` — how far a sum can be from its window.
* `Sma.valueAfter?_forgets` — the average against its window.
* `Sma.not_all_forgotten` — a close that stays in the sum.
-/
namespace Backtest.Sma

open Binary64

variable {s t : Sma} {close : Float} {closes window past recent : List Float} {period n : ℕ}
  {e : ℤ} {bound : ℚ}

/-- The value of a fresh average after these closes. -/
def valueAfter? (period : ℕ) (closes : List Float) : Option Float :=
  (closes.foldl update (new period)).value?

/-! ## Totals -/

/-- The number that closes add up to. -/
def total (closes : List Float) : ℚ := (closes.map toRat).sum

theorem total_cons (close : Float) (closes : List Float) :
    total (close :: closes) = toRat close + total closes := by
  rw [total, List.map_cons, List.sum_cons, total]

theorem total_concat (closes : List Float) (close : Float) :
    total (closes ++ [close]) = total closes + toRat close := by
  rw [total, List.map_append, List.sum_append, total, List.map_singleton, List.sum_singleton]

/-- Closes that are whole numbers of a unit add up to one. -/
theorem exists_total_units (h : ∀ c ∈ closes, ∃ k : ℕ, toRat c = k * 2 ^ e) :
    ∃ k : ℕ, total closes = k * 2 ^ e := by
  induction closes with
  | nil => exact ⟨0, by rw [Nat.cast_zero, zero_mul]; rfl⟩
  | cons close rest ih =>
    obtain ⟨k, hk⟩ := h close List.mem_cons_self
    obtain ⟨l, hl⟩ := ih fun c hc => h c (List.mem_cons_of_mem close hc)
    exact ⟨k + l, by rw [total_cons, hk, hl, Nat.cast_add, add_mul]⟩

theorem total_bounds (h : ∀ c ∈ closes, 0 ≤ toRat c ∧ toRat c ≤ bound) :
    0 ≤ total closes ∧ total closes ≤ closes.length * bound := by
  constructor
  · refine List.sum_nonneg fun q hq => ?_
    obtain ⟨c, hc, rfl⟩ := List.mem_map.1 hq
    exact (h c hc).1
  · have hsum : total closes ≤ (closes.map toRat).length • bound := by
      refine List.sum_le_card_nsmul _ _ fun q hq => ?_
      obtain ⟨c, hc, rfl⟩ := List.mem_map.1 hq
      exact (h c hc).2
    rwa [List.length_map, nsmul_eq_mul] at hsum

/-! ## Closes that are summed without rounding -/

/-- The closes are finite, whole numbers of a unit, and few enough of it for 53 bits. -/
structure Fits (e : ℤ) (closes : List Float) : Prop where
  least : -1074 ≤ e
  most : e ≤ 970
  finite : ∀ c ∈ closes, c.isFinite = true
  units : ∀ c ∈ closes, ∃ k : ℕ, toRat c = k * 2 ^ e
  total_lt : total closes < 2 ^ (e + 53)

/-- A result that is such a total is exact. -/
theorem Fits.exact {x : Float} (h : Fits e closes) (hx : RoundsTo (total closes) x) :
    x.isFinite = true ∧ toRat x = total closes := by
  obtain ⟨k, hk⟩ := exists_total_units h.units
  have habs : |total closes| = total closes := abs_of_nonneg (by rw [hk]; positivity)
  exact hx.exact_of_units h.least h.most (k := k) (by rw [habs, hk])
    (by rw [habs]; exact h.total_lt)

theorem Fits.tail (h : Fits e (close :: closes)) : Fits e closes where
  least := h.least
  most := h.most
  finite c hc := h.finite c (List.mem_cons_of_mem close hc)
  units c hc := h.units c (List.mem_cons_of_mem close hc)
  total_lt := by
    obtain ⟨k, hk⟩ := h.units close List.mem_cons_self
    have hnonneg : 0 ≤ toRat close := by rw [hk]; positivity
    have := h.total_lt
    rw [total_cons] at this
    linarith

/-- The sum is the exact total of the window. -/
structure IsExact (s : Sma) : Prop where
  finite : s.sum.isFinite = true
  sum_eq : toRat s.sum = total s.window

/-- If the window and the next close fit, the sum stays exact. -/
theorem IsExact.update (h : IsExact s) (hlength : s.window.length ≤ s.period)
    (hfits : Fits e (s.window ++ [close])) : IsExact (s.update close) := by
  have hadded := roundsTo_add h.finite (hfits.finite close (by simp))
  rw [h.sum_eq, ← total_concat] at hadded
  obtain ⟨hfinite, hsum⟩ := hfits.exact hadded
  rcases update_cases close hlength with
    ⟨-, hwindow, hupdated⟩ | ⟨-, leaving, rest, heq, hwindow, hupdated⟩
  · exact ⟨by rwa [hupdated], by rw [hupdated, hwindow, hsum]⟩
  · rw [heq] at hfits hsum
    have hremoved := roundsTo_sub hfinite (hfits.finite leaving List.mem_cons_self)
    rw [hsum, total_cons, add_sub_cancel_left] at hremoved
    obtain ⟨hfinite', hsum'⟩ := hfits.tail.exact hremoved
    exact ⟨by rwa [hupdated], by rw [hupdated, hwindow, hsum']⟩

/-- Closes that a running sum adds and subtracts without rounding: they are whole numbers of a power
of two, and every window of them with one close more adds up to less than `2 ^ 53` of it. -/
def CountsExactly (period : ℕ) (closes : List Float) : Prop :=
  ∃ e : ℤ, ∀ run, run <:+: closes → run.length ≤ max period 1 + 1 → Fits e run

theorem CountsExactly.of_isInfix (h : CountsExactly period closes) (hpart : window <:+: closes) :
    CountsExactly period window := by
  obtain ⟨e, h⟩ := h
  exact ⟨e, fun run hrun hlength => h run (hrun.trans hpart) hlength⟩

/-- Closes in whole units, none of which is above a bound. -/
theorem countsExactly_of_le (hleast : -1074 ≤ e) (hmost : e ≤ 970)
    (hcloses : ∀ c ∈ closes, c.isFinite = true ∧ (∃ k : ℕ, toRat c = k * 2 ^ e) ∧ toRat c ≤ bound)
    (hbound : 0 ≤ bound) (hfits : (max period 1 + 1 : ℕ) * bound < 2 ^ (e + 53)) :
    CountsExactly period closes := by
  refine ⟨e, fun run hrun hlength => ⟨hleast, hmost, fun c hc => (hcloses c (hrun.subset hc)).1,
    fun c hc => (hcloses c (hrun.subset hc)).2.1, lt_of_le_of_lt ?_ hfits⟩⟩
  have htotal : total run ≤ run.length * bound := by
    refine (total_bounds fun c hc => ⟨?_, (hcloses c (hrun.subset hc)).2.2⟩).2
    obtain ⟨k, hk⟩ := (hcloses c (hrun.subset hc)).2.1
    rw [hk]
    positivity
  have hcast : (run.length : ℚ) ≤ (max period 1 + 1 : ℕ) := by exact_mod_cast hlength
  exact htotal.trans (mul_le_mul_of_nonneg_right hcast hbound)

/-- The window of a run and the next close are a part of all closes. -/
theorem isInfix_window_concat (period : ℕ) (closes : List Float) (close : Float) :
    (closes.foldl update (new period)).window ++ [close] <:+: closes ++ [close] := by
  rw [window_foldl_new]
  obtain ⟨before, hbefore⟩ := List.drop_suffix (closes.length - max period 1) closes
  exact ⟨before, [], by rw [List.append_nil, ← List.append_assoc, List.rtake, hbefore]⟩

theorem isExact_foldl_new (h : CountsExactly period closes) :
    IsExact (closes.foldl update (new period)) := by
  induction closes using List.reverseRecOn with
  | nil => exact ⟨isFinite_zero, toRat_zero⟩
  | append_singleton closes close ih =>
    have hexact := ih (h.of_isInfix (List.prefix_append closes [close]).isInfix)
    have hlength : (closes.foldl update (new period)).window.length ≤ max period 1 :=
      (length_window_foldl_new period closes).trans_le (min_le_right _ _)
    obtain ⟨e, hfits⟩ := h
    rw [List.foldl_append, List.foldl_cons, List.foldl_nil]
    refine hexact.update (by rwa [period_foldl_new])
      (hfits _ (isInfix_window_concat period closes close) ?_)
    rw [List.length_append, List.length_singleton]
    omega

/-! ## Closes in general -/

/-- The sum is finite and not further than an error from the total of the window. -/
structure IsNear (error : ℚ) (s : Sma) : Prop where
  finite : s.sum.isFinite = true
  near : |toRat s.sum - total s.window| ≤ error

/-- An update adds two errors of rounding, each of a number that is at most the largest close times
two more than the period. -/
theorem IsNear.update {error : ℚ} (h : IsNear error s) (hlength : s.window.length ≤ s.period)
    (hcloses : ∀ c ∈ s.window ++ [close], c.isFinite = true ∧ 0 ≤ toRat c ∧ toRat c ≤ bound)
    (herror : error ≤ bound) (hreach : (s.period + 2) * bound < 2 ^ (1023 : ℤ))
    (hperiod : s.period + 2 ≤ 2 ^ 53) :
    IsNear (error + 2 * ((s.period + 2) * bound) / 2 ^ 53) (s.update close) := by
  obtain ⟨hfinite, hnonneg, hle⟩ := hcloses close (by simp)
  have hbound : 0 ≤ bound := hnonneg.trans hle
  have hnear := abs_le.1 h.near
  have hwindow := total_bounds fun c hc => (hcloses c (List.mem_append_left _ hc)).2
  have hfull : (s.window.length : ℚ) * bound ≤ s.period * bound :=
    mul_le_mul_of_nonneg_right (by exact_mod_cast hlength) hbound
  have hsmall : (s.period + 2) * bound / 2 ^ 53 ≤ bound := by
    rw [div_le_iff₀ (by positivity), mul_comm bound]
    exact mul_le_mul_of_nonneg_right (by exact_mod_cast hperiod) hbound
  have hscale : ((s.period : ℚ) + 2) * bound = s.period * bound + 2 * bound := by ring
  -- The addition.
  have hadded : |toRat s.sum + toRat close| ≤ (s.period + 2) * bound :=
    abs_le.2 ⟨by linarith, by linarith⟩
  have haddedFinite := (roundsTo_add h.finite hfinite).isFinite (hadded.trans_lt hreach)
  have haddedNear := abs_le.1 ((abs_add_sub_le h.finite hfinite haddedFinite).trans
    (div_le_div_of_nonneg_right hadded (by positivity)))
  rcases update_cases close hlength with
    ⟨-, hupdated, hsum⟩ | ⟨hpop, leaving, rest, heq, hupdated, hsum⟩
  · refine ⟨by rwa [hsum], ?_⟩
    rw [hsum, hupdated, total_concat, mul_div_assoc, abs_le]
    constructor <;> linarith
  · -- The subtraction, after which the window is again at most a period long.
    rw [heq] at hcloses
    obtain ⟨hleaving, -, -⟩ := hcloses leaving List.mem_cons_self
    have hrest := total_bounds fun c hc => (hcloses c (List.mem_cons_of_mem leaving hc)).2
    have htotal := congrArg total heq
    rw [total_concat, total_cons] at htotal
    have hrestLength : rest.length = s.period := by
      have := congrArg List.length heq
      rw [List.length_append, List.length_singleton, List.length_cons] at this
      omega
    rw [hrestLength] at hrest
    have hremoved : |toRat (s.sum + close) - toRat leaving| ≤ (s.period + 2) * bound :=
      abs_le.2 ⟨by linarith, by linarith⟩
    have hremovedFinite :=
      (roundsTo_sub haddedFinite hleaving).isFinite (hremoved.trans_lt hreach)
    have hremovedNear := abs_le.1 ((abs_sub_sub_le haddedFinite hleaving hremovedFinite).trans
      (div_le_div_of_nonneg_right hremoved (by positivity)))
    refine ⟨by rwa [hsum], ?_⟩
    rw [hsum, hupdated, mul_div_assoc, abs_le]
    constructor <;> linarith

/-- No close is above the bound, a window with two closes more is far from overflow, and there are
few enough updates for their errors to stay below the bound. -/
structure IsWithin (bound : ℚ) (period : ℕ) (closes : List Float) : Prop where
  close_le : ∀ c ∈ closes, toRat c ≤ bound
  bound_lt : (max period 1 + 2 : ℕ) * bound < 2 ^ (1023 : ℤ)
  length_le : closes.length * (2 * (max period 1 + 2)) ≤ 2 ^ 53

theorem toRat_pos_of_isPrice (h : Candle.isPrice close = true) :
    close.isFinite = true ∧ 0 < toRat close := by
  rw [Candle.isPrice, Bool.and_eq_true, decide_eq_true_eq] at h
  exact ⟨h.1, (toRat_pos_iff h.1).2 h.2⟩

/-- How far updates with closes up to a bound can move the sum from its window. -/
def drift (bound : ℚ) (period updates : ℕ) : ℚ :=
  updates * (2 * ((max period 1 + 2 : ℕ) * bound) / 2 ^ 53)

theorem drift_zero (bound : ℚ) (period : ℕ) : drift bound period 0 = 0 := by
  rw [drift, Nat.cast_zero, zero_mul]

theorem drift_succ (bound : ℚ) (period n : ℕ) :
    drift bound period (n + 1) =
      drift bound period n + 2 * ((max period 1 + 2 : ℕ) * bound) / 2 ^ 53 := by
  rw [drift, drift, Nat.cast_succ, add_mul, one_mul]

/-- Few updates do not move it further than one close. -/
theorem drift_le (hbound : 0 ≤ bound) (h : n * (2 * (max period 1 + 2)) ≤ 2 ^ 53) :
    drift bound period n ≤ bound := by
  have hcast : ((n * (2 * (max period 1 + 2)) : ℕ) : ℚ) ≤ 2 ^ 53 := by exact_mod_cast h
  have := mul_le_mul_of_nonneg_right hcast hbound
  rw [drift]
  push_cast at this ⊢
  linarith

/-- What is left of it in the average. -/
theorem drift_div_le (hbound : 0 ≤ bound) (period n : ℕ) :
    drift bound period n / (max period 1 : ℕ) ≤ 6 * n * bound / 2 ^ 53 := by
  have hone : (1 : ℚ) ≤ (max period 1 : ℕ) := by exact_mod_cast Nat.le_max_right period 1
  rw [drift, div_le_iff₀ (by linarith), Nat.cast_add, Nat.cast_ofNat]
  have hscale := mul_le_mul_of_nonneg_left hone (by positivity : (0 : ℚ) ≤ 4 * n * bound / 2 ^ 53)
  linarith

/-- The errors of all updates add up. -/
theorem isNear_foldl_new (hprices : ∀ c ∈ closes, Candle.isPrice c = true)
    (h : IsWithin bound period closes) :
    IsNear (drift bound period closes.length) (closes.foldl update (new period)) := by
  induction closes using List.reverseRecOn with
  | nil =>
    refine ⟨isFinite_zero, ?_⟩
    change |toRat 0 - total []| ≤ _
    rw [toRat_zero, total, List.map_nil, List.sum_nil, sub_self, abs_zero, List.length_nil,
      drift_zero]
  | append_singleton closes close ih =>
    have hcount := h.length_le
    rw [List.length_append, List.length_singleton, Nat.add_mul, Nat.one_mul] at hcount
    have hbefore : IsWithin bound period closes :=
      ⟨fun c hc => h.close_le c (List.mem_append_left _ hc), h.bound_lt, by omega⟩
    have hnear := ih (fun c hc => hprices c (List.mem_append_left _ hc)) hbefore
    have hall : ∀ c ∈ closes ++ [close], c.isFinite = true ∧ 0 ≤ toRat c ∧ toRat c ≤ bound := by
      intro c hc
      obtain ⟨hfinite, hpos⟩ := toRat_pos_of_isPrice (hprices c hc)
      exact ⟨hfinite, hpos.le, h.close_le c hc⟩
    have hbound : 0 ≤ bound := by
      obtain ⟨-, hnonneg, hle⟩ := hall close (by simp)
      exact hnonneg.trans hle
    have hperiod := period_foldl_new period closes
    have hlength : (closes.foldl update (new period)).window.length ≤ max period 1 :=
      (length_window_foldl_new period closes).trans_le (min_le_right _ _)
    rw [List.foldl_append, List.foldl_cons, List.foldl_nil, List.length_append,
      List.length_singleton, drift_succ, ← hperiod, Nat.cast_add, Nat.cast_ofNat]
    refine hnear.update (by rwa [hperiod])
      (fun c hc => hall c ((isInfix_window_concat period closes close).subset hc))
      (drift_le hbound hbefore.length_le) ?_ (by rw [hperiod]; omega)
    rw [hperiod]
    exact_mod_cast h.bound_lt

/-! ## The average -/

/-- A full window has the sum over the period as its value. -/
theorem valueAfter?_eq (h : max period 1 ≤ closes.length) :
    valueAfter? period closes =
      some ((closes.foldl update (new period)).sum / Float.ofNat (max period 1)) := by
  rw [valueAfter?, value?, length_window_foldl_new, period_foldl_new, if_pos (min_eq_right h)]

/-- Exact sums of one window above zero are the same double. -/
theorem IsExact.sum_eq_sum (hs : IsExact s) (ht : IsExact t) (hwindow : s.window = t.window)
    (hpos : 0 < total s.window) : s.sum = t.sum := by
  have hsum := roundsTo_toRat hs.finite
  have hsum' := roundsTo_toRat ht.finite
  rw [hs.sum_eq] at hsum
  rw [ht.sum_eq, ← hwindow] at hsum'
  refine hsum.eq hsum' ((toRat_pos_iff hs.finite).1 ?_)
  rwa [hs.sum_eq]

theorem total_pos (hne : closes ≠ []) (h : ∀ c ∈ closes, 0 < toRat c) : 0 < total closes := by
  cases closes with
  | nil => exact absurd rfl hne
  | cons close rest =>
    have hrest : 0 ≤ total rest := by
      refine List.sum_nonneg fun q hq => ?_
      obtain ⟨c, hc, rfl⟩ := List.mem_map.1 hq
      exact (h c (List.mem_cons_of_mem close hc)).le
    have := h close List.mem_cons_self
    rw [total_cons]
    linarith

/-- The last closes of a list that ends with a period of them. -/
theorem window_append (past : List Float) (hlength : recent.length = max period 1) :
    ((past ++ recent).foldl update (new period)).window = recent := by
  rw [window_foldl_new, List.rtake, List.length_append, hlength, Nat.add_sub_cancel,
    List.drop_left]

/-- Histories with the same last closes have the same value if none of them is rounded. -/
theorem valueAfter?_eq_of_countsExactly (past other : List Float)
    (hlength : recent.length = max period 1) (hprices : ∀ c ∈ recent, Candle.isPrice c = true)
    (hpast : CountsExactly period (past ++ recent))
    (hother : CountsExactly period (other ++ recent)) :
    valueAfter? period (past ++ recent) = valueAfter? period (other ++ recent) := by
  have hpos : 0 < total recent := by
    refine total_pos ?_ fun c hc => (toRat_pos_of_isPrice (hprices c hc)).2
    rintro rfl
    rw [List.length_nil] at hlength
    omega
  have hwindow := window_append past hlength
  have hwindow' := window_append other hlength
  rw [valueAfter?_eq (by rw [List.length_append]; omega),
    valueAfter?_eq (by rw [List.length_append]; omega),
    (isExact_foldl_new hpast).sum_eq_sum (isExact_foldl_new hother) (by rw [hwindow, hwindow'])
      (by rwa [hwindow])]

/-- A fresh average with a period of one has its first close as its value. -/
theorem valueAfter?_singleton (hperiod : period ≤ 1) (hprice : Candle.isPrice close = true) :
    valueAfter? period [close] = some close := by
  have hone : max period 1 = 1 := by omega
  obtain ⟨hfinite, hpos⟩ := toRat_pos_of_isPrice hprice
  have hsum : ([close].foldl update (new period)).sum = 0 + close := by
    rcases update_cases (s := new period) close (Nat.zero_le _) with ⟨-, -, hsum⟩ | ⟨hfull, -⟩
    · exact hsum
    · change 0 = max period 1 at hfull
      omega
  have hadded := roundsTo_add isFinite_zero hfinite
  rw [toRat_zero, zero_add] at hadded
  have hclose : 0 < close := (toRat_pos_iff hfinite).1 hpos
  rw [valueAfter?_eq (by rw [hone]; exact le_rfl), hone, hsum,
    ← (roundsTo_toRat hfinite).eq hadded hclose, div_ofNat_one hfinite hclose]

/-- A sum that is near the total of a period of closes: the size of its mean, and how far that is
from the mean of the closes. -/
theorem abs_mean_le {sum exact count error : ℚ} (hcount : 1 ≤ count) (hbound : 0 ≤ bound)
    (hexact : 0 ≤ exact ∧ exact ≤ count * bound) (herror : error ≤ bound)
    (hnear : |sum - exact| ≤ error) :
    |sum / count| ≤ 2 * bound ∧ |sum / count - exact / count| ≤ error / count := by
  have hpos : 0 < count := by linarith
  have hnear' := abs_le.1 hnear
  have hscale : bound ≤ count * bound := le_mul_of_one_le_left hbound hcount
  constructor
  · rw [abs_div, abs_of_pos hpos, div_le_iff₀ hpos, mul_comm, ← mul_assoc, mul_comm count,
      mul_assoc, abs_le]
    constructor <;> linarith
  · rw [← sub_div, abs_div, abs_of_pos hpos]
    exact div_le_div_of_nonneg_right hnear hpos.le

/-- The value is as near to the mean of the window as the errors of the sum and of the division
allow. -/
theorem exists_valueAfter?_near (hlength : recent.length = max period 1)
    (hprices : ∀ c ∈ past ++ recent, Candle.isPrice c = true)
    (h : IsWithin bound period (past ++ recent)) :
    ∃ value, valueAfter? period (past ++ recent) = some value ∧ value.isFinite = true ∧
      |toRat value - total recent / (max period 1 : ℕ)| ≤
        (6 * (past ++ recent).length + 2) * bound / 2 ^ 53 + 2 ^ (-1075 : ℤ) := by
  have hcloses : ∀ c ∈ recent, 0 ≤ toRat c ∧ toRat c ≤ bound := fun c hc =>
    ⟨(toRat_pos_of_isPrice (hprices c (List.mem_append_right _ hc))).2.le,
      h.close_le c (List.mem_append_right _ hc)⟩
  have hone : 1 ≤ max period 1 := Nat.le_max_right _ _
  have hlong : max period 1 ≤ (past ++ recent).length := by rw [List.length_append]; omega
  have hbound : 0 ≤ bound := by
    obtain ⟨c, hc⟩ := List.exists_mem_of_length_pos (show 0 < recent.length by omega)
    exact (hcloses c hc).1.trans (hcloses c hc).2
  have hfew : max period 1 < 2 ^ 53 := by
    have hcount := h.length_le
    have := Nat.mul_le_mul_right (2 * (max period 1 + 2)) (hone.trans hlong)
    omega
  obtain ⟨hperiodFinite, hperiod⟩ := ofNat_exact hfew
  have hcast : (1 : ℚ) ≤ (max period 1 : ℕ) := by exact_mod_cast hone
  obtain ⟨hsumFinite, hsum⟩ := isNear_foldl_new hprices h
  have hwindow := total_bounds hcloses
  rw [window_append past hlength] at hsum
  rw [hlength] at hwindow
  obtain ⟨hsize, hmean⟩ := abs_mean_le hcast hbound hwindow (drift_le hbound h.length_le) hsum
  have hdivided := roundsTo_div hsumFinite hperiodFinite (by rw [hperiod]; positivity)
  rw [hperiod] at hdivided
  have hreach : 2 * bound < 2 ^ (1023 : ℤ) := by
    refine lt_of_le_of_lt (mul_le_mul_of_nonneg_right ?_ hbound) h.bound_lt
    exact_mod_cast Nat.le_add_left 2 (max period 1)
  have hfinite := hdivided.isFinite (hsize.trans_lt hreach)
  refine ⟨_, valueAfter?_eq hlong, hfinite, ?_⟩
  have hrounded := hdivided.abs_sub_le hfinite
  have hrelative := mul_le_mul_of_nonneg_right hsize (by positivity : (0 : ℚ) ≤ 2 ^ (-53 : ℤ))
  have hunit : (2 : ℚ) ^ (-53 : ℤ) = 1 / 2 ^ 53 := by rw [zpow_neg, one_div]; rfl
  rw [hunit, mul_one_div (2 * bound)] at hrelative
  rw [hunit] at hrounded
  have hdrift := hmean.trans (drift_div_le hbound period _)
  refine (abs_sub_le _ _ _).trans ((add_le_add hrounded hdrift).trans ?_)
  rw [add_mul, add_div]
  linarith

/-- **A simple average forgets what is not rounded.** After closes that are summed without rounding
the value is that of a fresh average over the window alone, so it is the same after any other such
closes before the window, and with a period of one it is the latest close. After any closes that are
far from overflow the value is finite, and its distance from the mean of the window is at most
`6 * n + 2` roundings of the largest of all `n` closes, and half of the least double. -/
theorem valueAfter?_forgets (hlength : recent.length = max period 1)
    (hprices : ∀ c ∈ past ++ recent, Candle.isPrice c = true) :
    (CountsExactly period (past ++ recent) →
      valueAfter? period (past ++ recent) = valueAfter? period recent ∧
      (∀ other, CountsExactly period (other ++ recent) →
        valueAfter? period (past ++ recent) = valueAfter? period (other ++ recent)) ∧
      (period ≤ 1 → valueAfter? period (past ++ recent) = recent.getLast?)) ∧
    ∀ bound, IsWithin bound period (past ++ recent) →
      ∃ value, valueAfter? period (past ++ recent) = some value ∧ value.isFinite = true ∧
        |toRat value - total recent / (max period 1 : ℕ)| ≤
          (6 * (past ++ recent).length + 2) * bound / 2 ^ 53 + 2 ^ (-1075 : ℤ) := by
  have hrecent : ∀ c ∈ recent, Candle.isPrice c = true := fun c hc =>
    hprices c (List.mem_append_right _ hc)
  refine ⟨fun hpast => ?_, fun bound h => exists_valueAfter?_near hlength hprices h⟩
  have hfresh : valueAfter? period (past ++ recent) = valueAfter? period recent :=
    valueAfter?_eq_of_countsExactly past [] hlength hrecent hpast
      (hpast.of_isInfix (List.suffix_append past recent).isInfix)
  refine ⟨hfresh, fun other => valueAfter?_eq_of_countsExactly past other hlength hrecent hpast,
    fun hperiod => ?_⟩
  obtain ⟨close, rfl⟩ := List.length_eq_one_iff.1 (show recent.length = 1 by omega)
  rw [hfresh, List.getLast?_singleton]
  exact valueAfter?_singleton hperiod (hrecent close List.mem_cons_self)

/-- Two closes after two others, all of them in quarters. -/
theorem valueAfter?_forgets_quarters :
    ([10.5, 11.25] : List Float).length = max (2 : ℕ) 1 ∧
    (∀ c ∈ [1000.5, 2000.25] ++ [10.5, 11.25], Candle.isPrice c = true) ∧
    CountsExactly 2 ([1000.5, 2000.25] ++ [10.5, 11.25]) ∧
    valueAfter? 2 ([1000.5, 2000.25] ++ [10.5, 11.25]) = valueAfter? 2 [10.5, 11.25] ∧
    IsWithin 2001 2 ([1000.5, 2000.25] ++ [10.5, 11.25]) ∧
    ∃ value, valueAfter? 2 ([1000.5, 2000.25] ++ [10.5, 11.25]) = some value ∧
      |toRat value - 87 / 8| ≤ 1 / 10 ^ 11 := by
  have hlength : ([10.5, 11.25] : List Float).length = max (2 : ℕ) 1 := by decide
  have hprices : ∀ c ∈ [1000.5, 2000.25] ++ [10.5, 11.25], Candle.isPrice c = true := by
    decide +kernel
  have hunits : ∀ c ∈ [1000.5, 2000.25] ++ [10.5, 11.25],
      c.isFinite = true ∧ (∃ k : ℕ, toRat c = k * 2 ^ (-2 : ℤ)) ∧ toRat c ≤ 2001 := by
    intro c hc
    simp only [List.cons_append, List.nil_append, List.mem_cons, List.not_mem_nil, or_false] at hc
    obtain rfl | rfl | rfl | rfl := hc
    · exact ⟨by decide +kernel, ⟨4002, by decide +kernel⟩, by decide +kernel⟩
    · exact ⟨by decide +kernel, ⟨8001, by decide +kernel⟩, by decide +kernel⟩
    · exact ⟨by decide +kernel, ⟨42, by decide +kernel⟩, by decide +kernel⟩
    · exact ⟨by decide +kernel, ⟨45, by decide +kernel⟩, by decide +kernel⟩
  have hcounts : CountsExactly 2 ([1000.5, 2000.25] ++ [10.5, 11.25]) :=
    countsExactly_of_le (by decide) (by decide) hunits (by norm_num) (by norm_num)
  have hwithin : IsWithin 2001 2 ([1000.5, 2000.25] ++ [10.5, 11.25]) :=
    ⟨fun c hc => (hunits c hc).2.2, by decide +kernel, by decide⟩
  obtain ⟨hexact, hnear⟩ := valueAfter?_forgets hlength hprices
  obtain ⟨value, hvalue, -, herror⟩ := hnear 2001 hwithin
  have hmean : total [10.5, 11.25] / (max 2 1 : ℕ) = 87 / 8 := by decide +kernel
  rw [hmean] at herror
  exact ⟨hlength, hprices, hcounts, (hexact hcounts).1, hwithin, value, hvalue,
    herror.trans (by decide +kernel)⟩

/-- A close of `10 ^ 16` and then one of one: the addition rounds, and the average of one close is
zero and not the close. -/
theorem not_all_forgotten :
    ¬ ∀ (period : ℕ) (past recent : List Float), recent.length = max period 1 →
      (∀ c ∈ past ++ recent, Candle.isPrice c = true) →
      valueAfter? period (past ++ recent) = valueAfter? period recent := by
  intro h
  have hvalue := h 1 [1e16] [1] (by decide) (by decide +kernel)
  exact absurd hvalue (by decide +kernel)

end Backtest.Sma
