import Backtest.Proofs.Indicator.Warmup
import Backtest.Strategy.Trend
import Mathlib

/-!
# The trend as a resampled average

A trend counts the candles of its bar and feeds its average when the bar is full. Seen from all
closes so far this is resampling: the average has taken exactly the closes at the last place of each
complete bar, and the candles after the last of these places are only counted.

## Main definitions

* `Trend.barCloses` — the closes at the last places of the complete bars.
* `Trend.barCloses_concat` — a close ends a bar or leaves the bars as they are.
* `Trend.ofBars`, `Trend.updateAll_new` — the state after any closes.
* `Trend.updateAll_new_resamples` — average and direction by the bars.
-/
namespace Backtest.Trend

variable {multiplier period : ℕ} {closes other : List Float}

/-! ## Bars -/

/-- The last place of a complete bar is one of the closes. -/
theorem barEnd_lt {n k : ℕ} (h : k < n / multiplier) : (k + 1) * multiplier - 1 < n := by
  have hle : (k + 1) * multiplier ≤ n / multiplier * multiplier := Nat.mul_le_mul_right _ h
  have hbars := Nat.div_mul_le_self n multiplier
  have hpos : n / multiplier ≤ n := Nat.div_le_self n multiplier
  omega

/-- The closes at the last places of the complete bars: every `multiplier`-th one. -/
def barCloses (multiplier : ℕ) (closes : List Float) : List Float :=
  List.ofFn fun k : Fin (closes.length / multiplier) =>
    closes.get ⟨(k + 1) * multiplier - 1, barEnd_lt k.isLt⟩

@[simp] theorem length_barCloses (multiplier : ℕ) (closes : List Float) :
    (barCloses multiplier closes).length = closes.length / multiplier := List.length_ofFn

theorem getElem?_barCloses {k : ℕ} (h : k < closes.length / multiplier) :
    (barCloses multiplier closes)[k]? = closes[(k + 1) * multiplier - 1]? := by
  rw [barCloses, List.getElem?_ofFn, dif_pos h, List.getElem?_eq_getElem (barEnd_lt h)]
  rfl

/-- Bars see no closes but the last ones of each. -/
theorem barCloses_congr (hbars : other.length / multiplier = closes.length / multiplier)
    (h : ∀ k < closes.length / multiplier,
      other[(k + 1) * multiplier - 1]? = closes[(k + 1) * multiplier - 1]?) :
    barCloses multiplier other = barCloses multiplier closes := by
  refine List.ext_getElem? fun k => ?_
  by_cases hk : k < closes.length / multiplier
  · rw [getElem?_barCloses hk, getElem?_barCloses (by rwa [hbars]), h k hk]
  · rw [List.getElem?_eq_none (by rw [length_barCloses, hbars]; omega),
      List.getElem?_eq_none (by rw [length_barCloses]; omega)]

/-- A further close ends a bar if the closes are then a multiple of bars, and else is not seen. -/
theorem barCloses_concat (close : Float) :
    barCloses multiplier (closes ++ [close]) =
      if multiplier ∣ closes.length + 1 then barCloses multiplier closes ++ [close]
      else barCloses multiplier closes := by
  have hlength : (closes ++ [close]).length = closes.length + 1 := by simp
  have hbars := Nat.succ_div (a := closes.length) (b := multiplier)
  have hbefore : ∀ k < closes.length / multiplier,
      (barCloses multiplier (closes ++ [close]))[k]? = (barCloses multiplier closes)[k]? := by
    intro k hk
    have hle : closes.length / multiplier ≤ (closes ++ [close]).length / multiplier :=
      Nat.div_le_div_right (by omega)
    rw [getElem?_barCloses hk, getElem?_barCloses (hk.trans_le hle),
      List.getElem?_append_left (barEnd_lt hk)]
  refine List.ext_getElem? fun k => ?_
  rcases lt_trichotomy k (closes.length / multiplier) with hk | rfl | hk
  · rw [hbefore k hk]
    split
    · rw [List.getElem?_append_left (by rwa [length_barCloses])]
    · rfl
  · split
    · rename_i hdvd
      rw [if_pos hdvd] at hbars
      have hend : (closes.length / multiplier + 1) * multiplier - 1 = closes.length := by
        rw [← hbars, Nat.div_mul_cancel hdvd, Nat.add_sub_cancel]
      rw [getElem?_barCloses (by rw [hlength, hbars]; omega), hend, List.getElem?_concat_length,
        ← length_barCloses, List.getElem?_concat_length]
    · rename_i hdvd
      rw [if_neg hdvd] at hbars
      rw [List.getElem?_eq_none (by rw [length_barCloses, hlength, hbars]; omega),
        List.getElem?_eq_none (by rw [length_barCloses])]
  · have hmore : (closes.length + 1) / multiplier ≤ closes.length / multiplier + 1 := by
      rw [hbars]
      split <;> omega
    rw [List.getElem?_eq_none (by rw [length_barCloses, hlength]; omega), List.getElem?_eq_none]
    split <;> simp only [List.length_append, List.length_singleton, length_barCloses] <;> omega

/-- The candles of an unfinished bar are in no bar. -/
theorem barCloses_take (h : 1 ≤ multiplier) (closes : List Float) :
    barCloses multiplier (closes.take (closes.length / multiplier * multiplier)) =
      barCloses multiplier closes := by
  have hbars : (closes.take (closes.length / multiplier * multiplier)).length / multiplier =
      closes.length / multiplier := by
    rw [List.length_take, min_eq_left (Nat.div_mul_le_self _ _), Nat.mul_div_cancel _ h]
  refine barCloses_congr hbars fun k hk => ?_
  have hfirst : 0 < (k + 1) * multiplier := Nat.mul_pos k.succ_pos h
  have hend : (k + 1) * multiplier ≤ closes.length / multiplier * multiplier :=
    Nat.mul_le_mul_right _ hk
  rw [List.getElem?_take, if_pos (by omega)]

/-! ## The state -/

/-- The trend that these closes lead to, by its bars. -/
def ofBars (multiplier period : ℕ) (closes : List Float) : Trend where
  multiplier := multiplier
  inBar := closes.length % multiplier
  average := (barCloses multiplier closes).foldl Ema.update (.new period)
  lastClose := (barCloses multiplier closes).getLast?

/-- The count of a bar says when a close ends it. -/
theorem dvd_succ_iff {n : ℕ} (h : 1 ≤ multiplier) :
    multiplier ∣ n + 1 ↔ n % multiplier + 1 = multiplier := by
  have hrest := Nat.mod_lt n h
  rw [Nat.dvd_iff_mod_eq_zero, ← Nat.mod_add_mod]
  constructor
  · intro hzero
    by_contra hne
    rw [Nat.mod_eq_of_lt (by omega)] at hzero
    omega
  · intro hfull
    rw [hfull, Nat.mod_self]

/-- The counting of a trend is that of its bars. -/
theorem update_ofBars (h : 1 ≤ multiplier) (close : Float) :
    (ofBars multiplier period closes).update close =
      ofBars multiplier period (closes ++ [close]) := by
  have hlength : (closes ++ [close]).length = closes.length + 1 := by simp
  rw [ofBars, ofBars, update, barCloses_concat, hlength]
  by_cases hfull : closes.length % multiplier + 1 = multiplier
  · have hdvd := (dvd_succ_iff h).2 hfull
    rw [if_pos hfull, if_pos hdvd, Nat.mod_eq_zero_of_dvd hdvd, List.foldl_append,
      List.foldl_cons, List.foldl_nil, List.getLast?_concat]
  · have hrest := Nat.mod_lt closes.length h
    rw [if_neg hfull, if_neg (mt (dvd_succ_iff h).1 hfull), ← Nat.mod_add_mod,
      Nat.mod_eq_of_lt (show closes.length % multiplier + 1 < multiplier by omega)]

theorem updateAll_new (h : 1 ≤ multiplier) (period : ℕ) (closes : List Float) :
    (new multiplier period).updateAll closes = ofBars multiplier period closes := by
  induction closes using List.reverseRecOn with
  | nil =>
    have hbars : barCloses multiplier [] = [] :=
      List.eq_nil_of_length_eq_zero (by rw [length_barCloses, List.length_nil, Nat.zero_div])
    rw [ofBars, hbars, List.length_nil, Nat.zero_mod]
    change new multiplier period = _
    rw [new, max_eq_left h]
    rfl
  | append_singleton closes close ih =>
    have happend : (new multiplier period).updateAll (closes ++ [close]) =
        ((new multiplier period).updateAll closes).update close := by
      simp only [updateAll, List.foldl_append, List.foldl_cons, List.foldl_nil]
    rw [happend, ih, update_ofBars h]

theorem average?_ofBars (multiplier period : ℕ) (closes : List Float) :
    (ofBars multiplier period closes).average? =
      ((barCloses multiplier closes).foldl Ema.update (.new period)).value? := rfl

theorem isFalling_iff {t : Trend} :
    t.isFalling = true ↔
      ∃ close average, t.lastClose = some close ∧ t.average? = some average ∧ close < average := by
  cases hclose : t.lastClose with
  | none => simp [isFalling, hclose]
  | some close =>
    cases haverage : t.average? with
    | none => simp [isFalling, haverage]
    | some average => simp [isFalling, hclose, haverage]

/-- The average is warm once a period of bars is complete. -/
theorem isSome_average?_ofBars (multiplier period : ℕ) (closes : List Float) :
    (ofBars multiplier period closes).average?.isSome ↔
      max period 1 ≤ closes.length / multiplier := by
  have hpos : 0 < max period 1 := by omega
  have key := Ema.isSome_value?_foldl (barCloses multiplier closes) (e := Ema.new period) rfl hpos
  rwa [Nat.zero_add, length_barCloses] at key

theorem lastClose_ofBars (hbar : 0 < closes.length / multiplier) :
    (ofBars multiplier period closes).lastClose =
      closes[closes.length / multiplier * multiplier - 1]? := by
  change (barCloses multiplier closes).getLast? = _
  rw [List.getLast?_eq_getElem?, length_barCloses, getElem?_barCloses (by omega),
    Nat.sub_add_cancel hbar]

/-- The trend falls once a period of bars is complete and the last of them is below the average. -/
theorem isFalling_ofBars (multiplier period : ℕ) (closes : List Float) :
    (ofBars multiplier period closes).isFalling = true ↔
      max period 1 ≤ closes.length / multiplier ∧
        ∃ close average, closes[closes.length / multiplier * multiplier - 1]? = some close ∧
          (ofBars multiplier period closes).average? = some average ∧ close < average := by
  rw [isFalling_iff]
  constructor
  · rintro ⟨close, average, hclose, haverage, hlt⟩
    have hbars : max period 1 ≤ closes.length / multiplier :=
      (isSome_average?_ofBars multiplier period closes).1 (by rw [haverage]; rfl)
    rw [lastClose_ofBars (by omega)] at hclose
    exact ⟨hbars, close, average, hclose, haverage, hlt⟩
  · rintro ⟨hbars, close, average, hclose, haverage, hlt⟩
    exact ⟨close, average, by rwa [lastClose_ofBars (by omega)], haverage, hlt⟩

/-- **A trend is a resampled average.** After any closes the average of a fresh trend is that of a
fresh exponential average over the closes at the last places of the complete bars. The trend falls
exactly if as many bars are complete as the average needs and the last of them closed below it. So
closes of the same number that agree at those places lead to the same average and direction, and the
closes after the last of these places do not count. -/
theorem updateAll_new_resamples (h : 1 ≤ multiplier) (period : ℕ) (closes : List Float) :
    ((new multiplier period).updateAll closes).average? =
        ((barCloses multiplier closes).foldl Ema.update (.new period)).value? ∧
      (((new multiplier period).updateAll closes).isFalling = true ↔
        max period 1 ≤ closes.length / multiplier ∧
          ∃ close average, closes[closes.length / multiplier * multiplier - 1]? = some close ∧
            ((new multiplier period).updateAll closes).average? = some average ∧
            close < average) ∧
      (∀ other : List Float, other.length = closes.length →
        (∀ k < closes.length / multiplier,
          other[(k + 1) * multiplier - 1]? = closes[(k + 1) * multiplier - 1]?) →
        ((new multiplier period).updateAll other).average? =
            ((new multiplier period).updateAll closes).average? ∧
          ((new multiplier period).updateAll other).isFalling =
            ((new multiplier period).updateAll closes).isFalling) ∧
      ((new multiplier period).updateAll
            (closes.take (closes.length / multiplier * multiplier))).average? =
          ((new multiplier period).updateAll closes).average? ∧
        ((new multiplier period).updateAll
            (closes.take (closes.length / multiplier * multiplier))).isFalling =
          ((new multiplier period).updateAll closes).isFalling := by
  have hsame : ∀ other : List Float, barCloses multiplier other = barCloses multiplier closes →
      (ofBars multiplier period other).average? = (ofBars multiplier period closes).average? ∧
        (ofBars multiplier period other).isFalling =
          (ofBars multiplier period closes).isFalling := by
    intro other hbars
    simp only [isFalling, average?, ofBars, hbars, and_self]
  simp only [updateAll_new h]
  exact ⟨average?_ofBars multiplier period closes, isFalling_ofBars multiplier period closes,
    fun other hlength hagree => hsame other (barCloses_congr (by rw [hlength]) hagree),
    hsame _ (barCloses_take h closes)⟩

/-- Two bars of two candles and the first candle of a third: only 100 and 90 count. -/
theorem updateAll_new_resamples_twoBars :
    ((new 2 2).updateAll [3, 100, 500, 90, 7]).average? = some 95 ∧
      ((new 2 2).updateAll [3, 100, 500, 90, 7]).isFalling = true ∧
      ((new 2 2).updateAll [100, 100, 90, 90, 1000]).isFalling = true := by
  have hvalue : ((barCloses 2 [3, 100, 500, 90, 7]).foldl Ema.update (.new 2)).value? =
      some 95 := by decide +kernel
  have hlast : ([3, 100, 500, 90, 7] : List Float)[3]? = some 90 := rfl
  have hplaces : ∀ k < ([3, 100, 500, 90, 7] : List Float).length / 2,
      ([100, 100, 90, 90, 1000] : List Float)[(k + 1) * 2 - 1]? =
        ([3, 100, 500, 90, 7] : List Float)[(k + 1) * 2 - 1]? := by decide +kernel
  obtain ⟨haverage, hfalling, hagree, -⟩ :=
    updateAll_new_resamples (by decide : 1 ≤ 2) 2 [3, 100, 500, 90, 7]
  have hninetyFive := haverage.trans hvalue
  have hdown := hfalling.2 ⟨by decide, 90, 95, hlast, hninetyFive, by decide +kernel⟩
  exact ⟨hninetyFive, hdown, (hagree [100, 100, 90, 90, 1000] (by decide) hplaces).2.trans hdown⟩

end Backtest.Trend
