import Backtest.Indicator.MovingAverage

/-!
# When an average is warm

A fresh average has a value exactly from the close on that completes its period. The exponential
average counts the closes of its seed and the simple one the closes in its window; both counts are
read off the state, so one induction over the closes serves each kind.

## Main statements

* `Ema.isSome_value?_foldl` — an average that is still seeding gets its value with its last seed.
* `Sma.length_window_foldl` — the window holds the last closes, at most a period of them.
* `MovingAverage.isSome_value?_updateAll_new` — either kind is warm from its period on.
-/
namespace Backtest

namespace Ema

@[simp] theorem period_update (e : Ema) (close : Float) : (e.update close).period = e.period := by
  rw [update]
  split
  · split <;> rfl
  · rfl

/-- A warm average stays warm. -/
theorem isSome_value?_update {e : Ema} (h : e.value?.isSome) (close : Float) :
    (e.update close).value?.isSome := by
  rw [value?] at h
  cases hp : e.phase with
  | seeding seen sum => simp [hp] at h
  | running value => simp [update, value?, hp]

theorem isSome_value?_foldl_of_warm (closes : List Float) {e : Ema} (h : e.value?.isSome) :
    (closes.foldl update e).value?.isSome := by
  induction closes generalizing e with
  | nil => exact h
  | cons close rest ih => exact ih (isSome_value?_update h close)

/-- An average that has seen fewer closes than its period needs becomes warm with the last of
them. -/
theorem isSome_value?_foldl (closes : List Float) {e : Ema} {seen : Nat} {sum : Float}
    (hphase : e.phase = .seeding seen sum) (hseen : seen < e.period) :
    (closes.foldl update e).value?.isSome ↔ e.period ≤ seen + closes.length := by
  induction closes generalizing e seen sum with
  | nil =>
    simp only [List.foldl_nil, value?, hphase, List.length_nil]
    constructor
    · intro h; cases h
    · intro h; omega
  | cons close rest ih =>
    simp only [List.foldl_cons, List.length_cons]
    by_cases hlast : seen + 1 = e.period
    · have hwarm : (e.update close).value?.isSome := by simp [update, value?, hphase, hlast]
      have hrest := isSome_value?_foldl_of_warm rest hwarm
      constructor
      · intro _; omega
      · intro _; exact hrest
    · have hnext : (e.update close).phase = .seeding (seen + 1) (sum + close) := by
        simp [update, hphase, hlast]
      have hlt : seen + 1 < (e.update close).period := by rw [period_update]; omega
      have key := ih hnext hlt
      rw [period_update] at key
      rw [key]
      omega

end Ema

namespace Sma

@[simp] theorem period_update (s : Sma) (close : Float) : (s.update close).period = s.period := by
  unfold update
  simp only
  split
  · split <;> rfl
  · rfl

/-- A close is added to a window that is not full, and takes the place of the oldest one in a full
window. -/
theorem update_cases {s : Sma} (close : Float) (h : s.window.length ≤ s.period) :
    (s.window.length < s.period ∧ (s.update close).window = s.window ++ [close] ∧
        (s.update close).sum = s.sum + close) ∨
      (s.window.length = s.period ∧ ∃ leaving rest, s.window ++ [close] = leaving :: rest ∧
        (s.update close).window = rest ∧ (s.update close).sum = s.sum + close - leaving) := by
  have hlength : (s.window ++ [close]).length = s.window.length + 1 := by simp
  simp only [update, hlength]
  by_cases hfull : s.period < s.window.length + 1
  · refine .inr ⟨by omega, ?_⟩
    rw [if_pos hfull]
    cases hw : s.window ++ [close] with
    | nil => simp at hw
    | cons leaving rest => exact ⟨leaving, rest, rfl, rfl, rfl⟩
  · rw [if_neg hfull]
    exact .inl ⟨by omega, rfl, rfl⟩

theorem length_window_update (s : Sma) (close : Float) (h : s.window.length ≤ s.period) :
    (s.update close).window.length = min (s.window.length + 1) s.period := by
  have hlength : (s.window ++ [close]).length = s.window.length + 1 := by simp
  rcases update_cases close h with ⟨hroom, hwindow, -⟩ | ⟨hfull, leaving, rest, heq, hwindow, -⟩
  · rw [hwindow, hlength]
    omega
  · rw [heq, List.length_cons] at hlength
    rw [hwindow]
    omega

theorem length_window_foldl (closes : List Float) {s : Sma} (h : s.window.length ≤ s.period) :
    (closes.foldl update s).window.length = min (s.window.length + closes.length) s.period := by
  induction closes generalizing s with
  | nil => simp only [List.foldl_nil, List.length_nil]; omega
  | cons close rest ih =>
    have hstep := length_window_update s close h
    have hle : (s.update close).window.length ≤ (s.update close).period := by
      rw [hstep, period_update]; omega
    have key := ih hle
    rw [hstep, period_update] at key
    simp only [List.foldl_cons, List.length_cons]
    rw [key]
    omega

theorem period_foldl (closes : List Float) (s : Sma) :
    (closes.foldl update s).period = s.period := by
  induction closes generalizing s with
  | nil => rfl
  | cons close rest ih => rw [List.foldl_cons, ih, period_update]

end Sma

namespace MovingAverage

theorem updateAll_exponential (e : Ema) (closes : List Float) :
    (exponential e).updateAll closes = .exponential (closes.foldl Ema.update e) := by
  induction closes generalizing e with
  | nil => rfl
  | cons close rest ih => exact ih (e.update close)

theorem updateAll_simple (s : Sma) (closes : List Float) :
    (simple s).updateAll closes = .simple (closes.foldl Sma.update s) := by
  induction closes generalizing s with
  | nil => rfl
  | cons close rest ih => exact ih (s.update close)

/-- One more close is one more update. -/
theorem updateAll_concat (a : MovingAverage) (closes : List Float) (close : Float) :
    a.updateAll (closes ++ [close]) = (a.updateAll closes).update close := by
  simp only [updateAll, List.foldl_append, List.foldl_cons, List.foldl_nil]

/-- A fresh average has a value exactly when it has taken a period of closes. -/
theorem isSome_value?_updateAll_new (kind : AverageKind) (period : Nat) (closes : List Float) :
    ((new kind period).updateAll closes).value?.isSome ↔ max period 1 ≤ closes.length := by
  cases kind with
  | exponential =>
    rw [new, updateAll_exponential]
    have hpos : 0 < (Ema.new period).period := by simp only [Ema.new]; omega
    have key := Ema.isSome_value?_foldl closes (e := Ema.new period) rfl hpos
    simpa [value?, Ema.new] using key
  | simple =>
    rw [new, updateAll_simple]
    have hlength := Sma.length_window_foldl closes (s := Sma.new period) (by simp [Sma.new])
    have hperiod := Sma.period_foldl closes (Sma.new period)
    simp only [Sma.new, List.length_nil, Nat.zero_add] at hlength hperiod
    simp only [value?, Sma.value?, Sma.new, hlength, hperiod]
    split
    · simp only [Option.isSome_some, true_iff]; omega
    · simp only [Option.isSome_none, Bool.false_eq_true, false_iff]; omega

/-- A fresh average is cold. -/
@[simp] theorem value?_new (kind : AverageKind) (period : Nat) :
    (new kind period).value? = none := by
  have key := isSome_value?_updateAll_new kind period []
  simp only [updateAll, List.foldl_nil, List.length_nil] at key
  rw [← Option.not_isSome_iff_eq_none, key]
  omega

end MovingAverage
end Backtest
