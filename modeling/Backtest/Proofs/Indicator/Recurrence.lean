import Backtest.Proofs.Indicator.Warmup
import Mathlib

/-!
# What the averages are of the closes

The state of an average is a function of the closes it was given. A simple average has the last of
them in its window, at most a period. An exponential one first sums a period of closes and then
moves toward every later one, so its value is a left fold from the mean of the first closes, with
the same operations on doubles in the same order. Both give their first value with the close that
completes the period.

## Main definitions

* `Sma.window_foldl_new` — the window.
* `Ema.recurrence`, `Ema.value?_foldl_new` — the exponential average by its definition.
* `MovingAverage.getElem?_values` — the value after each close.
* `MovingAverage.new_follows_closes` — both averages over all closes.
-/
namespace Backtest

/-- The last elements of a list decide what the last elements are after more of them. -/
theorem rtake_rtake_append {α : Type} (l r : List α) (n : ℕ) :
    (l.rtake n ++ r).rtake n = (l ++ r).rtake n := by
  simp only [List.rtake_eq_reverse_take_reverse, List.reverse_append, List.reverse_reverse,
    List.take_append, List.take_take]
  rw [min_eq_left (Nat.sub_le n _)]

namespace Sma

/-- A close pushes the oldest one out of a full window. -/
theorem window_update {s : Sma} (close : Float) (h : s.window.length ≤ s.period) :
    (s.update close).window = (s.window ++ [close]).rtake s.period := by
  have hlength : (s.window ++ [close]).length = s.window.length + 1 := by simp
  rw [List.rtake, hlength]
  rcases update_cases close h with ⟨hroom, hwindow, -⟩ | ⟨hfull, leaving, rest, heq, hwindow, -⟩
  · rw [hwindow, Nat.sub_eq_zero_of_le hroom, List.drop_zero]
  · rw [hwindow, heq, hfull, Nat.add_sub_cancel_left, List.drop_one, List.tail_cons]

theorem period_foldl_new (period : ℕ) (closes : List Float) :
    (closes.foldl update (new period)).period = max period 1 := period_foldl closes (new period)

theorem length_window_foldl_new (period : ℕ) (closes : List Float) :
    (closes.foldl update (new period)).window.length = min closes.length (max period 1) := by
  have hlength := length_window_foldl closes (s := new period) (Nat.zero_le _)
  rwa [new, List.length_nil, Nat.zero_add] at hlength

/-- The window of a fresh average holds the last closes, a period of them or all. -/
theorem window_foldl_new (period : ℕ) (closes : List Float) :
    (closes.foldl update (new period)).window = closes.rtake (max period 1) := by
  induction closes using List.reverseRecOn with
  | nil => rw [List.rtake_nil]; rfl
  | append_singleton closes close ih =>
    have hlength : (closes.foldl update (new period)).window.length ≤ max period 1 :=
      (length_window_foldl_new period closes).trans_le (min_le_right _ _)
    rw [List.foldl_append, List.foldl_cons, List.foldl_nil,
      window_update close (by rwa [period_foldl_new]), ih, period_foldl_new, rtake_rtake_append]

end Sma

namespace Ema

/-- The average by its definition: the mean of the first `period` closes, which every later close
moves by its share. -/
def recurrence (period : ℕ) (closes : List Float) : Float :=
  let weight := 2 / (Float.ofNat period + 1)
  (closes.drop period).foldl (fun value close => weight * close + (1 - weight) * value)
    ((closes.take period).foldl (· + ·) 0 / Float.ofNat period)

/-- A running average is moved by every close. -/
theorem value?_foldl_running (closes : List Float) {e : Ema} {value : Float}
    (hphase : e.phase = .running value) :
    (closes.foldl update e).value? = some (closes.foldl (blend e.weight) value) := by
  induction closes generalizing e value with
  | nil => rw [List.foldl_nil, value?, hphase]; rfl
  | cons close rest ih =>
    have hnext : (e.update close).phase = .running (blend e.weight value close) := by
      rw [update, hphase]
    have hweight : (e.update close).weight = e.weight := by rw [weight, weight, period_update]
    rw [List.foldl_cons, ih hnext, hweight, List.foldl_cons]

/-- The closes that complete a seed make an average of their sum. -/
theorem phase_foldl_seeding (closes : List Float) {e : Ema} {seen : ℕ} {sum : Float}
    (hphase : e.phase = .seeding seen sum) (hseen : seen < e.period)
    (hlength : seen + closes.length = e.period) :
    (closes.foldl update e).phase =
      .running (closes.foldl (· + ·) sum / Float.ofNat e.period) := by
  induction closes generalizing e seen sum with
  | nil => rw [List.length_nil] at hlength; omega
  | cons close rest ih =>
    rw [List.length_cons] at hlength
    rw [List.foldl_cons, List.foldl_cons]
    by_cases hlast : seen + 1 = e.period
    · obtain rfl : rest = [] := List.eq_nil_of_length_eq_zero (by omega)
      simp only [List.foldl_nil, update, hphase, if_pos hlast]
    · have hnext : (e.update close).phase = .seeding (seen + 1) (sum + close) := by
        simp only [update, hphase, if_neg hlast]
      rw [ih hnext (by rw [period_update]; omega) (by rw [period_update]; omega), period_update]

theorem period_foldl (closes : List Float) (e : Ema) :
    (closes.foldl update e).period = e.period := by
  induction closes generalizing e with
  | nil => rfl
  | cons close rest ih => rw [List.foldl_cons, ih, period_update]

/-- A fresh average has the value of its definition once a period of closes is complete. -/
theorem value?_foldl_new (period : ℕ) (closes : List Float)
    (h : max period 1 ≤ closes.length) :
    (closes.foldl update (new period)).value? = some (recurrence (max period 1) closes) := by
  have hseed := phase_foldl_seeding (closes.take (max period 1)) (e := new period) rfl
    (show 0 < max period 1 by omega)
    (show 0 + (closes.take (max period 1)).length = max period 1 by
      rw [List.length_take]; omega)
  have hperiod := period_foldl (closes.take (max period 1)) (new period)
  have hrun := value?_foldl_running (closes.drop (max period 1)) hseed
  rw [← List.foldl_append, List.take_append_drop, weight, hperiod] at hrun
  exact hrun

end Ema

namespace MovingAverage

@[simp] theorem length_values (a : MovingAverage) (closes : List Float) :
    (a.values closes).length = closes.length := by
  induction closes generalizing a with
  | nil => rfl
  | cons close rest ih => rw [values, List.length_cons, ih, List.length_cons]

/-- The value after a close is that of the average over the closes up to it. -/
theorem getElem?_values (a : MovingAverage) {closes : List Float} {i : ℕ}
    (hi : i < closes.length) :
    (a.values closes)[i]? = some ((a.updateAll (closes.take (i + 1))).value?) := by
  induction closes generalizing a i with
  | nil => rw [List.length_nil] at hi; omega
  | cons close rest ih =>
    cases i with
    | zero => rfl
    | succ i =>
      rw [List.length_cons] at hi
      rw [values, List.getElem?_cons_succ, ih (a.update close) (by omega)]
      rfl

/-- **Averages follow their closes.** A fresh average of either kind gives no value on exactly the
closes before the last of its first period. The window of the simple one always holds the last
closes in order, a period of them or all that there are. The exponential one has the value of its
definition from its period on. -/
theorem new_follows_closes (period : ℕ) (closes : List Float) :
    (∀ kind, ((new kind period).values closes).length = closes.length ∧
      ∀ i value, ((new kind period).values closes)[i]? = some value →
        (value = none ↔ i < max period 1 - 1)) ∧
    (closes.foldl Sma.update (.new period)).window = closes.rtake (max period 1) ∧
    (max period 1 ≤ closes.length →
      (closes.foldl Ema.update (.new period)).value? =
        some (Ema.recurrence (max period 1) closes)) := by
  refine ⟨fun kind => ⟨length_values _ _, fun i value hvalue => ?_⟩,
    Sma.window_foldl_new period closes, Ema.value?_foldl_new period closes⟩
  have hi : i < closes.length := by
    have := (List.getElem?_eq_some_iff.1 hvalue).1
    rwa [length_values] at this
  rw [getElem?_values _ hi, Option.some.injEq] at hvalue
  have hwarm := isSome_value?_updateAll_new kind period (closes.take (i + 1))
  rw [hvalue, List.length_take] at hwarm
  rw [← Option.not_isSome_iff_eq_none, hwarm]
  omega

/-- Five closes and a period of three. -/
theorem new_follows_closes_five :
    ((new .exponential 3).values [10, 11, 12, 13, 14])[1]? = some none ∧
      ((new .simple 3).values [10, 11, 12, 13, 14])[2]? ≠ some none ∧
      ([10, 11, 12, 13, 14].foldl Sma.update (.new 3)).window = [12, 13, 14] ∧
      ([10, 11, 12, 13, 14].foldl Ema.update (.new 3)).value? = some 13 := by
  obtain ⟨hwarm, hwindow, hvalue⟩ := new_follows_closes 3 [10, 11, 12, 13, 14]
  have hcold : ∃ value, ((new .exponential 3).values [10, 11, 12, 13, 14])[1]? = some value :=
    ⟨_, rfl⟩
  obtain ⟨value, hnone⟩ := hcold
  have hdefinition : Ema.recurrence 3 [10, 11, 12, 13, 14] = 13 := by decide +kernel
  refine ⟨?_, fun h => ?_, hwindow, (hvalue (by decide)).trans (congrArg some hdefinition)⟩
  · rw [hnone, ((hwarm .exponential).2 1 value hnone).2 (by decide)]
  · exact absurd (((hwarm .simple).2 2 none h).1 rfl) (by decide)

end MovingAverage
end Backtest
