import Backtest.Market.Series
import Backtest.Proofs.Time.Order

/-!
# Slices of a series

The times of a series increase, so the candles before a time are a front of it and a slice is
exactly the candles that open within its bounds. What two series share within some bounds they
therefore share within all narrower ones.

## Main definitions

* `CandleSeries.openWithin` — the candles that open within bounds.
* `slice_eq_openWithin` — a slice is that.
* `openWithin_congr_of_wider` — series that agree within bounds agree within narrower ones.
-/
namespace Backtest

/-! ## Fronts of lists -/

section Front

variable {α : Type} {p : α → Bool} {l : List α}

/-- Where a property can only be lost along a list, what has it is a front. -/
theorem takeWhile_eq_filter (h : l.Pairwise fun x y => p y = true → p x = true) :
    l.takeWhile p = l.filter p := by
  induction l with
  | nil => rfl
  | cons a rest ih =>
    obtain ⟨hhead, htail⟩ := List.pairwise_cons.1 h
    by_cases ha : p a = true
    · rw [List.takeWhile_cons_of_pos ha, List.filter_cons_of_pos ha, ih htail]
    · rw [List.takeWhile_cons_of_neg ha, List.filter_cons_of_neg ha, eq_comm,
        List.filter_eq_nil_iff]
      intro b hb hpb
      exact ha (hhead b hb hpb)

theorem dropWhile_eq_filter (h : l.Pairwise fun x y => p y = true → p x = true) :
    l.dropWhile p = l.filter fun x => !p x := by
  induction l with
  | nil => rfl
  | cons a rest ih =>
    obtain ⟨hhead, htail⟩ := List.pairwise_cons.1 h
    by_cases ha : p a = true
    · rw [List.dropWhile_cons_of_pos ha, List.filter_cons_of_neg (by simp [ha]), ih htail]
    · rw [List.dropWhile_cons_of_neg ha, eq_comm, List.filter_eq_self]
      intro b hb
      rw [Bool.not_eq_true', Bool.eq_false_iff]
      rcases List.mem_cons.1 hb with rfl | hb
      · exact ha
      · exact fun hpb => ha (hhead b hb hpb)

end Front

namespace CandleSeries

variable (s : CandleSeries)

/-- The candles that open from `start` on and before `stop`. -/
def openWithin (start stop : Instant) : List Candle :=
  s.candles.filter fun c => decide (start ≤ c.openTime ∧ c.openTime < stop)

/-- The candles that open before a time are a front. -/
theorem pairwise_before (stop : Instant) : s.candles.Pairwise fun a b =>
    decide (b.openTime < stop) = true → decide (a.openTime < stop) = true :=
  s.timesIncrease.imp fun hab hb => decide_eq_true (Instant.lt_trans hab (of_decide_eq_true hb))

/-- A slice has the candles that open within its bounds, and no others. -/
theorem slice_eq_openWithin (start stop : Instant) :
    s.slice start stop = s.openWithin start stop := by
  rw [slice, openWithin]
  rw [dropWhile_eq_filter (s.pairwise_before start),
    takeWhile_eq_filter ((s.pairwise_before stop).filter _), List.filter_filter]
  congr 1
  funext c
  by_cases hstart : c.openTime < start <;> by_cases hstop : c.openTime < stop <;>
    simp [Instant.le_def, hstart, hstop]

/-- Narrower bounds cut the candles within wider ones. -/
theorem openWithin_eq_filter {start stop start' stop' : Instant} (hstart : start ≤ start')
    (hstop : stop' ≤ stop) : s.openWithin start' stop' =
      (s.openWithin start stop).filter fun c =>
        decide (start' ≤ c.openTime ∧ c.openTime < stop') := by
  simp only [openWithin]
  rw [List.filter_filter]
  congr 1
  funext c
  rw [← Bool.decide_and, decide_eq_decide]
  constructor
  · intro h
    exact ⟨h, Instant.le_trans hstart h.1, Instant.lt_of_lt_of_le h.2 hstop⟩
  · intro h
    exact h.1

variable {s} {t : CandleSeries}

theorem openWithin_congr_of_wider {start stop start' stop' : Instant}
    (h : s.openWithin start stop = t.openWithin start stop) (hstart : start ≤ start')
    (hstop : stop' ≤ stop) : s.openWithin start' stop' = t.openWithin start' stop' := by
  rw [s.openWithin_eq_filter hstart hstop, t.openWithin_eq_filter hstart hstop, h]

end CandleSeries
end Backtest
