import Backtest.Market.Loader
import Backtest.Proofs.Market.Faults
import Backtest.Proofs.Market.Slices

/-!
# Slices by bisection

Halving finds the place where a property of the front of a list is lost, and so the places of a
series between which a slice lies. Slices that meet make up the slice from the first bound to the
last, and a slice that is not empty is a series again: whoever loads a series and takes a slice of
it is told that the slice is empty, and of no other fault.

## Main definitions

* `partitionPoint` — the place where a property of a front is lost, by halving.
* `partitionPoint_eq` — that is where the front ends.
* `SlicesExactly` — what the slices of a series are.
* `ofCandles_slicesExactly` — which lists make a series, what is reported of the others, and the
  slices of the series.
-/
namespace Backtest

/-! ## Halving -/

section Halving

variable {α : Type} {p : α → Bool} {l : List α}

/-- The place among `low, …, high` where a property that holds of a front of the list is lost. -/
def partitionPoint (p : α → Bool) (l : List α) (low high : ℕ) (hhigh : high ≤ l.length) : ℕ :=
  if h : low < high then
    have hplace : low + (high - low) / 2 < l.length := by omega
    if p l[low + (high - low) / 2] then
      partitionPoint p l (low + (high - low) / 2 + 1) high hhigh
    else partitionPoint p l low (low + (high - low) / 2) (by omega)
  else low
termination_by high - low

/-- A property that can only be lost along a list holds at the places of its front. -/
theorem getElem_front_iff (h : l.Pairwise fun x y => p y = true → p x = true) {i : ℕ}
    (hi : i < l.length) : p l[i] = true ↔ i < (l.takeWhile p).length := by
  induction l generalizing i with
  | nil => exact absurd hi (Nat.not_lt_zero i)
  | cons x rest ih =>
    obtain ⟨hhead, htail⟩ := List.pairwise_cons.1 h
    by_cases hx : p x = true
    · rw [List.takeWhile_cons_of_pos hx, List.length_cons]
      cases i with
      | zero => simpa using hx
      | succ i => simpa using ih htail (Nat.lt_of_succ_lt_succ hi)
    · rw [List.takeWhile_cons_of_neg hx]
      refine iff_of_false (fun hpi => hx ?_) (Nat.not_lt_zero i)
      cases i with
      | zero => exact hpi
      | succ i => exact hhead _ (List.getElem_mem _) hpi

/-- Halving keeps the end of the front between its two places. -/
theorem partitionPoint_eq_of_bounds (h : l.Pairwise fun x y => p y = true → p x = true)
    {low high : ℕ} (hhigh : high ≤ l.length) (hlow : low ≤ (l.takeWhile p).length)
    (hend : (l.takeWhile p).length ≤ high) :
    partitionPoint p l low high hhigh = (l.takeWhile p).length := by
  fun_induction partitionPoint p l low high hhigh with
  | case1 low high hhigh hlt hplace hmiddle ih => exact ih ((getElem_front_iff h _).1 hmiddle) hend
  | case2 low high hhigh hlt hplace hmiddle ih =>
    exact ih hlow (Nat.le_of_not_lt fun hlater => hmiddle ((getElem_front_iff h _).2 hlater))
  | case3 low high hhigh hlt => omega

/-- Halving a whole list finds the end of the front. -/
theorem partitionPoint_eq (h : l.Pairwise fun x y => p y = true → p x = true) :
    partitionPoint p l 0 l.length (Nat.le_refl _) = (l.takeWhile p).length :=
  partitionPoint_eq_of_bounds h _ (Nat.zero_le _) (List.takeWhile_prefix p).length_le

end Halving

namespace CandleSeries

variable {s : CandleSeries} {a b c start stop : Instant}

/-- The place of the first candle that does not open before a time. -/
def firstFrom (s : CandleSeries) (t : Instant) : ℕ :=
  partitionPoint (fun c => decide (c.openTime < t)) s.candles 0 s.candles.length (Nat.le_refl _)

theorem firstFrom_eq (s : CandleSeries) (t : Instant) :
    s.firstFrom t = (s.candles.takeWhile fun c => decide (c.openTime < t)).length :=
  partitionPoint_eq (s.pairwise_before t)

/-- A candle opens before a time if it stands before the place of that time. -/
theorem openTime_lt_iff (s : CandleSeries) (t : Instant) {i : ℕ} (hi : i < s.candles.length) :
    s.candles[i].openTime < t ↔ i < s.firstFrom t := by
  rw [firstFrom_eq, ← getElem_front_iff (s.pairwise_before t) hi, decide_eq_true_iff]

theorem firstFrom_le_length (s : CandleSeries) (t : Instant) :
    s.firstFrom t ≤ s.candles.length := by
  rw [firstFrom_eq]
  exact (List.takeWhile_prefix _).length_le

/-- Later times have later places. -/
theorem firstFrom_mono (hab : a ≤ b) : s.firstFrom a ≤ s.firstFrom b := by
  by_contra hlt
  have hplace : s.firstFrom b < s.candles.length := by
    have := s.firstFrom_le_length a
    omega
  have hbefore := (s.openTime_lt_iff a hplace).2 (by omega)
  exact Nat.lt_irrefl _ ((s.openTime_lt_iff b hplace).1 (Instant.lt_of_lt_of_le hbefore hab))

/-- A slice is what stands between the places of its bounds. -/
theorem slice_eq_drop_take (s : CandleSeries) (start stop : Instant) :
    s.slice start stop = (s.candles.take (s.firstFrom stop)).drop (s.firstFrom start) := by
  have hdrop : (s.candles.dropWhile fun c => decide (c.openTime < start)) =
      s.candles.drop (s.firstFrom start) := by
    conv_rhs => rw [← List.takeWhile_append_dropWhile (p := fun c => decide (c.openTime < start))
      (l := s.candles), firstFrom_eq, List.drop_left]
  have hpairs := (s.pairwise_before stop).sublist (List.drop_sublist (s.firstFrom start) s.candles)
  have hstop := s.firstFrom_le_length stop
  rw [slice, hdrop, List.drop_take, List.prefix_iff_eq_take.1 (List.takeWhile_prefix _)]
  congr 1
  -- Both counts stop at the first candle behind the lower place that is not before `stop`.
  have hplace : ∀ i, i < (s.candles.drop (s.firstFrom start)).length →
      (i < ((s.candles.drop (s.firstFrom start)).takeWhile fun c =>
        decide (c.openTime < stop)).length ↔ s.firstFrom start + i < s.firstFrom stop) := by
    intro i hi
    rw [← getElem_front_iff hpairs hi, decide_eq_true_iff, List.getElem_drop, openTime_lt_iff]
  have hfront := (List.takeWhile_prefix (p := fun c => decide (c.openTime < stop))
    (l := s.candles.drop (s.firstFrom start))).length_le
  rw [List.length_drop] at hplace hfront
  generalize ((s.candles.drop (s.firstFrom start)).takeWhile fun c =>
    decide (c.openTime < stop)).length = front at hplace hfront ⊢
  by_contra hne
  rcases Nat.lt_or_gt_of_ne hne with hlt | hlt
  · have := hplace front (by omega)
    omega
  · have := hplace (s.firstFrom stop - s.firstFrom start) (by omega)
    omega

/-- Slices that meet make up one. -/
theorem slice_append_slice (hab : a ≤ b) (hbc : b ≤ c) :
    s.slice a b ++ s.slice b c = s.slice a c := by
  have hab' := s.firstFrom_mono hab
  have hbc' := s.firstFrom_mono hbc
  have hb := s.firstFrom_le_length b
  have hfront : s.candles.take (s.firstFrom b) =
      (s.candles.take (s.firstFrom c)).take (s.firstFrom b) := by
    rw [List.take_take, Nat.min_eq_left hbc']
  rw [slice_eq_drop_take, slice_eq_drop_take, slice_eq_drop_take, hfront,
    ← List.drop_append_of_le_length, List.take_append_drop]
  rw [List.length_take, List.length_take]
  omega

/-! ## Slices as series -/

/-- Candles of a series in their order are candles of one again, if there are any. -/
theorem exists_series_of_slice (s : CandleSeries) (h : s.slice start stop ≠ []) :
    ∃ t, ofCandles (s.slice start stop) = .ok t ∧ t.candles = s.slice start stop := by
  refine exists_ofCandles_eq_ok_iff.2 ⟨h, s.isOrderly_candles.sublist ?_⟩
  rw [slice_eq_openWithin]
  exact List.filter_sublist

/-- Narrowing a series to a range only fails if nothing is left. -/
theorem ends_within (s : CandleSeries) (start stop : Instant) :
    Ends (fun t => t.candles = s.openWithin start stop)
      (fun e => s.openWithin start stop = [] ∧ e = .emptyRange start stop)
      (s.within start stop) := by
  rw [within, ← slice_eq_openWithin]
  by_cases hslice : s.slice start stop = []
  · rw [if_pos (List.isEmpty_iff.2 hslice)]
    exact ⟨hslice, rfl⟩
  · obtain ⟨t, ht, hcandles⟩ := s.exists_series_of_slice hslice
    rw [if_neg fun hempty => hslice (List.isEmpty_iff.1 hempty), checked, ht]
    exact hcandles

/-- What the slices of a series are: the candles that open from one time on and before another, in
order, found by two bisections. -/
structure SlicesExactly (s : CandleSeries) : Prop where
  eq_filter : ∀ start stop, s.slice start stop =
    s.candles.filter fun c => decide (start ≤ c.openTime ∧ c.openTime < stop)
  bisected : ∀ start stop, s.slice start stop =
    (s.candles.take (s.firstFrom stop)).drop (s.firstFrom start)
  append : ∀ a b c, a ≤ b → b ≤ c → s.slice a b ++ s.slice b c = s.slice a c
  series : ∀ start stop, s.slice start stop ≠ [] →
    ∃ t, ofCandles (s.slice start stop) = .ok t ∧ t.candles = s.slice start stop
  narrowed : ∀ path bytes, load path bytes = .ok s → ∀ start stop e,
    (load path bytes >>= fun loaded => loaded.within start stop) ≠ .error (.series e)

theorem slicesExactly (s : CandleSeries) : s.SlicesExactly where
  eq_filter := s.slice_eq_openWithin
  bisected := s.slice_eq_drop_take
  append _ _ _ := slice_append_slice
  series _ _ := s.exists_series_of_slice
  narrowed path bytes hload start stop e h := by
    rw [hload] at h
    have hfault := (s.ends_within start stop).failure_of_eq_error h
    cases hfault.2

/-- **Which candles make a series, and what its slices are.** A list makes a series exactly if it is
not empty, its prices are finite and above zero, and its times strictly increase; of any other list
the candle that ends its shortest bad front is reported. The slices of the series are exactly the
candles within their bounds; they fit together, are series themselves unless they are empty, and a
series that was loaded can be narrowed to any range that is not empty. -/
theorem ofCandles_slicesExactly (cs : List Candle) :
    ((∃ s, ofCandles cs = .ok s) ↔ cs ≠ [] ∧ IsOrderly cs) ∧
      (∀ e, ofCandles cs = .error e ↔ Reports cs e) ∧
      ∀ s, ofCandles cs = .ok s → s.candles = cs ∧ s.SlicesExactly := by
  have hcandles : ∀ s, ofCandles cs = .ok s → s.candles = cs := fun s =>
    (ends_ofCandles cs).value_of_eq_ok
  refine ⟨?_, fun e => ofCandles_eq_error_iff, fun s hs => ⟨hcandles s hs, s.slicesExactly⟩⟩
  rw [← exists_ofCandles_eq_ok_iff]
  exact exists_congr fun s => ⟨fun hs => ⟨hs, hcandles s hs⟩, fun hs => hs.1⟩

/-- The candles of two hours. -/
def firstHours : List Candle :=
  [⟨⟨1704067200, 0⟩, 1, 1.5, 0.5, 1.25, 10⟩, ⟨⟨1704070800, 0⟩, 1.25, 2, 1, 1.5, 10⟩]

/-- They make a series whose slices fit together, and a fault the other way round. -/
theorem ofCandles_slicesExactly_firstHours :
    (∃ s, ofCandles firstHours = .ok s ∧ s.candles = firstHours ∧
      s.slice ⟨1704067200, 0⟩ ⟨1704070800, 0⟩ ++ s.slice ⟨1704070800, 0⟩ ⟨1704074400, 0⟩ =
        s.slice ⟨1704067200, 0⟩ ⟨1704074400, 0⟩) ∧
      Reports firstHours.reverse (.notIncreasing 1 ⟨1704070800, 0⟩ ⟨1704067200, 0⟩) := by
  have horderly : IsOrderly firstHours := ⟨by decide +kernel, by decide⟩
  obtain ⟨haccepts, -, hseries⟩ := ofCandles_slicesExactly firstHours
  obtain ⟨s, hs⟩ := haccepts.2 ⟨by decide, horderly⟩
  obtain ⟨hcandles, hslices⟩ := hseries s hs
  exact ⟨⟨s, hs, hcandles, hslices.append _ _ _ (by decide) (by decide)⟩,
    ((ofCandles_slicesExactly firstHours.reverse).2.1 _).1 rfl⟩

end CandleSeries
end Backtest
