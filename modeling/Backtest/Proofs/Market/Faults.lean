import Backtest.Proofs.Market.RoundTrip
import Backtest.Proofs.Outcome

/-!
# Candles that make no series

A list of candles makes a series exactly if it is not empty, all its prices are finite and above
zero, and its times strictly increase. Otherwise it is the shortest bad front of the list that is
reported, by the place of its last candle: the prices of this candle if one of them is bad, and
else its time and the time before it.

## Main definitions

* `IsOrderly` — candles with valid prices and increasing times.
* `EndsOrderAt` — the place of the last candle of the shortest bad front.
* `Reports` — which fault a list of candles has.
* `exists_ofCandles_eq_ok_iff`, `ofCandles_eq_error_iff` — what makes a series, and what is
  reported of the rest.
-/
namespace Backtest

/-- The four prices are finite and above zero. -/
theorem Candle.isPriced_iff {c : Candle} : c.isPriced = true ↔
    ∀ x ∈ [c.openPrice, c.high, c.low, c.close], x.isFinite = true ∧ 0 < x := by
  simp [isPriced, isPrice, and_assoc]

namespace CandleSeries

variable {cs before rest : List Candle} {c : Candle} {e : SeriesError} {i j : ℕ}

/-- Candles with valid prices and strictly increasing times. -/
structure IsOrderly (cs : List Candle) : Prop where
  prices : ∀ c ∈ cs, ∀ x ∈ [c.openPrice, c.high, c.low, c.close], x.isFinite = true ∧ 0 < x
  times : cs.Pairwise fun a b => a.openTime < b.openTime

theorem IsOrderly.isPriced (h : IsOrderly cs) : ∀ c ∈ cs, c.isPriced = true :=
  fun c hc => Candle.isPriced_iff.2 (h.prices c hc)

theorem isOrderly_candles (s : CandleSeries) : IsOrderly s.candles :=
  ⟨fun c hc => Candle.isPriced_iff.1 (s.pricesValid c hc), s.timesIncrease⟩

theorem IsOrderly.sublist (h : IsOrderly cs) (hsub : List.Sublist before cs) : IsOrderly before :=
  ⟨fun c hc => h.prices c (hsub.subset hc), h.times.sublist hsub⟩

/-- A candle continues an orderly list if its prices are valid and it opens after the last one. -/
theorem isOrderly_concat_iff (h : IsOrderly before) : IsOrderly (before ++ [c]) ↔
    c.isPriced = true ∧ ∀ a, before.getLast? = some a → a.openTime < c.openTime := by
  constructor
  · intro hall
    refine ⟨hall.isPriced c (by simp), fun a ha => ?_⟩
    exact (List.pairwise_append.1 hall.times).2.2 a (List.mem_of_getLast? ha) c (by simp)
  · rintro ⟨hc, hlast⟩
    refine ⟨fun d hd => ?_, List.pairwise_append.2 ⟨h.times, List.pairwise_singleton _ _, ?_⟩⟩
    · rcases List.mem_append.1 hd with hd | hd
      · exact h.prices d hd
      · rw [List.mem_singleton.1 hd]
        exact Candle.isPriced_iff.1 hc
    · intro d hd b hb
      rw [List.mem_singleton.1 hb]
      obtain ⟨front, a, rfl⟩ :=
        List.eq_nil_or_concat' before |>.resolve_left (List.ne_nil_of_mem hd)
      have hac := hlast a (by simp)
      rcases List.mem_append.1 hd with hd | hd
      · exact Instant.lt_trans ((List.pairwise_append.1 h.times).2.2 d hd a (by simp)) hac
      · rwa [List.mem_singleton.1 hd]

/-- The place at which a list stops being orderly: all fronts before it are orderly, and none that
has this candle. -/
structure EndsOrderAt (cs : List Candle) (i : ℕ) : Prop where
  before : ∀ k ≤ i, IsOrderly (cs.take k)
  after : ∀ k, i < k → ¬ IsOrderly (cs.take k)

theorem EndsOrderAt.unique (hi : EndsOrderAt cs i) (hj : EndsOrderAt cs j) : i = j := by
  rcases Nat.lt_trichotomy i j with h | h | h
  · exact absurd (hj.before j (Nat.le_refl j)) (hi.after j h)
  · exact h
  · exact absurd (hi.before i (Nat.le_refl i)) (hj.after i h)

/-- The fault of a list of candles: that it is empty, or the bad prices or the bad time of the
candle where it stops being orderly. A time is reported only of a candle with valid prices. -/
def Reports (cs : List Candle) : SeriesError → Prop
  | .empty => cs = []
  | .invalidPrice i openTime => EndsOrderAt cs i ∧
      ∃ c, cs[i]? = some c ∧ c.openTime = openTime ∧ c.isPriced = false
  | .notIncreasing i previous current => EndsOrderAt cs i ∧
      ∃ a c, 0 < i ∧ cs[i - 1]? = some a ∧ cs[i]? = some c ∧ a.openTime = previous ∧
        c.openTime = current ∧ c.isPriced = true ∧ c.openTime ≤ a.openTime

/-- A list is orderly as far as the first candle that does not continue it. -/
theorem endsOrderAt_append (h : IsOrderly before) (hc : ¬ IsOrderly (before ++ [c])) :
    EndsOrderAt (before ++ c :: rest) before.length where
  before k hk := by
    rw [List.take_append_of_le_length hk]
    exact h.sublist (List.take_sublist k before)
  after k hk hall := by
    refine hc (hall.sublist ?_)
    obtain ⟨d, rfl⟩ : ∃ d, k = before.length + (d + 1) := ⟨k - before.length - 1, by omega⟩
    rw [List.take_length_add_append, List.take_succ_cons]
    exact (List.Sublist.refl before).append (List.cons_sublist_cons.2 (List.nil_sublist _))

/-- The pass over the candles behind an orderly front finds no fault in an orderly list, and
otherwise a fault that the whole list has. -/
theorem firstFault_spec (h : IsOrderly before) :
    (firstFault before.length (before.getLast?.map (·.openTime)) cs).elim
      (IsOrderly (before ++ cs)) (Reports (before ++ cs)) := by
  induction cs generalizing before with
  | nil => simpa [firstFault] using h
  | cons c rest ih =>
    have hplace : (before ++ c :: rest)[before.length]? = some c := by simp
    have hiff := isOrderly_concat_iff (c := c) h
    -- A candle that continues the front becomes its last one.
    have hgoes (hnext : IsOrderly (before ++ [c])) :
        (firstFault (before.length + 1) (some c.openTime) rest).elim
          (IsOrderly (before ++ c :: rest)) (Reports (before ++ c :: rest)) := by
      simpa using ih hnext
    have hstops (hnext : ¬ IsOrderly (before ++ [c])) :
        EndsOrderAt (before ++ c :: rest) before.length := endsOrderAt_append h hnext
    by_cases hc : c.isPriced = true
    · cases hlast : before.getLast? with
      | none =>
        rw [Option.map_none, firstFault, if_pos hc]
        exact hgoes (hiff.2 ⟨hc, by simp [hlast]⟩)
      | some a =>
        have hpos : 0 < before.length := List.length_pos_of_mem (List.mem_of_getLast? hlast)
        rw [Option.map_some, firstFault, if_pos hc]
        by_cases htime : c.openTime ≤ a.openTime
        · rw [if_pos htime]
          refine ⟨hstops fun hnext => ?_, a, c, hpos, ?_, hplace, rfl, rfl, hc, htime⟩
          · exact Instant.not_le.2 ((hiff.1 hnext).2 a hlast) htime
          · rw [List.getElem?_append_left (by omega), ← List.getLast?_eq_getElem?, hlast]
        · rw [if_neg htime]
          refine hgoes (hiff.2 ⟨hc, fun b hb => ?_⟩)
          rw [hlast, Option.some.injEq] at hb
          rw [← hb]
          exact Instant.not_le.1 htime
    · have hfault : firstFault before.length (before.getLast?.map (·.openTime)) (c :: rest) =
          some (.invalidPrice before.length c.openTime) := by
        cases before.getLast? <;> simp [firstFault, hc]
      rw [hfault]
      exact ⟨hstops fun hnext => hc (hiff.1 hnext).1, c, hplace, rfl, by simpa using hc⟩

/-- A list of candles has one fault at most. -/
theorem Reports.unique {e' : SeriesError} (h : Reports cs e) (h' : Reports cs e') : e = e' := by
  cases e with
  | empty =>
    obtain rfl : cs = [] := h
    cases e' with
    | empty => rfl
    | notIncreasing i p q =>
      obtain ⟨-, a, c, -, ha, -⟩ := h'
      simp at ha
    | invalidPrice i t =>
      obtain ⟨-, c, hc, -⟩ := h'
      simp at hc
  | notIncreasing i p q =>
    obtain ⟨hi, a, c, hpos, ha, hc, rfl, rfl, hpriced, hle⟩ := h
    cases e' with
    | empty =>
      obtain rfl : cs = [] := h'
      simp at hc
    | notIncreasing j p' q' =>
      obtain ⟨hj, a', c', -, ha', hc', rfl, rfl, -⟩ := h'
      obtain rfl := hi.unique hj
      rw [ha, Option.some.injEq] at ha'
      rw [hc, Option.some.injEq] at hc'
      rw [ha', hc']
    | invalidPrice j t =>
      obtain ⟨hj, c', hc', -, hbad⟩ := h'
      obtain rfl := hi.unique hj
      rw [hc, Option.some.injEq] at hc'
      rw [← hc', hpriced] at hbad
      cases hbad
  | invalidPrice i t =>
    obtain ⟨hi, c, hc, rfl, hbad⟩ := h
    cases e' with
    | empty =>
      obtain rfl : cs = [] := h'
      simp at hc
    | notIncreasing j p q =>
      obtain ⟨hj, a, c', -, -, hc', -, -, hpriced, -⟩ := h'
      obtain rfl := hi.unique hj
      rw [hc, Option.some.injEq] at hc'
      rw [← hc', hbad] at hpriced
      cases hpriced
    | invalidPrice j t' =>
      obtain ⟨hj, c', hc', rfl, -⟩ := h'
      obtain rfl := hi.unique hj
      rw [hc, Option.some.injEq] at hc'
      rw [hc']

/-! ## The constructor -/

/-- What is made of a list is a series of its candles, or its fault. -/
theorem ends_ofCandles (cs : List Candle) :
    Ends (fun s => s.candles = cs) (Reports cs) (ofCandles cs) := by
  rw [ofCandles]
  by_cases hne : cs = []
  · rw [dif_pos hne]
    exact hne
  · rw [dif_neg hne]
    have hnil : IsOrderly [] := ⟨fun c hc => absurd hc List.not_mem_nil, .nil⟩
    have hspec : (firstFault 0 none cs).elim (IsOrderly ([] ++ cs)) (Reports ([] ++ cs)) :=
      firstFault_spec hnil
    split
    · rename_i e hfault
      have hreports : Reports cs e := by simpa [hfault] using hspec
      exact hreports
    · rfl

/-- The lists that make a series. -/
theorem exists_ofCandles_eq_ok_iff :
    (∃ s, ofCandles cs = .ok s ∧ s.candles = cs) ↔ cs ≠ [] ∧ IsOrderly cs := by
  constructor
  · rintro ⟨s, -, rfl⟩
    exact ⟨s.nonempty, s.isOrderly_candles⟩
  · rintro ⟨hne, h⟩
    exact ⟨_, ofCandles_candles ⟨cs, hne, h.isPriced, h.times⟩, rfl⟩

/-- What is reported of the others. -/
theorem ofCandles_eq_error_iff : ofCandles cs = .error e ↔ Reports cs e := by
  constructor
  · exact (ends_ofCandles cs).failure_of_eq_error
  · intro h
    cases hcs : ofCandles cs with
    | error e' => rw [((ends_ofCandles cs).failure_of_eq_error hcs).unique h]
    | ok s =>
      exfalso
      obtain rfl := (ends_ofCandles cs).value_of_eq_ok hcs
      cases e with
      | empty => exact s.nonempty h
      | notIncreasing i p q =>
        exact h.1.after _ (Nat.lt_succ_self i) (s.isOrderly_candles.sublist (List.take_sublist _ _))
      | invalidPrice i t =>
        exact h.1.after _ (Nat.lt_succ_self i) (s.isOrderly_candles.sublist (List.take_sublist _ _))

end CandleSeries
end Backtest
