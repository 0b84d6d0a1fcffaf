import Backtest.Performance.Drawdown
import Mathlib

/-!
# Drawdown as the largest decline

The drawdown of a curve is computed in one pass that keeps the running peak and the largest decline
from it. In exact arithmetic, and for balances above zero, it is the largest decline from any
balance to any later one: of the balances before a low the highest one has declined the most,
because a decline is counted as a share of where it began. The invariant of the pass is that both of
its numbers are greatest elements, of the balances seen and of the declines between them.

## Main definitions

* `decline`, `declines` — one decline, and all of a curve.
* `decline_le_decline` — a higher start declines more.
* `Tracks`, `Tracks.step` — the invariant of the pass.
* `maximum_isLargestDecline` — the drawdown is the largest decline.
-/
namespace Backtest.Drawdown

variable {curve seen : List ℚ} {start peak low balance d : ℚ} {s : ℚ × ℚ}

/-- The decline from one balance to another, as a percentage of the first. -/
def decline (start low : ℚ) : ℚ := (start - low) / start * 100

/-- The declines of a curve, from each balance to itself and to every later one. -/
def declines (curve : List ℚ) : Set ℚ :=
  {d | ∃ (i j : ℕ) (start low : ℚ), i ≤ j ∧ curve[i]? = some start ∧ curve[j]? = some low ∧
    d = decline start low}

/-! ## One decline -/

@[simp] theorem decline_self (balance : ℚ) : decline balance balance = 0 := by
  rw [decline, sub_self, zero_div, zero_mul]

theorem decline_nonpos_iff (hstart : 0 < start) : decline start low ≤ 0 ↔ start ≤ low := by
  have hscale : decline start low * start = (start - low) * 100 := by
    rw [decline, mul_right_comm, div_mul_cancel₀ _ hstart.ne']
  rw [← mul_le_mul_iff_of_pos_right hstart, hscale, zero_mul]
  constructor <;> intro h <;> linarith

/-- Of two declines to the same balance the one from higher up is the larger. -/
theorem decline_le_decline (hstart : 0 < start) (hle : start ≤ peak) (hlow : 0 ≤ low) :
    decline start low ≤ decline peak low := by
  have hpeak : 0 < peak := hstart.trans_le hle
  have hshare : low / peak ≤ low / start := div_le_div_of_nonneg_left hlow hstart hle
  rw [decline, decline, sub_div, sub_div, div_self hstart.ne', div_self hpeak.ne']
  linarith

/-! ## The declines of a curve -/

theorem mem_declines_concat :
    d ∈ declines (seen ++ [balance]) ↔
      d ∈ declines seen ∨ ∃ start ∈ seen ++ [balance], d = decline start balance := by
  constructor
  · rintro ⟨i, j, start, low, hij, hi, hj, rfl⟩
    by_cases hlast : j < seen.length
    · rw [List.getElem?_append_left hlast] at hj
      rw [List.getElem?_append_left (by omega)] at hi
      exact .inl ⟨i, j, start, low, hij, hi, hj, rfl⟩
    · have hlow : low = balance := by
        rw [List.getElem?_append_right (not_lt.1 hlast)] at hj
        exact List.mem_singleton.1 (List.mem_of_getElem? hj)
      exact .inr ⟨start, List.mem_of_getElem? hi, by rw [hlow]⟩
  · rintro (⟨i, j, start, low, hij, hi, hj, rfl⟩ | ⟨start, hstart, rfl⟩)
    · have hlt (k : ℕ) (b : ℚ) (hk : seen[k]? = some b) : (seen ++ [balance])[k]? = some b := by
        rw [List.getElem?_append_left (List.getElem?_eq_some_iff.1 hk).1, hk]
      exact ⟨i, j, start, low, hij, hlt i start hi, hlt j low hj, rfl⟩
    · obtain ⟨i, hi⟩ := List.getElem?_of_mem hstart
      have hlength := (List.getElem?_eq_some_iff.1 hi).1
      rw [List.length_append, List.length_singleton] at hlength
      exact ⟨i, seen.length, start, balance, by omega, hi, by simp, rfl⟩

theorem zero_mem_declines (hne : curve ≠ []) : 0 ∈ declines curve := by
  obtain ⟨balance, hbalance⟩ := List.exists_mem_of_ne_nil curve hne
  obtain ⟨i, hi⟩ := List.getElem?_of_mem hbalance
  exact ⟨i, i, balance, balance, le_rfl, hi, hi, (decline_self balance).symm⟩

/-- No decline is above zero exactly if the balances never decrease. -/
theorem declines_nonpos_iff (hpos : ∀ b ∈ curve, 0 < b) :
    (∀ d ∈ declines curve, d ≤ 0) ↔ curve.Pairwise (· ≤ ·) := by
  rw [List.pairwise_iff_getElem]
  constructor
  · intro h i j hi hj hij
    rw [← decline_nonpos_iff (hpos _ (List.getElem_mem hi))]
    exact h _ ⟨i, j, _, _, hij.le, List.getElem?_eq_getElem hi, List.getElem?_eq_getElem hj, rfl⟩
  · rintro h d ⟨i, j, start, low, hij, hi, hj, rfl⟩
    rw [decline_nonpos_iff (hpos _ (List.mem_of_getElem? hi))]
    obtain ⟨hi', rfl⟩ := List.getElem?_eq_some_iff.1 hi
    obtain ⟨hj', rfl⟩ := List.getElem?_eq_some_iff.1 hj
    rcases hij.lt_or_eq with hlt | rfl
    · exact h i j hi' hj' hlt
    · exact le_rfl

/-! ## The pass -/

theorem ite_lt_eq_max (a b : ℚ) : (if a < b then b else a) = max a b := by
  rcases lt_or_ge a b with h | h
  · rw [if_pos h, max_eq_right h.le]
  · rw [if_neg h.not_gt, max_eq_left h]

/-- A step takes the larger peak, and the larger of the declines. -/
theorem step_eq (hpeak : 0 < max s.1 balance) :
    step s balance = (max s.1 balance, max s.2 (decline (max s.1 balance) balance)) := by
  simp only [step, ite_lt_eq_max, hpeak, true_and]
  rfl

/-- The peak is the highest balance seen, and the other number the largest decline. -/
structure Tracks (seen : List ℚ) (s : ℚ × ℚ) : Prop where
  peak : IsGreatest {b | b ∈ seen} s.1
  deepest : IsGreatest (declines seen) s.2

theorem tracks_singleton (hpos : 0 < balance) : Tracks [balance] (step (0, 0) balance) := by
  have hmax : max 0 balance = balance := max_eq_right hpos.le
  rw [step_eq (by rwa [hmax]), hmax, decline_self, max_self]
  refine ⟨⟨List.mem_singleton_self balance, fun b hb => (List.mem_singleton.1 hb).le⟩,
    zero_mem_declines (List.cons_ne_nil _ _), fun d hd => ?_⟩
  have hmem : d ∈ declines ([] ++ [balance]) := hd
  rcases mem_declines_concat.1 hmem with ⟨i, j, start, low, -, hi, -, -⟩ | ⟨start, hstart, rfl⟩
  · cases hi
  · rw [List.nil_append, List.mem_singleton] at hstart
    rw [hstart, decline_self]

/-- One more balance makes a new peak or declines from the old one. -/
theorem Tracks.step (h : Tracks seen s) (hseen : ∀ b ∈ seen, 0 < b) (hpos : 0 < balance) :
    Tracks (seen ++ [balance]) (Drawdown.step s balance) := by
  have hpeak : IsGreatest {b | b ∈ seen ++ [balance]} (max s.1 balance) := by
    have hunion : {b | b ∈ seen ++ [balance]} = {b | b ∈ seen} ∪ {balance} := by
      ext b
      rw [Set.mem_ofPred_eq, List.mem_append, List.mem_singleton]
      rfl
    rw [hunion]
    exact h.peak.union isGreatest_singleton
  rw [step_eq (lt_max_of_lt_right hpos)]
  refine ⟨hpeak, ?_, fun d hd => ?_⟩
  · rcases max_choice s.2 (decline (max s.1 balance) balance) with hmax | hmax
    · exact mem_declines_concat.2 (.inl (by rw [hmax]; exact h.deepest.1))
    · exact mem_declines_concat.2 (.inr ⟨_, hpeak.1, hmax⟩)
  · rcases mem_declines_concat.1 hd with hold | ⟨start, hstart, rfl⟩
    · exact le_max_of_le_left (h.deepest.2 hold)
    · have hstart' : 0 < start := by
        rcases List.mem_append.1 hstart with hmem | hmem
        · exact hseen start hmem
        · rwa [List.mem_singleton.1 hmem]
      exact le_max_of_le_right (decline_le_decline hstart' (hpeak.2 hstart) hpos.le)

theorem Tracks.foldl (h : Tracks seen s) (rest : List ℚ) (hpos : ∀ b ∈ seen ++ rest, 0 < b) :
    Tracks (seen ++ rest) (rest.foldl Drawdown.step s) := by
  induction rest generalizing seen s with
  | nil => rwa [List.append_nil]
  | cons balance rest ih =>
    have hnext := h.step (fun b hb => hpos b (List.mem_append_left _ hb))
      (hpos balance (by simp))
    have happend : seen ++ balance :: rest = seen ++ [balance] ++ rest := by simp
    rw [happend] at hpos ⊢
    exact ih hnext hpos

/-- The drawdown of balances above zero is a decline, and none is larger. -/
theorem isGreatest_maximum (hne : curve ≠ []) (hpos : ∀ b ∈ curve, 0 < b) :
    IsGreatest (declines curve) (maximum curve) := by
  cases curve with
  | nil => exact absurd rfl hne
  | cons balance rest =>
    have hfirst := tracks_singleton (hpos balance List.mem_cons_self)
    exact (hfirst.foldl rest hpos).deepest

/-- A step never takes a decline back, whatever the balance is. -/
theorem le_step (s : ℚ × ℚ) (balance : ℚ) : s.2 ≤ (step s balance).2 := by
  rw [step]
  generalize (if s.1 < balance then balance else s.1) = peak
  dsimp only
  split
  · rename_i h
    exact h.2.le
  · exact le_rfl

theorem le_foldl_step (rest : List ℚ) (s : ℚ × ℚ) : s.2 ≤ (rest.foldl step s).2 := by
  induction rest generalizing s with
  | nil => exact le_rfl
  | cons balance rest ih => exact (le_step s balance).trans (ih (step s balance))

/-- **The drawdown is the largest decline.** For every curve of balances above zero it is the
greatest of the declines from a balance to itself or to a later one. It is at least zero, it is zero
exactly if the balances never decrease, and it never falls when balances are added. -/
theorem maximum_isLargestDecline (hne : curve ≠ []) (hpos : ∀ b ∈ curve, 0 < b) :
    IsGreatest (declines curve) (maximum curve) ∧ 0 ≤ maximum curve ∧
      (maximum curve = 0 ↔ curve.Pairwise (· ≤ ·)) ∧
      ∀ more, maximum curve ≤ maximum (curve ++ more) := by
  have hgreatest := isGreatest_maximum hne hpos
  have hnonneg : 0 ≤ maximum curve := hgreatest.2 (zero_mem_declines hne)
  refine ⟨hgreatest, hnonneg, ?_, fun more => ?_⟩
  · rw [← declines_nonpos_iff hpos]
    constructor
    · intro hzero d hd
      exact hzero ▸ hgreatest.2 hd
    · intro h
      exact le_antisymm (h _ hgreatest.1) hnonneg
  · rw [maximum, maximum, List.foldl_append]
    exact le_foldl_step more _

/-- The fall from 1200 to 1050 is an eighth, and a deeper fall later on cannot make it less. -/
theorem maximum_isLargestDecline_recovering :
    IsGreatest (declines [1000, 1200, 1050, 1300]) (25 / 2) ∧
      (25 / 2 : ℚ) ≤ maximum ([1000, 1200, 1050, 1300] ++ [650]) := by
  have hvalue : maximum [1000, 1200, 1050, 1300] = (25 / 2 : ℚ) := by decide +kernel
  have hpos : ∀ b ∈ ([1000, 1200, 1050, 1300] : List ℚ), 0 < b := by decide +kernel
  obtain ⟨hgreatest, -, -, hmore⟩ := maximum_isLargestDecline (List.cons_ne_nil _ _) hpos
  rw [hvalue] at hgreatest hmore
  exact ⟨hgreatest, hmore [650]⟩

end Backtest.Drawdown
