import Backtest.Proofs.Random.Distinct
import Backtest.Proofs.Search.Numbering
import Backtest.Search.Candidate

/-!
# The combinations to try

A grid search tries every combination of a space, or refuses a space above its limit. A random
search never refuses: it tries all combinations if it may, and otherwise draws as many different
ones as it should. Whatever the seed and the window, and however often a draw may be repeated, the
numbers to try rise strictly and lie below the size of the space, so no combination is tried twice.

## Main definitions

* `SearchPlan.trialCount` — how many combinations a plan tries.
* `AreTrials` — numbers of different combinations of a space, in rising order.
* `trialNumbers_areTrials` — what a plan tries, and when it refuses to.
-/
namespace Backtest

/-- How many combinations of a space a plan tries. -/
def SearchPlan.trialCount (plan : SearchPlan) (space : SearchSpace) : ℕ :=
  match plan.method with
  | .grid => space.size
  | .random => min plan.samples space.size

variable {space : SearchSpace} {plan : SearchPlan} {window patience : ℕ}

/-- Numbers of different combinations, in rising order. -/
structure AreTrials (space : SearchSpace) (count : ℕ) (numbers : List ℕ) : Prop where
  rising : numbers.Pairwise (· < ·)
  lt_size : ∀ i ∈ numbers, i < space.size
  length_eq : numbers.length = count

theorem areTrials_range (space : SearchSpace) :
    AreTrials space space.size (List.range space.size) where
  rising := List.pairwise_lt_range
  lt_size _ hi := List.mem_range.1 hi
  length_eq := List.length_range

theorem trialNumbers_of_grid (hmethod : plan.method = .grid) :
    trialNumbers space plan window patience =
      if plan.maxCombinations < space.size then
        .error (.tooManyCombinations space.size plan.maxCombinations)
      else .ok (List.range space.size) := by
  rw [trialNumbers, hmethod]

/-- A random search has numbers to try, whatever the words of its generator. -/
theorem exists_trials_of_random (window patience : ℕ) (hmethod : plan.method = .random) :
    ∃ numbers, trialNumbers space plan window patience = .ok numbers ∧
      AreTrials space (min plan.samples space.size) numbers := by
  rw [trialNumbers, hmethod]
  dsimp only
  by_cases hall : space.size ≤ plan.samples
  · rw [if_pos hall, Nat.min_eq_right hall]
    exact ⟨_, rfl, areTrials_range space⟩
  · obtain ⟨hsample, hrising⟩ := Sample.isSample_indices (Nat.le_of_not_le hall)
      (Seed.generator plan.seed samplerScope window.toUInt64) patience
    rw [if_neg hall, Nat.min_eq_left (Nat.le_of_not_le hall)]
    exact ⟨_, rfl, hrising, hsample.lt, hsample.length_eq⟩

/-- **The numbers of the combinations to try are well formed.** They rise strictly, are below the
size of the space, and are as many as the plan asks for, for every seed and window and every bound
of the repetitions of a draw. Only a grid search is refused, exactly if the size is above the limit,
and it reports that size. -/
theorem trialNumbers_areTrials (space : SearchSpace) (plan : SearchPlan) (window patience : ℕ) :
    (∀ numbers, trialNumbers space plan window patience = .ok numbers →
      AreTrials space (plan.trialCount space) numbers) ∧
      ∀ e, trialNumbers space plan window patience = .error e ↔
        plan.method = .grid ∧ plan.maxCombinations < space.size ∧
          e = .tooManyCombinations space.size plan.maxCombinations := by
  rw [SearchPlan.trialCount]
  cases hmethod : plan.method with
  | grid =>
    rw [trialNumbers_of_grid hmethod]
    by_cases hlimit : plan.maxCombinations < space.size
    · rw [if_pos hlimit]
      refine ⟨fun _ h => (nomatch h), fun e => ?_⟩
      rw [Except.error.injEq]
      exact ⟨fun h => ⟨rfl, hlimit, h.symm⟩, fun h => h.2.2.symm⟩
    · rw [if_neg hlimit]
      refine ⟨fun numbers h => ?_, fun e => ⟨fun h => (nomatch h), fun h => absurd h.2.1 hlimit⟩⟩
      cases h
      exact areTrials_range space
  | random =>
    obtain ⟨numbers, hnumbers, htrials⟩ := exists_trials_of_random window patience hmethod
    rw [hnumbers]
    refine ⟨fun _ h => ?_, fun e => ⟨fun h => (nomatch h), fun h => (nomatch h.1)⟩⟩
    cases h
    exact htrials

/-- Three of the combinations of a space with more of them than a size tells apart, and the refusal
to try them all. -/
theorem trialNumbers_areTrials_wide :
    (∃ numbers, trialNumbers SearchSpace.wide { method := .random, samples := 3 } 5 = .ok numbers ∧
      AreTrials SearchSpace.wide 3 numbers) ∧
      trialNumbers SearchSpace.wide {} 5 =
        .error (.tooManyCombinations 18446744073709551615 10000) := by
  refine ⟨⟨_, rfl, (trialNumbers_areTrials SearchSpace.wide { method := .random, samples := 3 }
    5 _).1 _ rfl⟩, ?_⟩
  exact ((trialNumbers_areTrials SearchSpace.wide {} 5 _).2 _).2 ⟨rfl, by decide, rfl⟩

end Backtest
