import Backtest.Proofs.Params.Order
import Backtest.Proofs.Search.Conservation

/-!
# Rankings

Candidates are compared by their objective in the total order of all bits, then by their trades,
then by their parameters, where doubles are again compared by their bits. All three are total orders
that tell values apart, so two candidates tie only if all three are the same. In a search the
parameters determine the candidate. A ranking of its results is therefore the only one there is, in
whatever order they come, also where an axis repeats a value.

## Main definitions

* `Candidate.Standing` — what candidates are ranked by.
* `Candidate.Ranks` — a total order of standings that ties no two of them.
* `Candidate.pairwise_ranked` — a ranking goes from best to worst.
* `Candidate.ranked_of_perm` — it does not depend on the order before.
* `Search.IsOrderFree` — findings ranked alike in every order.
-/
namespace Backtest
open Std

namespace Candidate

/-- What candidates are ranked by. The bits of the objective and of the parameters can be any, also
those of a NaN that is not the quiet one. -/
structure Standing where
  objective : UInt64
  trades : Nat
  params : RawSet

namespace Standing

/-- By the objective, the larger one first. -/
def compareObjectives (a b : Standing) : Ordering :=
  Ord.compare (Binary64.keyOfBits b.objective) (Binary64.keyOfBits a.objective)

/-- By the count of trades, the larger one first. -/
def compareTrades (a b : Standing) : Ordering := Ord.compare b.trades a.trades

/-- By the parameters. -/
def compareParams (a b : Standing) : Ordering := RawSet.compare a.params b.params

/-- The better standing comes first. -/
def betterFirst : Standing → Standing → Ordering :=
  compareLex compareObjectives (compareLex compareTrades compareParams)

instance : TransCmp compareObjectives :=
  @TransCmp.opposite _ (compareOn fun s : Standing => Binary64.keyOfBits s.objective) _

instance : TransCmp compareTrades :=
  @TransCmp.opposite _ (compareOn fun s : Standing => s.trades) _

instance : TransCmp compareParams where
  eq_swap {a b} := OrientedCmp.eq_swap (a := a.params) (b := b.params)
  isLE_trans {a b c} := TransCmp.isLE_trans (a := a.params) (b := b.params) (c := c.params)

/-- Standings are in a total order. -/
instance : TransCmp betterFirst :=
  inferInstanceAs (TransCmp (compareLex compareObjectives (compareLex compareTrades compareParams)))

/-- It tells any two of them apart. -/
theorem eq_of_betterFirst_eq {a b : Standing} (h : betterFirst a b = .eq) : a = b := by
  rw [betterFirst, compareLex_eq_eq, compareLex_eq_eq] at h
  obtain ⟨hobjective, htrades, hparams⟩ := h
  cases a
  cases b
  congr
  · exact (Binary64.eq_of_keyOfBits_eq (LawfulEqOrd.eq_of_compare hobjective)).symm
  · exact (LawfulEqOrd.eq_of_compare htrades).symm
  · exact LawfulEqCmp.eq_of_compare hparams

end Standing

/-- The standing of a candidate. -/
def standing (c : Candidate) : Standing := ⟨c.objective.toBits, c.metrics.totalTrades, c.params.raw⟩

/-- Candidates are compared by their standings. -/
theorem betterFirst_eq (a b : Candidate) :
    betterFirst a b = Standing.betterFirst a.standing b.standing :=
  congrArg (fun o => Ordering.then _ (Ordering.then _ o))
    (ParamSet.compare_eq_raw a.params b.params)

/-- Two candidates tie only with the same objective, the same trades and the same parameters. -/
theorem same_of_betterFirst_eq {a b : Candidate} (h : betterFirst a b = .eq) :
    a.objective.toBits = b.objective.toBits ∧ a.metrics.totalTrades = b.metrics.totalTrades ∧
      a.params = b.params := by
  rw [betterFirst_eq] at h
  have hstanding : a.standing = b.standing := Standing.eq_of_betterFirst_eq h
  exact ⟨congrArg Standing.objective hstanding, congrArg Standing.trades hstanding,
    ParamSet.eq_of_raw_eq (congrArg Standing.params hstanding)⟩

instance : TransCmp betterFirst where
  eq_swap {a b} := by
    rw [betterFirst_eq, betterFirst_eq]
    exact OrientedCmp.eq_swap
  isLE_trans {a b c} hab hbc := by
    rw [betterFirst_eq] at *
    exact TransCmp.isLE_trans hab hbc

theorem ne_gt_eq_isLE (o : Ordering) : (o != .gt) = o.isLE := by cases o <;> rfl

theorem ranked_eq (cs : List Candidate) :
    ranked cs = cs.mergeSort fun a b => (betterFirst a b).isLE := by
  simp only [ranked, ne_gt_eq_isLE]

/-- From best to worst. -/
theorem pairwise_ranked (cs : List Candidate) :
    (ranked cs).Pairwise fun a b => (betterFirst a b).isLE = true := by
  rw [ranked_eq]
  refine List.pairwise_mergeSort (fun a b c => TransCmp.isLE_trans) (fun a b => ?_) cs
  have hswap : betterFirst b a = (betterFirst a b).swap := OrientedCmp.eq_swap
  rw [hswap]
  cases betterFirst a b <;> rfl

/-- Candidates of which no two share a place are ranked alike in every order. -/
theorem ranked_of_perm {cs ds : List Candidate} (h : cs.Perm ds)
    (hunique : ∀ a ∈ cs, ∀ b ∈ cs, betterFirst a b = .eq → a = b) : ranked cs = ranked ds := by
  have hcs := List.mergeSort_perm cs fun a b => betterFirst a b != .gt
  have hds := List.mergeSort_perm ds fun a b => betterFirst a b != .gt
  refine List.Perm.eq_of_pairwise (fun a b ha hb hab hba => ?_) (pairwise_ranked cs)
    (pairwise_ranked ds) (hcs.trans (h.trans hds.symm))
  exact hunique a (hcs.mem_iff.1 ha) b (h.mem_iff.2 (hds.mem_iff.1 hb))
    (OrientedCmp.isLE_antisymm hab hba)

/-- A comparison that puts standings in a total order and tells any two of them apart. -/
structure Ranks (compare : Standing → Standing → Ordering) : Prop where
  refl : ∀ a, compare a a = .eq
  swap : ∀ a b, compare b a = (compare a b).swap
  trans : ∀ a b c, (compare a b).isLE = true → (compare b c).isLE = true →
    (compare a c).isLE = true
  eq_of_eq : ∀ a b, compare a b = .eq → a = b

theorem ranks_betterFirst : Ranks Standing.betterFirst where
  refl _ := ReflCmp.compare_self
  swap _ _ := OrientedCmp.eq_swap
  trans _ _ _ := TransCmp.isLE_trans
  eq_of_eq _ _ := Standing.eq_of_betterFirst_eq

end Candidate

namespace Search

variable {candles : List Candle} {space : SearchSpace} {base : ParamSet} {plan : SearchPlan}
  {window : Nat} {cancelled : Bool} {pool : WorkerPool}

/-- Findings that are ranked the same in whatever order their combinations are tried, and in
whatever order the results come back. -/
structure IsOrderFree (candles : List Candle) (space : SearchSpace) (base : ParamSet)
    (plan : SearchPlan) (cancelled : Bool) (pool : WorkerPool) (indices : List Nat)
    (found : SearchFindings) : Prop where
  results : ∀ order : List Candidate, order.Perm (found.ranked ++ found.disqualified) →
    Candidate.ranked (order.filter Candidate.keepsGuardrails) = found.ranked
  enumeration : ∀ order : List Nat, order.Perm indices → ∃ other,
    tryAll candles space base plan cancelled pool order = .ok other ∧
      other.ranked = found.ranked ∧ other.best? = found.best?

/-- The results of a search are ranked alike in every order. -/
theorem ranked_trials_of_perm {indices : List Nat} {results : List Candidate}
    (h : results.Perm (indices.filterMap (trial? candles space base plan))) :
    Candidate.ranked (results.filter Candidate.keepsGuardrails) =
      Candidate.ranked ((indices.filterMap (trial? candles space base plan)).filter
        Candidate.keepsGuardrails) := by
  have houtcome : ∀ c ∈ results, c.IsOutcome candles plan := by
    intro c hc
    obtain ⟨i, -, htrial⟩ := List.mem_filterMap.1 (h.mem_iff.1 hc)
    exact (trial?_eq_some htrial).2
  refine Candidate.ranked_of_perm (h.filter _) fun a ha b hb heq => ?_
  exact (houtcome a (List.mem_filter.1 ha).1).eq_of_params_eq (houtcome b (List.mem_filter.1 hb).1)
    (Candidate.same_of_betterFirst_eq heq).2.2

theorem isOrderFree_tryAll {indices : List Nat} {found : SearchFindings}
    (h : tryAll candles space base plan cancelled pool indices = .ok found) :
    IsOrderFree candles space base plan cancelled pool indices found := by
  obtain ⟨hpool, hpasses, rfl⟩ := tryAll_eq_ok_iff.1 h
  refine ⟨fun order horder => ?_, fun order horder => ?_⟩
  · exact ranked_trials_of_perm (horder.trans (findings_perm _ _))
  · have hranked := ranked_trials_of_perm (horder.filterMap (trial? candles space base plan))
    refine ⟨_, tryAll_eq_ok_iff.2 ⟨hpool, fun i hi => hpasses i (horder.mem_iff.1 hi), rfl⟩,
      hranked, ?_⟩
    exact congrArg List.head? hranked

/-- The candidates of numbered combinations that keep the guardrails, in the order they were
tried. -/
def contenders (candles : List Candle) (space : SearchSpace) (base : ParamSet) (plan : SearchPlan)
    (indices : List Nat) : List Candidate :=
  (indices.filterMap (trial? candles space base plan)).filter Candidate.keepsGuardrails

/-- Candidates that were tried from best to worst are ranked as they were tried. -/
theorem ranked_eq_contenders {indices : List Nat} {found : SearchFindings}
    (h : run candles space base plan window cancelled pool = .ok found)
    (hindices : trialNumbers space plan window = .ok indices)
    (hsorted : (contenders candles space base plan indices).Pairwise fun a b =>
      (Candidate.betterFirst a b).isLE = true) :
    found.ranked = contenders candles space base plan indices := by
  obtain ⟨-, numbers, hnumbers, htry⟩ := run_eq_ok_iff.1 h
  cases hindices.symm.trans hnumbers
  obtain ⟨-, -, rfl⟩ := tryAll_eq_ok_iff.1 htry
  exact (Candidate.ranked_eq _).trans (List.mergeSort_of_pairwise hsorted)

/-- **A ranking does not depend on the order of evaluation.** Candidates are compared by their
standings in a total order that ties no two of them, and in a search the parameters determine the
candidate, so that the ranking is the only one there is. -/
theorem run_isOrderFree :
    (∀ a b : Candidate, Candidate.betterFirst a b =
        Candidate.Standing.betterFirst a.standing b.standing) ∧
      Candidate.Ranks Candidate.Standing.betterFirst ∧
      (∀ a b : Candidate, Candidate.betterFirst a b = .eq →
        a.objective.toBits = b.objective.toBits ∧
          a.metrics.totalTrades = b.metrics.totalTrades ∧ a.params = b.params) ∧
      ∀ {candles : List Candle} {space : SearchSpace} {base : ParamSet} {plan : SearchPlan}
        {window : Nat} {cancelled : Bool} {pool : WorkerPool} {found : SearchFindings},
        run candles space base plan window cancelled pool = .ok found →
          ∃ indices, trialNumbers space plan window = .ok indices ∧
            tryAll candles space base plan cancelled pool indices = .ok found ∧
            IsOrderFree candles space base plan cancelled pool indices found := by
  refine ⟨Candidate.betterFirst_eq, Candidate.ranks_betterFirst,
    fun a b => Candidate.same_of_betterFirst_eq, fun h => ?_⟩
  obtain ⟨-, indices, hindices, htry⟩ := run_eq_ok_iff.1 h
  exact ⟨indices, hindices, htry, isOrderFree_tryAll htry⟩

/-- Two combinations of the same parameters are ranked, and in another order as well. -/
theorem run_isOrderFree_slowPeriods :
    ∃ found other, run riseAndFall slowPeriods quickBase tradingPlan 0 false = .ok found ∧
      found.ranked.length = 2 ∧
      tryAll riseAndFall slowPeriods quickBase tradingPlan false .ready [3, 1, 0, 2] = .ok other ∧
      other.ranked = found.ranked ∧ other.best? = found.best? := by
  have hok : (run riseAndFall slowPeriods quickBase tradingPlan 0 false).isOk = true := by
    decide +kernel
  obtain ⟨found, hrun⟩ := exists_eq_ok hok
  obtain ⟨indices, hindices, htry, hfree⟩ := run_isOrderFree.2.2.2 hrun
  cases hindices
  have hcontenders :
      (contenders riseAndFall slowPeriods quickBase tradingPlan [0, 1, 2, 3]).length = 2 := by
    decide +kernel
  have hranked : found.ranked.length = 2 := by
    obtain ⟨-, -, rfl⟩ := tryAll_eq_ok_iff.1 htry
    exact (List.mergeSort_perm _ _).length_eq.trans hcontenders
  obtain ⟨other, hother⟩ := hfree.enumeration [3, 1, 0, 2] (by decide)
  exact ⟨found, other, hrun, hranked, hother⟩

end Search
end Backtest
