import Backtest.Proofs.Search.Conservation
import Backtest.Proofs.Strategy.Fields

/-!
# The check of the base values

Before it tries any combination a search reads the base values that no axis replaces, on top of the
defaults. Every combination has these values too. A value that cannot be read is in its way as well,
and a range is only left by values that are not the defaults, which no axis can take back. The order
of the two periods is the exception: a fixed period may be out of order with a default that an axis
replaces, and this the check lets pass. So it refuses no base that has a combination to try.

## Main definitions

* `mem_trialParams_of_mem_fixedParams` — every combination has the fixed values.
* `inRange_of_trial` — the fixed values alone keep the ranges that a combination keeps.
* `all_refused_of_run_baseParams` — a base that is refused has no combination that can be read.
-/
namespace Backtest.Search

variable {candles : List Candle} {space : SearchSpace} {base : ParamSet} {plan : SearchPlan}
  {window : Nat} {cancelled : Bool} {pool : WorkerPool}

/-! ## Fixed values -/

theorem name_mem_of_mem_combination {i : Nat} {e : String × ParamValue}
    (he : e ∈ (space.combination i).entries) : e.1 ∈ space.names := by
  obtain ⟨⟨axis, digit⟩, hzip, rfl⟩ := List.mem_map.1 (NameMap.mem_of_mem_ofList he)
  exact List.mem_map_of_mem (List.of_mem_zip hzip).1

/-- Every combination has the values that no axis replaces. -/
theorem mem_trialParams_of_mem_fixedParams {e : String × ParamValue}
    (he : e ∈ (fixedParams space base).entries) (i : Nat) :
    e ∈ (trialParams space base i).entries := by
  obtain ⟨hbase, hfixed⟩ := List.mem_filter.1 (NameMap.mem_of_mem_ofList he)
  refine NameMap.mem_insertAll_of_forall_ne hbase fun x hx hname => ?_
  have haxis : e.1 ∈ space.names := hname ▸ name_mem_of_mem_combination hx
  simp [haxis] at hfixed

open CrossoverParams in
/-- A range that the fixed values leave on top of the defaults is left by every combination. -/
theorem inRange_of_trial {i : Nat} {p q : CrossoverParams}
    (hfixed : assignAll {} (fixedParams space base).entries = .ok p)
    (htrial : ofSet (trialParams space base i) = .ok q) : p.InRange := by
  obtain ⟨hread, hfault⟩ := ofSet_eq_ok_iff.1 htrial
  have hq := inRange_of_fault?_eq_none hfault
  have hsubset : ∀ e ∈ (fixedParams space base).entries, e ∈ (trialParams space base i).entries :=
    fun e he => mem_trialParams_of_mem_fixedParams he i
  constructor
  · intro hzero
    have hsame := isField_fastPeriod.get_eq_of_subset hsubset hfixed hread (by rw [hzero]; decide)
    exact hq.fast (hsame.trans hzero)
  · intro henabled hle
    have hsame := isField_trailingStopEnabled.get_eq_of_subset hsubset hfixed hread
      (by rw [henabled]; decide)
    have hdefault : ¬ ({} : CrossoverParams).trailingDistancePct ≤ 0 := by decide +kernel
    have hsame' := isField_trailingDistancePct.get_eq_of_subset hsubset hfixed hread
      fun heq => hdefault (heq ▸ hle)
    exact hq.trailing (hsame.trans henabled) (hsame' ▸ hle)
  · intro henabled
    have hsame := isField_trendEnabled.get_eq_of_subset hsubset hfixed hread
      (by rw [henabled]; decide)
    refine Nat.not_lt.1 fun hlt => ?_
    have hsame' := isField_trendMultiplier.get_eq_of_subset hsubset hfixed hread
      fun heq => absurd (heq ▸ hlt) (by decide)
    exact absurd (hq.multiplier (hsame.trans henabled)) (Nat.not_le.2 (hsame' ▸ hlt))
  · intro henabled hzero
    have hsame := isField_trendEnabled.get_eq_of_subset hsubset hfixed hread
      (by rw [henabled]; decide)
    have hsame' := isField_trendPeriod.get_eq_of_subset hsubset hfixed hread
      (by rw [hzero]; decide)
    exact hq.period (hsame.trans henabled) (hsame'.trans hzero)

/-- A base with a combination that can be read passes the check. -/
theorem checkBase_of_trial {i : Nat} {q : CrossoverParams}
    (htrial : CrossoverParams.ofSet (trialParams space base i) = .ok q) :
    checkBase space base = .ok () := by
  have hread := (CrossoverParams.ofSet_eq_ok_iff.1 htrial).1
  have hentries := (CrossoverParams.isOk_assignAll {} _).1 ⟨q, hread⟩
  obtain ⟨p, hfixed⟩ := (CrossoverParams.isOk_assignAll {} (fixedParams space base).entries).2
    fun e he => hentries e (mem_trialParams_of_mem_fixedParams he i)
  have hinRange := inRange_of_trial hfixed htrial
  rw [checkBase, CrossoverParams.ofSet_of_assignAll hfixed, hinRange.fault?_eq]
  by_cases horder : p.slowPeriod ≤ p.fastPeriod
  · rw [if_pos horder]
  · rw [if_neg horder]

/-! ## After the check -/

/-- A failure that does not blame the base values. -/
def SparesBase (e : SearchError) : Prop := ∀ fault, e ≠ .baseParams fault

theorem sparesBase_trialNumbers :
    Ends (fun _ => True) SparesBase (trialNumbers space plan window) := by
  rw [trialNumbers]
  split
  · split
    · intro fault h; cases h
    · trivial
  · split
    · trivial
    · trivial

theorem sparesBase_admissible (indices : List Nat) :
    Ends (fun _ => True) SparesBase (admissible space base indices) := by
  induction indices with
  | nil => trivial
  | cons i rest ih =>
    cases hread : CrossoverParams.ofSet (trialParams space base i) with
    | ok typed =>
      rw [admissible_cons_of_ok hread]
      exact ih.bind fun _ _ => trivial
    | error e =>
      rw [admissible_cons_of_error hread]
      split
      · exact ih.bind fun _ _ => trivial
      · intro fault h; cases h

theorem sparesBase_openPool (threads : Nat) :
    Ends (fun _ => True) SparesBase (openPool threads pool) := by
  refine (ends_openPool threads pool).imp (fun _ _ => trivial) fun e hfails fault hbase => ?_
  obtain ⟨reason, rfl, -, -⟩ := hfails
  cases hbase

theorem sparesBase_evaluateAll (candidates : List (ParamSet × CrossoverParams)) :
    Ends (fun _ => True) SparesBase (evaluateAll candles plan cancelled pool candidates) := by
  have hjudged : ∀ c, Ends (fun _ => True) SparesBase (judged candles plan c) := by
    intro c
    rw [judged]
    split
    · trivial
    · intro fault h; cases h
  rw [evaluateAll_eq]
  refine (sparesBase_openPool plan.threads).bind fun _ _ => ?_
  split
  · intro fault h; cases h
  · exact (ends_mapM fun c _ => hjudged c).imp (fun _ _ => trivial) fun _ he => he

/-- Only the check blames the base values. -/
theorem checkBase_ne_ok_of_run {fault : ParamError}
    (h : run candles space base plan window cancelled pool = .error (.baseParams fault)) :
    checkBase space base ≠ .ok () := by
  intro hcheck
  rw [run_eq, hcheck] at h
  have hrest : Ends (fun _ => True) SparesBase
      (trialNumbers space plan window >>= tryAll candles space base plan cancelled pool) :=
    sparesBase_trialNumbers.bind fun indices _ => (sparesBase_admissible indices).bind
      fun found _ => (sparesBase_evaluateAll found.1).bind fun _ _ => trivial
  exact hrest.failure_of_eq_error h fault rfl

/-- **A base that is refused has no combination to try.** None of them can be read, and so no search
has a candidate of them. -/
theorem all_refused_of_run_baseParams {fault : ParamError}
    (h : run candles space base plan window cancelled pool = .error (.baseParams fault)) :
    (∀ i, ∃ e, CrossoverParams.ofSet (trialParams space base i) = .error e) ∧
      ∀ indices found, admissible space base indices = .ok found → found.1 = [] := by
  have hrefused : ∀ i, ∃ e, CrossoverParams.ofSet (trialParams space base i) = .error e := by
    intro i
    cases hread : CrossoverParams.ofSet (trialParams space base i) with
    | error e => exact ⟨e, rfl⟩
    | ok typed => exact absurd (checkBase_of_trial hread) (checkBase_ne_ok_of_run h)
  refine ⟨hrefused, fun indices found hfound => ?_⟩
  obtain ⟨-, rfl⟩ := admissible_eq_ok_iff.1 hfound
  refine List.filterMap_eq_nil_iff.2 fun i _ => ?_
  obtain ⟨e, he⟩ := hrefused i
  exact reading?_of_error he

/-- A stop that trails at no distance. -/
def trailingAtOnce : ParamSet :=
  .ofList [("fast_period", .int 1), ("trailing_distance_pct", .float 0),
    ("trailing_stop_enabled", .bool true)]

/-- The check refuses the stop, and no slow period can take it back. -/
theorem all_refused_of_run_baseParams_trailing :
    run riseAndFall slowPeriods trailingAtOnce tradingPlan 0 false =
        .error (.baseParams (.outOfRange "trailing_distance_pct" .positiveForTrailing)) ∧
      ∀ i, ∃ e, CrossoverParams.ofSet (trialParams slowPeriods trailingAtOnce i) = .error e := by
  have hrefused : CrossoverParams.ofSet (fixedParams slowPeriods trailingAtOnce) =
      .error (.outOfRange "trailing_distance_pct" .positiveForTrailing) :=
    error?_eq_some_iff.1 (by decide +kernel)
  have hrun : run riseAndFall slowPeriods trailingAtOnce tradingPlan 0 false =
      .error (.baseParams (.outOfRange "trailing_distance_pct" .positiveForTrailing)) := by
    rw [run_eq, checkBase, hrefused]
    rfl
  exact ⟨hrun, (all_refused_of_run_baseParams hrun).1⟩

end Backtest.Search
