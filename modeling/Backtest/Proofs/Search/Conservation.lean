import Backtest.Proofs.Search.Failures

/-!
# What a search conserves

A search goes through numbered combinations three times: it reads them, replays those that can be
read, and splits the results by the guardrails. It succeeds if it comes through each of them, and
then its findings are those of the combinations on their own, so none is lost, none is there twice,
and none has the figures of another.

## Main definitions

* `Candidate.IsOutcome` — a candidate that is the outcome of its own set.
* `Search.tryAll_eq_ok_iff` — the findings of a search, and when there are any.
* `Search.Conserves` — every combination is ranked, disqualified or left out, once.
-/
namespace Backtest

namespace Candidate

/-- A candidate that is the outcome of its own set of parameters and of nothing else. -/
def IsOutcome (candles : List Candle) (plan : SearchPlan) (c : Candidate) : Prop :=
  ∃ typed result, CrossoverParams.ofSet c.params = .ok typed ∧
    Simulation.run candles typed plan.settings = .ok result ∧
    c.metrics =
      Metrics.compute result.trades result.equity plan.settings.initialBalance plan.robust ∧
    c.objective = plan.objective.extract c.metrics ∧
    c.disqualified = plan.guardrails.check c.metrics

variable {candles : List Candle} {plan : SearchPlan}

theorem isOutcome_of_evaluate {params : ParamSet} {typed : CrossoverParams} {c : Candidate}
    (hread : CrossoverParams.ofSet params = .ok typed)
    (h : evaluate candles plan params typed = .ok c) :
    c.params = params ∧ IsOutcome candles plan c := by
  rw [evaluate, bind_eq_ok_iff] at h
  obtain ⟨result, hrun, h⟩ := h
  cases h
  exact ⟨rfl, typed, result, hread, hrun, rfl, rfl, rfl⟩

/-- The parameters determine the outcome. -/
theorem IsOutcome.eq_of_params_eq {c d : Candidate} (hc : IsOutcome candles plan c)
    (hd : IsOutcome candles plan d) (h : c.params = d.params) : c = d := by
  obtain ⟨typed, result, hread, hrun, hmetrics, hobjective, hdisqualified⟩ := hc
  obtain ⟨typed', result', hread', hrun', hmetrics', hobjective', hdisqualified'⟩ := hd
  rw [h, hread'] at hread
  cases hread
  rw [hrun'] at hrun
  cases hrun
  cases c
  cases d
  simp_all

end Candidate

namespace Search

variable {candles : List Candle} {space : SearchSpace} {base : ParamSet} {plan : SearchPlan}
  {window : Nat} {cancelled : Bool} {pool : WorkerPool}

/-- The parameters of a combination. -/
def trialParams (space : SearchSpace) (base : ParamSet) (i : Nat) : ParamSet :=
  ParamSet.overlay base (space.combination i)

/-- The parameters of a combination and what they are read as, if a strategy can have them. -/
def reading? (space : SearchSpace) (base : ParamSet) (i : Nat) :
    Option (ParamSet × CrossoverParams) :=
  match CrossoverParams.ofSet (trialParams space base i) with
  | .ok typed => some (trialParams space base i, typed)
  | .error _ => none

/-- A combination is read, or refused as no strategy. -/
def IsAdmitted (space : SearchSpace) (base : ParamSet) (i : Nat) : Prop :=
  ∀ e, CrossoverParams.ofSet (trialParams space base i) = .error e → isSkippable e = true

theorem reading?_of_ok {i : Nat} {typed : CrossoverParams}
    (h : CrossoverParams.ofSet (trialParams space base i) = .ok typed) :
    reading? space base i = some (trialParams space base i, typed) := by rw [reading?, h]

theorem reading?_of_error {i : Nat} {e : ParamError}
    (h : CrossoverParams.ofSet (trialParams space base i) = .error e) :
    reading? space base i = none := by rw [reading?, h]

/-- A combination that is read stands before the others. -/
theorem admissible_cons_of_ok {i : Nat} {rest : List Nat} {typed : CrossoverParams}
    (h : CrossoverParams.ofSet (trialParams space base i) = .ok typed) :
    admissible space base (i :: rest) = admissible space base rest >>= fun found =>
      pure ((trialParams space base i, typed) :: found.1, found.2) := by
  rw [trialParams] at h
  simp only [admissible, h]
  rfl

/-- One that is refused is counted, or ends the search. -/
theorem admissible_cons_of_error {i : Nat} {rest : List Nat} {e : ParamError}
    (h : CrossoverParams.ofSet (trialParams space base i) = .error e) :
    admissible space base (i :: rest) =
      if isSkippable e then
        admissible space base rest >>= fun found => pure (found.1, found.2 + 1)
      else .error (.candidateParams (trialParams space base i) e) := by
  rw [trialParams] at h
  simp only [admissible, h]
  rfl

theorem admissible_eq_ok_iff {indices : List Nat}
    {found : List (ParamSet × CrossoverParams) × Nat} :
    admissible space base indices = .ok found ↔
      (∀ i ∈ indices, IsAdmitted space base i) ∧
        found = (indices.filterMap (reading? space base),
          indices.countP fun i => (reading? space base i).isNone) := by
  induction indices generalizing found with
  | nil =>
    constructor
    · intro h
      cases h
      exact ⟨fun i hi => absurd hi List.not_mem_nil, rfl⟩
    · rintro ⟨-, rfl⟩
      rfl
  | cons i rest ih =>
    rw [List.forall_mem_cons, List.filterMap_cons, List.countP_cons]
    cases hread : CrossoverParams.ofSet (trialParams space base i) with
    | ok typed =>
      have hadmitted : IsAdmitted space base i := fun e he => by rw [hread] at he; cases he
      rw [admissible_cons_of_ok hread, bind_eq_ok_iff]
      simp only [reading?_of_ok hread, ih]
      constructor
      · rintro ⟨others, ⟨hrest, rfl⟩, h⟩
        cases h
        exact ⟨⟨hadmitted, hrest⟩, rfl⟩
      · rintro ⟨⟨-, hrest⟩, rfl⟩
        exact ⟨_, ⟨hrest, rfl⟩, rfl⟩
    | error e =>
      have hadmitted : IsAdmitted space base i ↔ isSkippable e = true :=
        ⟨fun h => h e hread, fun h e' he' => by rw [hread] at he'; cases he'; exact h⟩
      rw [admissible_cons_of_error hread, hadmitted]
      simp only [reading?_of_error hread]
      by_cases hskip : isSkippable e = true
      · rw [if_pos hskip, bind_eq_ok_iff]
        simp only [ih]
        constructor
        · rintro ⟨others, ⟨hrest, rfl⟩, h⟩
          cases h
          exact ⟨⟨hskip, hrest⟩, rfl⟩
        · rintro ⟨⟨-, hrest⟩, rfl⟩
          exact ⟨_, ⟨hrest, rfl⟩, rfl⟩
      · rw [if_neg hskip]
        constructor
        · intro h
          cases h
        · intro h
          exact absurd h.1.1 hskip

/-- A candidate replayed on its own, if its replay is not refused. -/
def evaluated? (candles : List Candle) (plan : SearchPlan) (c : ParamSet × CrossoverParams) :
    Option Candidate :=
  (Candidate.evaluate candles plan c.1 c.2).toOption

/-- What a search makes of the replay of a candidate. -/
def judged (candles : List Candle) (plan : SearchPlan) (c : ParamSet × CrossoverParams) :
    Except SearchError Candidate :=
  match Candidate.evaluate candles plan c.1 c.2 with
  | .ok result => .ok result
  | .error e => .error (.simulation e)

theorem toOption_judged (c : ParamSet × CrossoverParams) :
    (judged candles plan c).toOption = evaluated? candles plan c := by
  rw [judged, evaluated?]
  cases Candidate.evaluate candles plan c.1 c.2 <;> rfl

theorem evaluateAll_eq (candidates : List (ParamSet × CrossoverParams)) :
    evaluateAll candles plan cancelled pool candidates =
      openPool plan.threads pool >>= fun _ =>
        if cancelled && !candidates.isEmpty then .error .cancelled
        else candidates.mapM (judged candles plan) := rfl

theorem evaluateAll_eq_ok_iff {candidates : List (ParamSet × CrossoverParams)}
    {results : List Candidate} :
    evaluateAll candles plan cancelled pool candidates = .ok results ↔
      pool.Serves plan.threads ∧ (cancelled = true → candidates = []) ∧
        (∀ c ∈ candidates, (evaluated? candles plan c).isSome = true) ∧
        results = candidates.filterMap (evaluated? candles plan) := by
  have hok : ∀ c, (judged candles plan c).isOk = (evaluated? candles plan c).isSome := by
    intro c
    rw [← toOption_judged]
    cases judged candles plan c <;> rfl
  rw [evaluateAll_eq, unit_bind_eq_ok_iff, openPool_eq_ok_iff]
  refine and_congr_right fun _ => ?_
  by_cases hcancelled : cancelled = true ∧ candidates ≠ []
  · rw [if_pos (by simpa using hcancelled)]
    exact ⟨fun h => (nomatch h), fun h => absurd (h.1 hcancelled.1) hcancelled.2⟩
  · rw [if_neg (by simpa using hcancelled), mapM_eq_ok_iff]
    simp only [hok, toOption_judged]
    refine ⟨fun h => ⟨fun hc => ?_, h⟩, fun h => h.2⟩
    exact Classical.not_not.1 fun hne => hcancelled ⟨hc, hne⟩

/-- The findings of results in the order they were tried. -/
def findings (results : List Candidate) (skipped : Nat) : SearchFindings :=
  ⟨Candidate.ranked (results.filter Candidate.keepsGuardrails),
    results.filter fun c => !c.keepsGuardrails, skipped⟩

/-- What a search does with the numbers of its combinations. -/
def tryAll (candles : List Candle) (space : SearchSpace) (base : ParamSet) (plan : SearchPlan)
    (cancelled : Bool) (pool : WorkerPool) (indices : List Nat) :
    Except SearchError SearchFindings := do
  let (candidates, skipped) ← admissible space base indices
  let results ← evaluateAll candles plan cancelled pool candidates
  return findings results skipped

theorem run_eq :
    run candles space base plan window cancelled pool =
      checkBase space base >>= fun _ => trialNumbers space plan window >>=
        tryAll candles space base plan cancelled pool := by
  simp only [run, List.partition_eq_filter_filter]
  rfl

theorem run_eq_ok_iff {found : SearchFindings} :
    run candles space base plan window cancelled pool = .ok found ↔
      checkBase space base = .ok () ∧ ∃ indices, trialNumbers space plan window = .ok indices ∧
        tryAll candles space base plan cancelled pool indices = .ok found := by
  rw [run_eq, unit_bind_eq_ok_iff, bind_eq_ok_iff]

/-- The candidate that a combination is on its own, if a strategy can have its parameters. -/
def trial? (candles : List Candle) (space : SearchSpace) (base : ParamSet) (plan : SearchPlan)
    (i : Nat) : Option Candidate :=
  (reading? space base i).bind (evaluated? candles plan)

/-- A combination that a search comes through. -/
def Passes (candles : List Candle) (space : SearchSpace) (base : ParamSet) (plan : SearchPlan)
    (cancelled : Bool) (i : Nat) : Prop :=
  IsAdmitted space base i ∧ ∀ c, reading? space base i = some c →
    cancelled = false ∧ (evaluated? candles plan c).isSome = true

/-- A search succeeds if it has its workers and comes through each of its combinations, and it finds
what each of them is on its own. -/
theorem tryAll_eq_ok_iff {indices : List Nat} {found : SearchFindings} :
    tryAll candles space base plan cancelled pool indices = .ok found ↔
      pool.Serves plan.threads ∧ (∀ i ∈ indices, Passes candles space base plan cancelled i) ∧
        found = findings (indices.filterMap (trial? candles space base plan))
          (indices.countP fun i => (reading? space base i).isNone) := by
  simp only [tryAll, bind_eq_ok_iff, admissible_eq_ok_iff, evaluateAll_eq_ok_iff]
  have htrial : trial? candles space base plan =
    fun i => (reading? space base i).bind (evaluated? candles plan) := rfl
  rw [htrial, ← List.filterMap_filterMap]
  constructor
  · rintro ⟨_, ⟨hadmitted, rfl⟩, results, ⟨hpool, hcancelled, hreplayed, rfl⟩, h⟩
    cases h
    refine ⟨hpool, fun i hi => ⟨hadmitted i hi, fun c hc => ?_⟩, rfl⟩
    have hmem : c ∈ indices.filterMap (reading? space base) := List.mem_filterMap.2 ⟨i, hi, hc⟩
    refine ⟨?_, hreplayed c hmem⟩
    cases hcase : cancelled with
    | false => rfl
    | true =>
      have hnone : indices.filterMap (reading? space base) = [] := hcancelled hcase
      rw [hnone] at hmem
      cases hmem
  · rintro ⟨hpool, hpasses, rfl⟩
    refine ⟨_, ⟨fun i hi => (hpasses i hi).1, rfl⟩, _,
      ⟨hpool, fun hcancelled => ?_, fun c hc => ?_, rfl⟩, rfl⟩
    · refine List.filterMap_eq_nil_iff.2 fun i hi => ?_
      cases hread : reading? space base i with
      | none => rfl
      | some c =>
        have := ((hpasses i hi).2 c hread).1
        rw [hcancelled] at this
        cases this
    · obtain ⟨i, hi, hread⟩ := List.mem_filterMap.1 hc
      exact ((hpasses i hi).2 c hread).2

/-! ## What a search keeps -/

/-- The sets of parameters that a strategy can have, in the order of their numbers. -/
def readable (space : SearchSpace) (base : ParamSet) (indices : List Nat) : List ParamSet :=
  (indices.map (trialParams space base)).filter fun params => (CrossoverParams.ofSet params).isOk

/-- A search of numbered combinations that loses none and adds none. -/
structure Conserves (candles : List Candle) (space : SearchSpace) (base : ParamSet)
    (plan : SearchPlan) (indices : List Nat) (found : SearchFindings) : Prop where
  /-- Every number is a candidate or was left out. -/
  count : found.ranked.length + found.disqualified.length + found.skipped = indices.length
  /-- What was left out is no strategy. -/
  admitted : ∀ i ∈ indices, IsAdmitted space base i
  /-- The candidates have the sets that a strategy can have, each as often as it was tried. -/
  params : ((found.ranked ++ found.disqualified).map (·.params)).Perm (readable space base indices)
  /-- Every candidate is what its set makes of the slice on its own. -/
  outcome : ∀ c ∈ found.ranked ++ found.disqualified, c.IsOutcome candles plan
  /-- The guardrails alone decide what is ranked. -/
  eligible : ∀ c ∈ found.ranked ++ found.disqualified,
    c ∈ found.ranked ↔ plan.guardrails.check c.metrics = none
  /-- The others stand in the order in which the sets were tried. -/
  order : ∃ results : List Candidate, results.map (·.params) = readable space base indices ∧
    (∀ c ∈ results, c.IsOutcome candles plan) ∧
    found.disqualified = results.filter fun c => (plan.guardrails.check c.metrics).isSome

theorem trial?_eq_some {i : Nat} {c : Candidate} (h : trial? candles space base plan i = some c) :
    c.params = trialParams space base i ∧ c.IsOutcome candles plan := by
  rw [trial?, Option.bind_eq_some_iff] at h
  obtain ⟨d, hread, heval⟩ := h
  rw [reading?] at hread
  split at hread
  · rename_i typed htyped
    cases hread
    rw [evaluated?] at heval
    cases hresult : Candidate.evaluate candles plan (trialParams space base i) typed with
    | error e => rw [hresult] at heval; cases heval
    | ok c' =>
      rw [hresult] at heval
      cases heval
      exact Candidate.isOutcome_of_evaluate htyped hresult
  · cases hread

/-- A combination is a candidate as soon as its set can be read. -/
theorem isSome_trial? {i : Nat} (h : Passes candles space base plan cancelled i) :
    (trial? candles space base plan i).isSome =
      (CrossoverParams.ofSet (trialParams space base i)).isOk := by
  cases hread : CrossoverParams.ofSet (trialParams space base i) with
  | error e =>
    rw [trial?, reading?_of_error hread]
    rfl
  | ok typed =>
    have hreading := reading?_of_ok hread
    rw [trial?, hreading]
    exact (h.2 _ hreading).2

/-- The parameters of the candidates are the sets that can be read. -/
theorem map_params_trials {indices : List Nat}
    (h : ∀ i ∈ indices, Passes candles space base plan cancelled i) :
    (indices.filterMap (trial? candles space base plan)).map (·.params) =
      readable space base indices := by
  induction indices with
  | nil => rfl
  | cons i rest ih =>
    obtain ⟨hpass, hrest⟩ := List.forall_mem_cons.1 h
    rw [readable, List.map_cons, List.filterMap_cons, List.filter_cons, ← isSome_trial? hpass]
    cases htrial : trial? candles space base plan i with
    | none => exact ih hrest
    | some c =>
      rw [List.map_cons, (trial?_eq_some htrial).1]
      exact congrArg _ (ih hrest)

theorem isNone_reading? (i : Nat) :
    (reading? space base i).isNone =
      !(CrossoverParams.ofSet (trialParams space base i)).isOk := by
  rw [reading?]
  cases CrossoverParams.ofSet (trialParams space base i) <;> rfl

/-- A number is left out or its set can be read. -/
theorem countP_reading? (indices : List Nat) :
    (indices.countP fun i => (reading? space base i).isNone) +
      (readable space base indices).length = indices.length := by
  simp only [readable, isNone_reading?]
  induction indices with
  | nil => rfl
  | cons i rest ih =>
    rw [List.map_cons, List.filter_cons, List.countP_cons, List.length_cons, ← ih]
    cases (CrossoverParams.ofSet (trialParams space base i)).isOk
    · rw [if_pos (by decide), if_neg (by decide)]
      omega
    · rw [if_neg (by decide), if_pos rfl, List.length_cons]
      omega

theorem keepsGuardrails_of_isOutcome {c : Candidate} (h : c.IsOutcome candles plan) :
    c.keepsGuardrails = (plan.guardrails.check c.metrics).isNone := by
  obtain ⟨-, -, -, -, -, -, hcheck⟩ := h
  rw [Candidate.keepsGuardrails, hcheck]

/-- Findings are the results in another order. -/
theorem findings_perm (results : List Candidate) (skipped : Nat) :
    ((findings results skipped).ranked ++ (findings results skipped).disqualified).Perm results :=
  ((List.mergeSort_perm _ _).append_right _).trans (List.filter_append_perm _ results)

/-- A search that comes through its combinations conserves them. -/
theorem conserves_tryAll {indices : List Nat} {found : SearchFindings}
    (h : tryAll candles space base plan cancelled pool indices = .ok found) :
    Conserves candles space base plan indices found := by
  obtain ⟨-, hpasses, rfl⟩ := tryAll_eq_ok_iff.1 h
  have hparams := map_params_trials hpasses
  have hcount : (indices.countP fun i => (reading? space base i).isNone) +
    (readable space base indices).length = indices.length := countP_reading? indices
  have houtcome : ∀ c ∈ indices.filterMap (trial? candles space base plan),
      c.IsOutcome candles plan := by
    intro c hc
    obtain ⟨i, -, htrial⟩ := List.mem_filterMap.1 hc
    exact (trial?_eq_some htrial).2
  generalize indices.filterMap (trial? candles space base plan) = results at hparams houtcome
  have hperm := findings_perm results (indices.countP fun i => (reading? space base i).isNone)
  have hlength := hperm.length_eq
  rw [← hparams, List.length_map] at hcount
  rw [List.length_append] at hlength
  refine ⟨?_, fun i hi => (hpasses i hi).1, ?_, fun c hc => houtcome c (hperm.mem_iff.1 hc),
    fun c hc => ?_, results, hparams, houtcome, ?_⟩
  · rw [hlength, ← hcount, Nat.add_comm]
    rfl
  · rw [← hparams]
    exact hperm.map _
  · have hmem := hperm.mem_iff.1 hc
    have hkeeps := keepsGuardrails_of_isOutcome (houtcome c hmem)
    rw [findings, Candidate.ranked, List.mem_mergeSort, List.mem_filter, hkeeps,
      Option.isNone_iff_eq_none]
    exact ⟨fun h => h.2, fun h => ⟨hmem, h⟩⟩
  · refine List.filter_congr fun c hc => ?_
    rw [keepsGuardrails_of_isOutcome (houtcome c hc), Option.not_isNone]

/-- What a search finds is what it would find with any workers. -/
theorem run_ready {found : SearchFindings}
    (h : run candles space base plan window cancelled pool = .ok found) :
    run candles space base plan window cancelled .ready = .ok found := by
  obtain ⟨hbase, indices, hindices, htry⟩ := run_eq_ok_iff.1 h
  obtain ⟨-, hrest⟩ := tryAll_eq_ok_iff.1 htry
  exact run_eq_ok_iff.2 ⟨hbase, indices, hindices, tryAll_eq_ok_iff.2 ⟨.inr rfl, hrest⟩⟩

/-- **A search loses and duplicates nothing.** -/
theorem run_conserves {found : SearchFindings}
    (h : run candles space base plan window cancelled pool = .ok found) :
    ∃ indices, trialNumbers space plan window = .ok indices ∧
      Conserves candles space base plan indices found := by
  obtain ⟨-, indices, hindices, htry⟩ := run_eq_ok_iff.1 h
  exact ⟨indices, hindices, conserves_tryAll htry⟩

/-- Candles that cross upwards and back. -/
def riseAndFall : List Candle := Simulation.hourly 0 [10, 10, 12, 9]

/-- Four slow periods, one of them twice and one too short for any fast period. -/
def slowPeriods : SearchSpace :=
  ⟨[("slow_period", .list [.int 50, .int 2, .int 1, .int 2])]⟩

/-- Crossings of the close that only the opposite crossing ends. -/
def quickBase : ParamSet :=
  .ofList [("ma_type", .text "sma"), ("fast_period", .int 1), ("take_profit_pct", .float 0),
    ("stop_loss_pct", .float 0)]

/-- A search of the whole grid for candidates that trade. -/
def tradingPlan : SearchPlan :=
  { guardrails := { minTrades := 1, maxDrawdownPct := 100, lotteryTradeThreshold := 1 } }

/-- Of four combinations two are ranked, one does not trade and one is no strategy. -/
theorem run_conserves_slowPeriods :
    ∃ found, run riseAndFall slowPeriods quickBase tradingPlan 0 false = .ok found ∧
      found.ranked.length = 2 ∧ found.disqualified.length = 1 ∧ found.skipped = 1 ∧
      ∃ indices, trialNumbers slowPeriods tradingPlan 0 = .ok indices ∧
        Conserves riseAndFall slowPeriods quickBase tradingPlan indices found := by
  have hcounts : (run riseAndFall slowPeriods quickBase tradingPlan 0 false).toOption.map
      (fun found => (found.disqualified.length, found.skipped)) = some (1, 1) := by decide +kernel
  cases hrun : run riseAndFall slowPeriods quickBase tradingPlan 0 false with
  | error e =>
    rw [hrun] at hcounts
    cases hcounts
  | ok found =>
    rw [hrun] at hcounts
    obtain ⟨hdisqualified, hskipped⟩ := Prod.mk.inj (Option.some.inj hcounts)
    obtain ⟨indices, hindices, hconserves⟩ := run_conserves hrun
    have hcount := hconserves.count
    cases hindices
    rw [hdisqualified, hskipped] at hcount
    exact ⟨found, rfl, Nat.add_right_cancel (Nat.add_right_cancel hcount), hdisqualified, hskipped,
      _, rfl, hconserves⟩

end Search
end Backtest
