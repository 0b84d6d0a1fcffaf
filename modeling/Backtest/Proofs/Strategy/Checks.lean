import Backtest.Proofs.Simulation.Replay
import Backtest.Proofs.Strategy.RoundTrip

/-!
# Two checks of the parameters

Parameters are checked in two ways: the reader of a set refuses values out of range and then checks
the whole, a run checks the whole alone. On the set that names all parameters the reader makes the
same parameters and refuses as the check of the whole does, except for percentages. Only the reader
looks at those, so that a run takes negative percentages and NaN, also a distance of the trailing
stop that is not above zero.

## Main definitions

* `CrossoverParams.HasCounts`, `CrossoverParams.HasPercentages` — counts and percentages in range.
* `CrossoverParams.exists_percentage_of_error` — what the reader alone refuses is a percentage.
* `CrossoverParams.ofSet_toSet_iff_validate` — where the two checks agree.
* `CrossoverParams.not_all_validated_readable` — a run with percentages that the reader refuses.
-/
namespace Backtest.CrossoverParams

variable {p : CrossoverParams}

/-- Every count is one of 64 bits with a sign. -/
def HasCounts (p : CrossoverParams) : Prop := ∀ c ∈ counts, IsReadableCount (c.2 p)

/-- Every percentage is finite and not below zero. -/
def HasPercentages (p : CrossoverParams) : Prop := ∀ c ∈ percentages, IsPct (c.2 p)

instance : DecidablePred HasCounts := fun p =>
  inferInstanceAs (Decidable (∀ c ∈ counts, IsReadableCount (c.2 p)))

instance : DecidablePred HasPercentages := fun p =>
  inferInstanceAs (Decidable (∀ c ∈ percentages, IsPct (c.2 p)))

theorem validate_eq_ok_iff_fault? : p.validate = .ok () ↔ p.fault? = none := by
  rw [validate]
  cases p.fault? with
  | none => exact iff_of_true rfl rfl
  | some e =>
    constructor
    · intro h
      cases h
    · intro h
      cases h

/-- With percentages in range the check of the whole decides. -/
theorem ofSet_toSet_of_hasPercentages (hcounts : p.HasCounts) (hpct : p.HasPercentages) :
    ofSet p.toSet = p.validate.map fun _ => p := by
  rw [ofSet_of_assignAll (assignAll_toSet (isReadable_iff.2 ⟨hcounts, hpct⟩)), validate]
  cases p.fault? with
  | none => rfl
  | some e => rfl

/-- What is refused before the whole is checked is a percentage out of range. -/
theorem exists_percentage_of_error (hcounts : p.HasCounts) {e : ParamError}
    (h : assignAll {} p.toSet.entries = .error e) :
    ∃ c ∈ percentages, ¬ IsPct (c.2 p) ∧ e = .outOfRange c.1 .finiteNonnegative := by
  have hfirst : error? (assignAll {} p.toSet.entries) = some e := error?_eq_some_iff.2 h
  rw [error?_assignAll] at hfirst
  obtain ⟨x, hx, hfailed⟩ := List.exists_of_findSome?_eq_some hfirst
  rcases isOk_assign_or_of_mem hcounts x ((entries_toSet_perm p).mem_iff.1 hx) with hok | hmem
  · rw [isOk_eq_isNone_error?, hfailed] at hok
    cases hok
  · obtain ⟨c, hc, rfl⟩ := List.mem_map.1 hmem
    rw [error?_assign_of_mem_percentages hc] at hfailed
    by_cases hpct : IsPct (c.2 p)
    · rw [readPct_float hpct] at hfailed
      cases hfailed
    · rw [readPct_float_of_not hpct] at hfailed
      exact ⟨c, hc, hpct, (Option.some.inj hfailed).symm⟩

/-- Percentages that can be read are in range. -/
theorem hasPercentages_of_assignAll {q : CrossoverParams}
    (h : assignAll {} p.toSet.entries = .ok q) : p.HasPercentages := by
  intro c hc
  have hmem : (c.1, ParamValue.float (c.2 p)) ∈ p.allEntries := by
    simp only [percentages, List.mem_cons, List.not_mem_nil, or_false] at hc
    rcases hc with rfl | rfl | rfl | rfl | rfl <;> simp [allEntries]
  have hok := (isOk_assignAll {} _).1 ⟨q, h⟩ _ ((entries_toSet_perm p).mem_iff.2 hmem)
  rw [isOk_eq_isNone_error?, error?_assign_of_mem_percentages hc] at hok
  by_contra hpct
  rw [readPct_float_of_not hpct] at hok
  cases hok

/-- **The reader of a set refuses as the check of the whole does, and percentages out of range
besides.** It takes the set that names all parameters exactly if the whole passes the check and all
percentages are in range. If they are, the two checks end alike; otherwise the reader blames one
that is not. Parameters that were run have passed the check of the whole, so that for them the
percentages alone decide. -/
theorem ofSet_toSet_iff_validate (hcounts : p.HasCounts) :
    ((∃ q, ofSet p.toSet = .ok q) ↔ p.validate = .ok () ∧ p.HasPercentages) ∧
      (p.HasPercentages → ofSet p.toSet = p.validate.map fun _ => p) ∧
      (¬ p.HasPercentages → ∃ c ∈ percentages, ¬ IsPct (c.2 p) ∧
        ofSet p.toSet = .error (.outOfRange c.1 .finiteNonnegative)) ∧
      ∀ candles settings r, Simulation.run candles p settings = .ok r →
        ((∃ q, ofSet p.toSet = .ok q) ↔ p.HasPercentages) := by
  have hagree : (∃ q, ofSet p.toSet = .ok q) ↔ p.validate = .ok () ∧ p.HasPercentages := by
    constructor
    · rintro ⟨q, hq⟩
      have hpct := hasPercentages_of_assignAll (ofSet_eq_ok_iff.1 hq).1
      rw [ofSet_toSet_of_hasPercentages hcounts hpct] at hq
      cases hvalid : p.validate with
      | ok u => exact ⟨rfl, hpct⟩
      | error e =>
        rw [hvalid] at hq
        cases hq
    · rintro ⟨hvalid, hpct⟩
      exact ⟨p, by rw [ofSet_toSet_of_hasPercentages hcounts hpct, hvalid]; rfl⟩
  refine ⟨hagree, ofSet_toSet_of_hasPercentages hcounts, fun hpct => ?_,
    fun candles settings r hr => ?_⟩
  · cases hread : assignAll {} p.toSet.entries with
    | ok q => exact absurd (hasPercentages_of_assignAll hread) hpct
    | error e =>
      obtain ⟨c, hc, hbad, rfl⟩ := exists_percentage_of_error hcounts hread
      refine ⟨c, hc, hbad, ?_⟩
      rw [ofSet, hread]
      rfl
  · have hvalid := validate_eq_ok_iff_fault?.2 (Simulation.run_eq_ok_iff.1 hr).1
    rw [hagree]
    exact and_iff_right hvalid

/-- A trailing stop whose distance is no number, and a stop below zero. -/
def uncheckedParams : CrossoverParams where
  slowPeriod := 9223372036854775807
  stopLossPct := -0.01
  trailingStopEnabled := true
  trailingDistancePct := Binary64.nan

theorem validate_uncheckedParams : uncheckedParams.validate = .ok () := by decide +kernel

theorem ofSet_toSet_iff_validate_unchecked :
    uncheckedParams.HasCounts ∧ uncheckedParams.validate = .ok () ∧
      (∃ c ∈ percentages, ¬ IsPct (c.2 uncheckedParams) ∧
        ofSet uncheckedParams.toSet = .error (.outOfRange c.1 .finiteNonnegative)) := by
  have hcounts : uncheckedParams.HasCounts := by decide +kernel
  have hpct : ¬ uncheckedParams.HasPercentages := by decide +kernel
  obtain ⟨-, -, hrefused, -⟩ := ofSet_toSet_iff_validate hcounts
  exact ⟨hcounts, validate_uncheckedParams, hrefused hpct⟩

/-- Not all parameters that pass the check of the whole, and not all that are run, are taken by the
reader. -/
theorem not_all_validated_readable :
    (¬ ∀ p : CrossoverParams, p.HasCounts →
      (p.validate = .ok () ↔ ∃ q, ofSet p.toSet = .ok q)) ∧
    ¬ ∀ (p : CrossoverParams) (candles : List Candle) (settings : AccountSettings) (r : Replay),
      p.HasCounts → Simulation.run candles p settings = .ok r → ∃ q, ofSet p.toSet = .ok q := by
  have hcounts : HasCounts { stopLossPct := -0.01 } := by decide +kernel
  have hrefused : ¬ ∃ q, ofSet (toSet { stopLossPct := -0.01 }) = .ok q := by
    rintro ⟨q, hq⟩
    have hpct := hasPercentages_of_assignAll (ofSet_eq_ok_iff.1 hq).1
    exact absurd hpct (by decide +kernel)
  have hvalid : validate { stopLossPct := -0.01 } = .ok () := by decide +kernel
  constructor
  · intro h
    exact hrefused ((h _ hcounts).1 hvalid)
  · intro h
    have hrun : (Simulation.run (Simulation.hourly 0 [10, 10, 12, 9]) { stopLossPct := -0.01 }
        {}).isOk = true := by decide +kernel
    obtain ⟨r, hr⟩ := exists_eq_ok hrun
    exact hrefused (h _ _ _ r hcounts hr)

end Backtest.CrossoverParams
