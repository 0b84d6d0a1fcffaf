import Backtest.Command.Execution
import Backtest.Proofs.Params.Assignment
import Backtest.Proofs.Strategy.RoundTrip

/-!
# Parameters through the command line

The set that names every parameter can be given on the command line as it is printed, one assignment
for each entry. A printed value tells nothing of its kind: a percentage without a fraction comes
back as an integer, or as a double if it is too large for one. The reader of the field takes either,
and so the fields are equal to what they were.

## Main definitions

* `CrossoverParams.Equals` — parameters with equal fields, where both zeros are equal.
* `reread` — an entry that was printed and read.
* `Command.readParams_map_assignmentText` — assignments are collected into a set.
* `CrossoverParams.ofSet_readParams_of_ofSet` — parameters come back from what is printed of them.
-/
namespace Backtest

/-- An entry with the value that its printed value denotes. -/
def reread (e : String × ParamValue) : String × ParamValue := (e.1, .ofText e.2.display)

/-- Assignments that are read one by one are collected into a set. -/
theorem Command.readParams_map_assignmentText {es : List (String × ParamValue)}
    (h : ∀ e ∈ es, readAssignment? (assignmentText e) = some (reread e)) :
    readParams (es.map assignmentText) = .ok (.ofList (es.map reread)) := by
  have hnone : (es.map assignmentText).find? (fun t => (readAssignment? t).isNone) = none := by
    rw [List.find?_eq_none]
    intro t ht
    obtain ⟨e, he, rfl⟩ := List.mem_map.1 ht
    rw [h e he]
    simp
  have hread : (es.map assignmentText).filterMap readAssignment? = es.map reread := by
    rw [List.filterMap_map, ← List.filterMap_eq_map]
    exact List.filterMap_congr h
  simp only [readParams, hnone, hread]

namespace CrossoverParams

variable {p q : CrossoverParams} {name : String} {v : ParamValue}

/-! ## Equal parameters -/

/-- Every field is equal; of doubles, zeros are equal whatever their signs. -/
structure Equals (q p : CrossoverParams) : Prop where
  averageKind : q.averageKind = p.averageKind
  fastPeriod : q.fastPeriod = p.fastPeriod
  slowPeriod : q.slowPeriod = p.slowPeriod
  takeProfitPct : (q.takeProfitPct == p.takeProfitPct) = true
  stopLossPct : (q.stopLossPct == p.stopLossPct) = true
  cooldownCandles : q.cooldownCandles = p.cooldownCandles
  enableShort : q.enableShort = p.enableShort
  trailingStopEnabled : q.trailingStopEnabled = p.trailingStopEnabled
  trailingActivationPct : (q.trailingActivationPct == p.trailingActivationPct) = true
  trailingDistancePct : (q.trailingDistancePct == p.trailingDistancePct) = true
  trendEnabled : q.trendEnabled = p.trendEnabled
  trendMultiplier : q.trendMultiplier = p.trendMultiplier
  trendPeriod : q.trendPeriod = p.trendPeriod
  minSeparationPct : (q.minSeparationPct == p.minSeparationPct) = true

/-- Equal parameters go together or do not for the same reason. -/
theorem Equals.fault?_eq (h : q.Equals p) : q.fault? = p.fault? := by
  have hzero : (0 : Float).isNaN = false := by decide +kernel
  have hdistance := Binary64.le_iff_of_beq h.trailingDistancePct hzero
  simp only [fault?, h.fastPeriod, h.slowPeriod, h.trailingStopEnabled, hdistance, h.trendEnabled,
    h.trendMultiplier, h.trendPeriod]

/-! ## Printed values -/

theorem ofText_name (k : AverageKind) : ParamValue.ofText k.name = .text k.name := by
  cases k <;> rfl

/-- A percentage that is printed is read as an equal one. -/
theorem readPct_ofText_display {x : Float} (hx : IsPct x) :
    ∃ y, readPct name (.ofText (ParamValue.display (.float x))) = .ok y ∧ (y == x) = true := by
  obtain ⟨y, hy, hequal⟩ := ParamValue.float?_ofText_display hx.1
  have hzero : (0 : Float).isNaN = false := by decide +kernel
  have hpct : IsPct y :=
    ⟨Binary64.isFinite_of_beq hequal hx.1, by rw [Binary64.lt_iff_of_beq hequal hzero]; exact hx.2⟩
  refine ⟨y, ?_, hequal⟩
  rw [readPct, hy]
  exact if_pos hpct

/-- A printed value is read as it was, or it is a percentage. -/
theorem reread_or_of_mem : ∀ e ∈ p.allEntries, reread e = e ∨
    e ∈ percentages.map fun c => (c.1, ParamValue.float (c.2 p)) := by
  have hint : ∀ (name : String) (i : Int64), reread (name, .int i) = (name, .int i) :=
    fun name i => by rw [reread, ParamValue.ofText_display_int]
  have hbool : ∀ (name : String) (b : Bool), reread (name, .bool b) = (name, .bool b) :=
    fun name b => by rw [reread, ParamValue.ofText_display_bool]
  have hkind : reread ("ma_type", .text p.averageKind.name) =
      ("ma_type", .text p.averageKind.name) := by
    rw [reread, ParamValue.display, ofText_name]
  simp [allEntries, countValue, percentages, hint, hbool, hkind]

/-- The names have neither blanks nor equals signs. -/
theorem plain_of_mem_knownNames : ∀ name ∈ knownNames, ∀ c ∈ name.toList,
    isBlank c = false ∧ c ≠ '=' := by
  intro name hname
  simp only [knownNames, List.mem_cons, List.not_mem_nil, or_false] at hname
  rcases hname with
    rfl | rfl | rfl | rfl | rfl | rfl | rfl | rfl | rfl | rfl | rfl | rfl | rfl | rfl
  all_goals
    simp
    decide

theorem isFinite_of_mem_allEntries (hp : p.IsReadable) : ∀ e ∈ p.allEntries, e.2.IsFinite := by
  simp [allEntries, countValue, ParamValue.IsFinite, hp.takeProfitPct.1, hp.stopLossPct.1,
    hp.trailingActivationPct.1, hp.trailingDistancePct.1, hp.minSeparationPct.1]

theorem trimmed_of_mem_allEntries {t : String} {e : String × ParamValue} (he : e ∈ p.allEntries)
    (ht : e.2 = .text t) : trimmed t = t := by
  have hkind : t = p.averageKind.name := by
    simp only [allEntries, countValue, List.mem_cons, List.not_mem_nil, or_false] at he
    rcases he with rfl | rfl | rfl | rfl | rfl | rfl | rfl | rfl | rfl | rfl | rfl | rfl | rfl | rfl
    all_goals cases ht
    rfl
  rw [hkind]
  cases p.averageKind <;> rfl

/-- Each of the entries is read as an assignment. -/
theorem readAssignment?_of_mem_allEntries (hp : p.IsReadable) : ∀ e ∈ p.allEntries,
    readAssignment? (assignmentText e) = some (reread e) := by
  intro e he
  have hname : e.1 ∈ knownNames := names_allEntries p ▸ List.mem_map_of_mem he
  have hplain := plain_of_mem_knownNames _ hname
  have hblanks : trimmed e.1 = e.1 := trimmed_of_forall fun c hc => (hplain c hc).1
  have hvalue := ParamValue.trimmed_display (isFinite_of_mem_allEntries hp e he)
    fun t ht => trimmed_of_mem_allEntries he ht
  rw [assignmentText, readAssignment?_append fun c hc => (hplain c hc).2, hblanks, hvalue, reread]

/-- Each of the entries can be read again. -/
theorem isOk_assign_reread (hp : p.IsReadable) :
    ∀ e ∈ p.allEntries, (assign {} (reread e).1 (reread e).2).isOk = true := by
  intro e he
  rcases reread_or_of_mem e he with hsame | hpct
  · rw [hsame]
    exact isOk_assign_of_mem hp e he
  · obtain ⟨c, hc, rfl⟩ := List.mem_map.1 hpct
    obtain ⟨y, hy, -⟩ := @readPct_ofText_display c.1 _ ((isReadable_iff.1 hp).2 c hc)
    rw [isOk_eq_isNone_error?, reread, error?_assign_of_mem_percentages hc, hy]
    rfl

/-! ## The whole -/

/-- The entries of the set of all names, printed and read. -/
theorem entries_reread (p : CrossoverParams) :
    (NameMap.ofList (p.toSet.entries.map reread)).entries = p.toSet.entries.map reread := by
  refine NameMap.entries_ofList ?_
  rw [List.pairwise_map]
  exact p.toSet.increasing

theorem count_mem_allEntries {c : String × (CrossoverParams → Nat)} (hc : c ∈ counts) :
    (c.1, countValue (c.2 p)) ∈ p.allEntries := by
  simp only [counts, List.mem_cons, List.not_mem_nil, or_false] at hc
  rcases hc with rfl | rfl | rfl | rfl | rfl <;> simp [allEntries]

theorem percentage_mem_allEntries {c : String × (CrossoverParams → Float)} (hc : c ∈ percentages) :
    (c.1, ParamValue.float (c.2 p)) ∈ p.allEntries := by
  simp only [percentages, List.mem_cons, List.not_mem_nil, or_false] at hc
  rcases hc with rfl | rfl | rfl | rfl | rfl <;> simp [allEntries]

/-- Reading them gives equal parameters. -/
theorem equals_of_assignAll_reread (hp : p.IsReadable)
    (h : assignAll {} (NameMap.ofList (p.toSet.entries.map reread)).entries = .ok q) :
    q.Equals p := by
  have hmem : ∀ e ∈ p.allEntries,
      reread e ∈ (NameMap.ofList (p.toSet.entries.map reread)).entries := by
    intro e he
    rw [entries_reread]
    exact List.mem_map_of_mem ((entries_toSet_perm p).mem_iff.2 he)
  have hcount : ∀ c ∈ counts, c.2 q = c.2 p := by
    intro c hc
    have hentry := hmem _ (count_mem_allEntries hc)
    rw [reread, countValue, ParamValue.ofText_display_int] at hentry
    exact IsField.get_eq_of_mem (isField_of_mem_counts hc) hentry
      (readCount_countValue ((isReadable_iff.1 hp).1 c hc)) h
  have hpct : ∀ c ∈ percentages, (c.2 q == c.2 p) = true := by
    intro c hc
    obtain ⟨y, hy, hequal⟩ := @readPct_ofText_display c.1 _ ((isReadable_iff.1 hp).2 c hc)
    have hentry := hmem _ (percentage_mem_allEntries hc)
    rw [IsField.get_eq_of_mem (isField_of_mem_percentages hc) hentry hy h]
    exact hequal
  have hbool : ∀ {name : String} {get : CrossoverParams → Bool}, IsField name readBool get →
      (name, .bool (get p)) ∈ p.allEntries → get q = get p := by
    intro name get hfield hentry
    have hread := hmem _ hentry
    rw [reread, ParamValue.ofText_display_bool] at hread
    exact hfield.get_eq_of_mem hread (readBool_bool _) h
  have hkind : q.averageKind = p.averageKind := by
    have hread := hmem ("ma_type", .text p.averageKind.name) (by simp [allEntries])
    rw [reread, ParamValue.display, ofText_name] at hread
    exact isField_averageKind.get_eq_of_mem hread (readKind_name _) h
  simp only [counts, percentages, List.forall_mem_cons, List.not_mem_nil, false_implies,
    implies_true, and_true] at hcount hpct
  obtain ⟨hfast, hslow, hcooldown, hmultiplier, hperiod⟩ := hcount
  obtain ⟨htarget, hstop, hactivation, hdistance, hseparation⟩ := hpct
  exact ⟨hkind, hfast, hslow, htarget, hstop, hcooldown,
    hbool isField_enableShort (by simp [allEntries]),
    hbool isField_trailingStopEnabled (by simp [allEntries]), hactivation, hdistance,
    hbool isField_trendEnabled (by simp [allEntries]), hmultiplier, hperiod, hseparation⟩

/-- **The command line reads back what it prints.** The set that names every parameter is printed as
one assignment for each entry. For parameters that were read from a set, these assignments are
collected into a set again, and it makes equal parameters. -/
theorem ofSet_readParams_of_ofSet {s : ParamSet} (h : ofSet s = .ok p) :
    ∃ t q, Command.readParams (p.toSet.entries.map assignmentText) = .ok t ∧ ofSet t = .ok q ∧
      q.Equals p := by
  obtain ⟨hread, hfault⟩ := ofSet_eq_ok_iff.1 h
  have hp := isReadable_of_assignAll hread
  have hassignments : ∀ e ∈ p.toSet.entries,
      readAssignment? (assignmentText e) = some (reread e) := fun e he =>
    readAssignment?_of_mem_allEntries hp e ((entries_toSet_perm p).mem_iff.1 he)
  obtain ⟨q, hq⟩ :
      ∃ q, assignAll {} (NameMap.ofList (p.toSet.entries.map reread)).entries = .ok q := by
    rw [isOk_assignAll, entries_reread]
    intro e he
    obtain ⟨x, hx, rfl⟩ := List.mem_map.1 he
    exact isOk_assign_reread hp x ((entries_toSet_perm p).mem_iff.1 hx)
  have hequals := equals_of_assignAll_reread hp hq
  exact ⟨_, q, Command.readParams_map_assignmentText hassignments,
    ofSet_eq_ok_iff.2 ⟨hq, hequals.fault?_eq.trans hfault⟩, hequals⟩

/-- Large counts, a percentage without a fraction and a negative zero. -/
theorem ofSet_readParams_of_ofSet_mixed : ofSet mixedSet = .ok mixedParams ∧
    ∃ t q, Command.readParams (mixedParams.toSet.entries.map assignmentText) = .ok t ∧
      ofSet t = .ok q ∧ q.Equals mixedParams := by
  have h : ofSet mixedSet = .ok mixedParams := by rfl
  exact ⟨h, ofSet_readParams_of_ofSet h⟩

end CrossoverParams
end Backtest
