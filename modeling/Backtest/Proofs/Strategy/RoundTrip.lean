import Backtest.Proofs.Strategy.Counts

/-!
# Parameters as a set of all names

Parameters that were read from a set hold no count and no percentage that a set could not give them
again, whether it came as an integer, as a double without a fraction, or from the defaults. The set
that names every parameter therefore makes the same parameters: each field is read from the one
entry under its name, and what was written for it is read as it was.

## Main definitions

* `CrossoverParams.IsReadable` — fields that a set can give their values.
* `CrossoverParams.percentages` — the parameters that are percentages.
* `CrossoverParams.isReadable_iff` — counts and percentages in range are all it takes.
* `CrossoverParams.isReadable_of_assignAll` — what was read can be read again.
* `CrossoverParams.entries_toSet_perm` — the entries of the set of all names.
* `CrossoverParams.assignAll_toSet` — reading them gives the fields back.
-/
namespace Backtest.CrossoverParams

variable {p q : CrossoverParams} {name : String} {v : ParamValue}

/-! ## Values that can be read -/

/-- A percentage that can be read: finite and not below zero. -/
abbrev IsPct (x : Float) : Prop := x.isFinite = true ∧ ¬ x < 0

theorem isReadableCount_of_readCount {n : Nat} (h : readCount name v = .ok n) :
    IsReadableCount n := by
  obtain ⟨k, -, rfl⟩ := readCount_eq_ok_iff.1 h
  omega

theorem isPct_of_readPct {x : Float} (h : readPct name v = .ok x) : IsPct x := by
  rw [readPct] at h
  split at h
  · cases h
  · split at h
    · rename_i hpct
      cases h
      exact hpct
    · cases h

theorem readCount_countValue {n : Nat} (hn : IsReadableCount n) :
    readCount name (countValue n) = .ok n := by
  have hint : (countValue n).int? = some (n : Int) :=
    congrArg some (Int64.toInt_ofNat_of_lt hn)
  rw [readCount, hint]
  exact if_neg (by omega)

theorem readPct_float {x : Float} (hx : IsPct x) : readPct name (.float x) = .ok x := if_pos hx

theorem readPct_float_of_not {x : Float} (hx : ¬ IsPct x) :
    readPct name (.float x) = .error (.outOfRange name .finiteNonnegative) := if_neg hx

theorem readBool_bool (b : Bool) : readBool name (.bool b) = .ok b := rfl

theorem readKind_name (k : AverageKind) : readKind name (.text k.name) = .ok k := by
  cases k <;> rfl

/-! ## Parameters that were read -/

/-- Every count and percentage is one that a set can give. -/
structure IsReadable (p : CrossoverParams) : Prop where
  fastPeriod : IsReadableCount p.fastPeriod
  slowPeriod : IsReadableCount p.slowPeriod
  takeProfitPct : IsPct p.takeProfitPct
  stopLossPct : IsPct p.stopLossPct
  cooldownCandles : IsReadableCount p.cooldownCandles
  trailingActivationPct : IsPct p.trailingActivationPct
  trailingDistancePct : IsPct p.trailingDistancePct
  trendMultiplier : IsReadableCount p.trendMultiplier
  trendPeriod : IsReadableCount p.trendPeriod
  minSeparationPct : IsPct p.minSeparationPct

/-- The parameters that are percentages, by their names. -/
def percentages : List (String × (CrossoverParams → Float)) :=
  [("take_profit_pct", takeProfitPct), ("stop_loss_pct", stopLossPct),
    ("trailing_activation_pct", trailingActivationPct),
    ("trailing_distance_pct", trailingDistancePct), ("min_separation_pct", minSeparationPct)]

theorem isField_of_mem_percentages {c : String × (CrossoverParams → Float)} (hc : c ∈ percentages) :
    IsField c.1 readPct c.2 := by
  simp only [percentages, List.mem_cons, List.not_mem_nil, or_false] at hc
  rcases hc with rfl | rfl | rfl | rfl | rfl
  · exact isField_takeProfitPct
  · exact isField_stopLossPct
  · exact isField_trailingActivationPct
  · exact isField_trailingDistancePct
  · exact isField_minSeparationPct

theorem isReadable_iff : p.IsReadable ↔
    (∀ c ∈ counts, IsReadableCount (c.2 p)) ∧ ∀ c ∈ percentages, IsPct (c.2 p) := by
  simp only [counts, percentages, List.forall_mem_cons, List.not_mem_nil, false_implies,
    implies_true, and_true]
  constructor
  · intro hp
    exact ⟨⟨hp.fastPeriod, hp.slowPeriod, hp.cooldownCandles, hp.trendMultiplier, hp.trendPeriod⟩,
      hp.takeProfitPct, hp.stopLossPct, hp.trailingActivationPct, hp.trailingDistancePct,
      hp.minSeparationPct⟩
  · rintro ⟨⟨hfast, hslow, hcooldown, hmultiplier, hperiod⟩, htarget, hstop, hactivation, hdistance,
      hseparation⟩
    exact ⟨hfast, hslow, htarget, hstop, hcooldown, hactivation, hdistance, hmultiplier, hperiod,
      hseparation⟩

section Field

variable {β : Type} {read : String → ParamValue → Except ParamError β} {get : CrossoverParams → β}
  {es : List (String × ParamValue)} {s : ParamSet}

/-- What is true of the default of a field and of all that is read for it is true after reading. -/
theorem IsField.holds_assignAll (hfield : IsField name read get) {P : β → Prop}
    (hdefault : P (get p)) (hread : ∀ v x, read name v = .ok x → P x)
    (h : assignAll p es = .ok q) : P (get q) := by
  rcases hfield.get_assignAll h with ⟨v, -, hv⟩ | ⟨-, hkept⟩
  · exact hread v _ hv
  · rwa [hkept]

/-- An entry of a set is read for the field of its name. -/
theorem IsField.get_eq_of_mem (hfield : IsField name read get) {x : β} (hv : (name, v) ∈ s.entries)
    (hx : read name v = .ok x) (h : assignAll p s.entries = .ok q) : get q = x := by
  rcases hfield.get_assignAll h with ⟨w, hw, hread⟩ | ⟨hnone, -⟩
  · obtain rfl := NameMap.eq_of_mem_of_mem hw hv
    exact Except.ok.inj (hread.symm.trans hx)
  · exact absurd rfl (hnone _ hv)

end Field

/-- What was read over the defaults can be read again. -/
theorem isReadable_of_assignAll {es : List (String × ParamValue)} (h : assignAll {} es = .ok p) :
    p.IsReadable := by
  have hcounts : ∀ c ∈ counts, IsReadableCount (c.2 {}) := by decide
  have hpercentages : ∀ c ∈ percentages, IsPct (c.2 {}) := by decide
  rw [isReadable_iff]
  constructor
  · intro c hc
    exact IsField.holds_assignAll (isField_of_mem_counts hc) (hcounts c hc)
      (fun _ _ => isReadableCount_of_readCount) h
  · intro c hc
    exact IsField.holds_assignAll (isField_of_mem_percentages hc) (hpercentages c hc)
      (fun _ _ => isPct_of_readPct) h

/-! ## The set of all names -/

/-- One entry for every parameter, in the order of `knownNames`. -/
def allEntries (p : CrossoverParams) : List (String × ParamValue) :=
  [("ma_type", .text p.averageKind.name),
    ("fast_period", countValue p.fastPeriod),
    ("slow_period", countValue p.slowPeriod),
    ("take_profit_pct", .float p.takeProfitPct),
    ("stop_loss_pct", .float p.stopLossPct),
    ("cooldown_candles", countValue p.cooldownCandles),
    ("enable_short", .bool p.enableShort),
    ("trailing_stop_enabled", .bool p.trailingStopEnabled),
    ("trailing_activation_pct", .float p.trailingActivationPct),
    ("trailing_distance_pct", .float p.trailingDistancePct),
    ("htf_bias_enabled", .bool p.trendEnabled),
    ("htf_multiplier", countValue p.trendMultiplier),
    ("htf_ema_period", countValue p.trendPeriod),
    ("min_separation_pct", .float p.minSeparationPct)]

theorem names_allEntries (p : CrossoverParams) : p.allEntries.map (·.1) = knownNames := rfl

theorem entries_toSet_perm (p : CrossoverParams) : p.toSet.entries.Perm p.allEntries := by
  have hnodup : (p.allEntries.map (·.1)).Nodup := by
    rw [names_allEntries]
    decide
  exact NameMap.entries_ofList_perm hnodup

theorem names_toSet_perm (p : CrossoverParams) : p.toSet.names.Perm knownNames := by
  rw [← names_allEntries p]
  exact (entries_toSet_perm p).map _

/-- A value under the name of a percentage fails as the reading of a percentage does. -/
theorem error?_assign_of_mem_percentages {c : String × (CrossoverParams → Float)}
    (hc : c ∈ percentages) : error? (assign {} c.1 v) = error? (readPct c.1 v) := by
  simp only [percentages, List.mem_cons, List.not_mem_nil, or_false] at hc
  rcases hc with rfl | rfl | rfl | rfl | rfl
  all_goals
    rw [assign]
    cases readPct _ v with
    | error e => rfl
    | ok x => rfl

/-- With counts of 64 bits each of the entries can be read, or it is a percentage. -/
theorem isOk_assign_or_of_mem (hp : ∀ c ∈ counts, IsReadableCount (c.2 p)) :
    ∀ e ∈ p.allEntries, (assign {} e.1 e.2).isOk = true ∨
      e ∈ percentages.map fun c => (c.1, ParamValue.float (c.2 p)) := by
  have hok : ∀ {β : Type} {x : Except ParamError β} {b : β} {f : β → CrossoverParams} {r : Prop},
      x = .ok b → (x >>= fun b => pure (f b)).isOk = true ∨ r := by
    rintro β x b f r rfl
    exact .inl rfl
  simp only [counts, List.forall_mem_cons, List.not_mem_nil, false_implies, implies_true,
    and_true] at hp
  obtain ⟨hfast, hslow, hcooldown, hmultiplier, hperiod⟩ := hp
  simp only [allEntries, List.forall_mem_cons, assign]
  exact ⟨hok (readKind_name _), hok (readCount_countValue hfast), hok (readCount_countValue hslow),
    .inr (by simp [percentages]), .inr (by simp [percentages]),
    hok (readCount_countValue hcooldown), hok (readBool_bool _), hok (readBool_bool _),
    .inr (by simp [percentages]), .inr (by simp [percentages]), hok (readBool_bool _),
    hok (readCount_countValue hmultiplier), hok (readCount_countValue hperiod),
    .inr (by simp [percentages]), fun _ h => absurd h List.not_mem_nil⟩

/-- Each of the entries can be read. -/
theorem isOk_assign_of_mem (hp : p.IsReadable) :
    ∀ e ∈ p.allEntries, (assign {} e.1 e.2).isOk = true := by
  intro e he
  obtain ⟨hcounts, hpercentages⟩ := isReadable_iff.1 hp
  rcases isOk_assign_or_of_mem hcounts e he with hok | hpct
  · exact hok
  · obtain ⟨c, hc, rfl⟩ := List.mem_map.1 hpct
    rw [isOk_eq_isNone_error?, error?_assign_of_mem_percentages hc,
      readPct_float (hpercentages c hc)]
    rfl

/-- Reading the set of all names gives every field back. -/
theorem assignAll_toSet (hp : p.IsReadable) : assignAll {} p.toSet.entries = .ok p := by
  obtain ⟨q, hq⟩ := (isOk_assignAll {} p.toSet.entries).2 fun e he =>
    isOk_assign_of_mem hp e ((entries_toSet_perm p).mem_iff.1 he)
  have hread {β : Type} {name : String} {v : ParamValue} {x : β}
      {read : String → ParamValue → Except ParamError β} {get : CrossoverParams → β}
      (hfield : IsField name read get) (hmem : (name, v) ∈ p.allEntries)
      (hx : read name v = .ok x) : get q = x :=
    hfield.get_eq_of_mem ((entries_toSet_perm p).mem_iff.2 hmem) hx hq
  have heq : q = p := by
    have hkind := hread isField_averageKind (by simp [allEntries]) (readKind_name p.averageKind)
    have hfast := hread isField_fastPeriod (by simp [allEntries])
      (readCount_countValue hp.fastPeriod)
    have hslow := hread isField_slowPeriod (by simp [allEntries])
      (readCount_countValue hp.slowPeriod)
    have htarget := hread isField_takeProfitPct (by simp [allEntries])
      (readPct_float hp.takeProfitPct)
    have hstop := hread isField_stopLossPct (by simp [allEntries])
      (readPct_float hp.stopLossPct)
    have hcooldown := hread isField_cooldownCandles (by simp [allEntries])
      (readCount_countValue hp.cooldownCandles)
    have hshort := hread isField_enableShort (by simp [allEntries])
      (readBool_bool p.enableShort)
    have htrailing := hread isField_trailingStopEnabled (by simp [allEntries])
      (readBool_bool p.trailingStopEnabled)
    have hactivation := hread isField_trailingActivationPct (by simp [allEntries])
      (readPct_float hp.trailingActivationPct)
    have hdistance := hread isField_trailingDistancePct (by simp [allEntries])
      (readPct_float hp.trailingDistancePct)
    have htrend := hread isField_trendEnabled (by simp [allEntries])
      (readBool_bool p.trendEnabled)
    have hmultiplier := hread isField_trendMultiplier (by simp [allEntries])
      (readCount_countValue hp.trendMultiplier)
    have hperiod := hread isField_trendPeriod (by simp [allEntries])
      (readCount_countValue hp.trendPeriod)
    have hseparation := hread isField_minSeparationPct (by simp [allEntries])
      (readPct_float hp.minSeparationPct)
    cases q
    cases p
    rw [mk.injEq]
    exact ⟨hkind, hfast, hslow, htarget, hstop, hcooldown, hshort, htrailing, hactivation,
      hdistance, htrend, hmultiplier, hperiod, hseparation⟩
  rw [hq, heq]

/-- Parameters that were read from a set go together, and the set that names them all has every
known name once and is read as the same parameters. -/
theorem ofSet_toSet_of_ofSet {s : ParamSet} (h : ofSet s = .ok p) :
    p.validate = .ok () ∧ p.toSet.names.Perm knownNames ∧ ofSet p.toSet = .ok p := by
  obtain ⟨hread, hfault⟩ := ofSet_eq_ok_iff.1 h
  refine ⟨?_, names_toSet_perm p, ?_⟩
  · rw [validate, hfault]
  · exact ofSet_eq_ok_iff.2 ⟨assignAll_toSet (isReadable_of_assignAll hread), hfault⟩

/-- A set of every kind of spelling: a name of an average in capitals, doubles for counts (one of
them beyond all counts), integers for percentages, and a negative zero. -/
def mixedSet : ParamSet :=
  .ofList [("ma_type", .text "SmA"), ("fast_period", .float 7), ("slow_period", .float 1e19),
    ("take_profit_pct", .int 2), ("stop_loss_pct", .float (-0.0)), ("enable_short", .bool true),
    ("htf_multiplier", .int 9223372036854775807)]

/-- What it is read as. -/
def mixedParams : CrossoverParams where
  averageKind := .simple
  fastPeriod := 7
  slowPeriod := 9223372036854775807
  takeProfitPct := 2
  stopLossPct := -0.0
  enableShort := true
  trendMultiplier := 9223372036854775807

theorem ofSet_toSet_of_ofSet_mixed : ofSet mixedSet = .ok mixedParams ∧
    mixedParams.validate = .ok () ∧ mixedParams.toSet.names.Perm knownNames ∧
      ofSet mixedParams.toSet = .ok mixedParams := by
  have h : ofSet mixedSet = .ok mixedParams := by rfl
  exact ⟨h, ofSet_toSet_of_ofSet h⟩

end Backtest.CrossoverParams
