import Backtest.Proofs.Outcome
import Backtest.Proofs.Params.Overlay
import Backtest.Strategy.Params

/-!
# Parameters field by field

Every name writes one field and reads its value for it alone, whatever the other fields hold. So a
set of entries can be read if each of them can (`isOk_assignAll`), and after that a field has the
value that was read under its name, or the one it had if there was no entry for it
(`get_assignAll`).

## Main definitions

* `CrossoverParams.Assigns` — what one value does to all fields.
* `CrossoverParams.IsField` — a field that one name writes and no other.
* `CrossoverParams.isOk_assignAll` — entries can be read if each of them can.
* `CrossoverParams.IsField.get_assignAll` — where the value of a field comes from.
* `CrossoverParams.ofSet_eq_ok_iff` — a set makes parameters that were read and go together.
-/
namespace Backtest.CrossoverParams

variable {p q : CrossoverParams} {name : String} {v : ParamValue}

/-! ## One entry -/

/-- What a value under a name makes of the parameters: it is read for the field of that name, and
the others stay. -/
structure Assigns (name : String) (v : ParamValue) (p q : CrossoverParams) : Prop where
  averageKind : if name = "ma_type" then readKind name v = .ok q.averageKind
    else q.averageKind = p.averageKind
  fastPeriod : if name = "fast_period" then readCount name v = .ok q.fastPeriod
    else q.fastPeriod = p.fastPeriod
  slowPeriod : if name = "slow_period" then readCount name v = .ok q.slowPeriod
    else q.slowPeriod = p.slowPeriod
  takeProfitPct : if name = "take_profit_pct" then readPct name v = .ok q.takeProfitPct
    else q.takeProfitPct = p.takeProfitPct
  stopLossPct : if name = "stop_loss_pct" then readPct name v = .ok q.stopLossPct
    else q.stopLossPct = p.stopLossPct
  cooldownCandles : if name = "cooldown_candles" then readCount name v = .ok q.cooldownCandles
    else q.cooldownCandles = p.cooldownCandles
  enableShort : if name = "enable_short" then readBool name v = .ok q.enableShort
    else q.enableShort = p.enableShort
  trailingStopEnabled :
    if name = "trailing_stop_enabled" then readBool name v = .ok q.trailingStopEnabled
    else q.trailingStopEnabled = p.trailingStopEnabled
  trailingActivationPct :
    if name = "trailing_activation_pct" then readPct name v = .ok q.trailingActivationPct
    else q.trailingActivationPct = p.trailingActivationPct
  trailingDistancePct :
    if name = "trailing_distance_pct" then readPct name v = .ok q.trailingDistancePct
    else q.trailingDistancePct = p.trailingDistancePct
  trendEnabled : if name = "htf_bias_enabled" then readBool name v = .ok q.trendEnabled
    else q.trendEnabled = p.trendEnabled
  trendMultiplier : if name = "htf_multiplier" then readCount name v = .ok q.trendMultiplier
    else q.trendMultiplier = p.trendMultiplier
  trendPeriod : if name = "htf_ema_period" then readCount name v = .ok q.trendPeriod
    else q.trendPeriod = p.trendPeriod
  minSeparationPct : if name = "min_separation_pct" then readPct name v = .ok q.minSeparationPct
    else q.minSeparationPct = p.minSeparationPct

theorem assigns_of_assign (h : p.assign name v = .ok q) : Assigns name v p q := by
  unfold assign at h
  split at h
  case h_15 => cases h
  all_goals
    obtain ⟨x, hx, h⟩ := bind_eq_ok_iff.1 h
    cases h
    constructor <;> simp [hx]

/-- How a value under a name fails to be read has nothing to do with the other fields. -/
theorem error?_assign_congr (p q : CrossoverParams) (name : String) (v : ParamValue) :
    error? (p.assign name v) = error? (q.assign name v) := by
  unfold assign
  split
  case h_15 => rfl
  all_goals
    simp only [bind, Except.bind]
    split
    · rfl
    · rfl

/-- Nor has whether it can be read. -/
theorem isOk_assign_congr (p q : CrossoverParams) (name : String) (v : ParamValue) :
    (p.assign name v).isOk = (q.assign name v).isOk := by
  rw [isOk_eq_isNone_error?, isOk_eq_isNone_error?, error?_assign_congr p q]

/-- A field that one name writes and no other. -/
def IsField {β : Type} (name : String) (read : String → ParamValue → Except ParamError β)
    (get : CrossoverParams → β) : Prop :=
  ∀ {p q : CrossoverParams} {n : String} {v : ParamValue}, p.assign n v = .ok q →
    if n = name then read n v = .ok (get q) else get q = get p

theorem isField_averageKind : IsField "ma_type" readKind averageKind :=
  fun h => (assigns_of_assign h).averageKind

theorem isField_fastPeriod : IsField "fast_period" readCount fastPeriod :=
  fun h => (assigns_of_assign h).fastPeriod

theorem isField_slowPeriod : IsField "slow_period" readCount slowPeriod :=
  fun h => (assigns_of_assign h).slowPeriod

theorem isField_takeProfitPct : IsField "take_profit_pct" readPct takeProfitPct :=
  fun h => (assigns_of_assign h).takeProfitPct

theorem isField_stopLossPct : IsField "stop_loss_pct" readPct stopLossPct :=
  fun h => (assigns_of_assign h).stopLossPct

theorem isField_cooldownCandles : IsField "cooldown_candles" readCount cooldownCandles :=
  fun h => (assigns_of_assign h).cooldownCandles

theorem isField_enableShort : IsField "enable_short" readBool enableShort :=
  fun h => (assigns_of_assign h).enableShort

theorem isField_trailingStopEnabled :
    IsField "trailing_stop_enabled" readBool trailingStopEnabled :=
  fun h => (assigns_of_assign h).trailingStopEnabled

theorem isField_trailingActivationPct :
    IsField "trailing_activation_pct" readPct trailingActivationPct :=
  fun h => (assigns_of_assign h).trailingActivationPct

theorem isField_trailingDistancePct :
    IsField "trailing_distance_pct" readPct trailingDistancePct :=
  fun h => (assigns_of_assign h).trailingDistancePct

theorem isField_trendEnabled : IsField "htf_bias_enabled" readBool trendEnabled :=
  fun h => (assigns_of_assign h).trendEnabled

theorem isField_trendMultiplier : IsField "htf_multiplier" readCount trendMultiplier :=
  fun h => (assigns_of_assign h).trendMultiplier

theorem isField_trendPeriod : IsField "htf_ema_period" readCount trendPeriod :=
  fun h => (assigns_of_assign h).trendPeriod

theorem isField_minSeparationPct : IsField "min_separation_pct" readPct minSeparationPct :=
  fun h => (assigns_of_assign h).minSeparationPct

/-! ## All entries -/

variable {es : List (String × ParamValue)}

theorem assignAll_cons_eq_ok_iff {e : String × ParamValue} :
    assignAll p (e :: es) = .ok q ↔ ∃ r, p.assign e.1 e.2 = .ok r ∧ assignAll r es = .ok q := by
  rw [assignAll, List.foldlM_cons, bind_eq_ok_iff]
  rfl

/-- Entries can be read if each of them can. -/
theorem isOk_assignAll (p : CrossoverParams) (es : List (String × ParamValue)) :
    (∃ q, assignAll p es = .ok q) ↔ ∀ e ∈ es, (assign {} e.1 e.2).isOk = true := by
  induction es generalizing p with
  | nil => exact ⟨fun _ e he => absurd he List.not_mem_nil, fun _ => ⟨p, rfl⟩⟩
  | cons e rest ih =>
    simp only [assignAll_cons_eq_ok_iff, List.forall_mem_cons]
    constructor
    · rintro ⟨q, r, hr, hq⟩
      refine ⟨?_, (ih r).1 ⟨q, hq⟩⟩
      rw [isOk_assign_congr {} p, hr]
      rfl
    · rintro ⟨he, hrest⟩
      rw [isOk_assign_congr {} p] at he
      obtain ⟨r, hr⟩ := exists_eq_ok he
      obtain ⟨q, hq⟩ := (ih r).2 hrest
      exact ⟨q, r, hr, hq⟩

/-- Entries fail as the first one does that cannot be read. -/
theorem error?_assignAll (p : CrossoverParams) (es : List (String × ParamValue)) :
    error? (assignAll p es) = es.findSome? fun e => error? (assign {} e.1 e.2) := by
  induction es generalizing p with
  | nil => rfl
  | cons e rest ih =>
    rw [assignAll, List.foldlM_cons, List.findSome?_cons, error?_assign_congr {} p]
    cases p.assign e.1 e.2 with
    | error f => rfl
    | ok r => exact ih r

section Field

variable {β : Type} {read : String → ParamValue → Except ParamError β} {get : CrossoverParams → β}

/-- A field has the value of an entry under its name, or there is none and it is what it was. -/
theorem IsField.get_assignAll (hfield : IsField name read get) (h : assignAll p es = .ok q) :
    (∃ v, (name, v) ∈ es ∧ read name v = .ok (get q)) ∨
      ((∀ e ∈ es, e.1 ≠ name) ∧ get q = get p) := by
  induction es generalizing p with
  | nil =>
    cases h
    exact .inr ⟨fun e he => absurd he List.not_mem_nil, rfl⟩
  | cons e rest ih =>
    obtain ⟨r, hr, hq⟩ := assignAll_cons_eq_ok_iff.1 h
    rcases ih hq with ⟨v, hv, hread⟩ | ⟨hnone, hkept⟩
    · exact .inl ⟨v, List.mem_cons_of_mem e hv, hread⟩
    · have hwrites := hfield hr
      by_cases hname : e.1 = name
      · subst hname
        rw [if_pos rfl, ← hkept] at hwrites
        exact .inl ⟨e.2, List.mem_cons_self, hwrites⟩
      · rw [if_neg hname] at hwrites
        exact .inr ⟨List.forall_mem_cons.2 ⟨hname, hnone⟩, hkept.trans hwrites⟩

/-- What a set makes of a field other than its default, every larger set makes of it. -/
theorem IsField.get_eq_of_subset (hfield : IsField name read get) {s t : ParamSet}
    (hsubset : ∀ e ∈ s.entries, e ∈ t.entries) (hs : assignAll {} s.entries = .ok p)
    (ht : assignAll {} t.entries = .ok q) (hne : get p ≠ get {}) : get q = get p := by
  obtain ⟨v, hv, hread⟩ := (hfield.get_assignAll hs).resolve_right fun h => hne h.2
  rcases hfield.get_assignAll ht with ⟨w, hw, hread'⟩ | ⟨hnone, -⟩
  · obtain rfl := NameMap.eq_of_mem_of_mem hw (hsubset _ hv)
    exact Except.ok.inj (hread'.symm.trans hread)
  · exact absurd rfl (hnone _ (hsubset _ hv))

end Field

/-! ## The whole -/

/-- The fields are in their ranges, the order of the two periods aside. -/
structure InRange (p : CrossoverParams) : Prop where
  fast : p.fastPeriod ≠ 0
  trailing : p.trailingStopEnabled = true → ¬ p.trailingDistancePct ≤ 0
  multiplier : p.trendEnabled = true → 2 ≤ p.trendMultiplier
  period : p.trendEnabled = true → p.trendPeriod ≠ 0

theorem InRange.fault?_eq (h : p.InRange) :
    p.fault? = if p.slowPeriod ≤ p.fastPeriod then
      some (.fastNotBelowSlow p.fastPeriod p.slowPeriod) else none := by
  have htrailing : ¬(p.trailingStopEnabled = true ∧ p.trailingDistancePct ≤ 0) :=
    fun ht => h.trailing ht.1 ht.2
  have hmultiplier : ¬(p.trendEnabled = true ∧ p.trendMultiplier < 2) :=
    fun ht => Nat.not_lt.2 (h.multiplier ht.1) ht.2
  have hperiod : ¬(p.trendEnabled = true ∧ p.trendPeriod = 0) := fun ht => h.period ht.1 ht.2
  rw [fault?, if_neg h.fast, if_neg htrailing, if_neg hmultiplier, if_neg hperiod]

theorem inRange_of_fault?_eq_none (h : p.fault? = none) : p.InRange := by
  rw [fault?] at h
  split at h
  · cases h
  · rename_i hfast
    split at h
    · cases h
    · split at h
      · cases h
      · rename_i htrailing
        split at h
        · cases h
        · rename_i hmultiplier
          split at h
          · cases h
          · rename_i hperiod
            exact ⟨hfast, fun ht hle => htrailing ⟨ht, hle⟩,
              fun ht => Nat.not_lt.1 fun hlt => hmultiplier ⟨ht, hlt⟩,
              fun ht hzero => hperiod ⟨ht, hzero⟩⟩

/-- Entries that can be read make parameters unless these do not go together. -/
theorem ofSet_of_assignAll {s : ParamSet} (h : assignAll {} s.entries = .ok p) :
    ofSet s = match p.fault? with
      | some e => .error e
      | none => .ok p := by
  rw [ofSet, h]
  change (p.validate >>= fun _ => pure p) = _
  rw [validate]
  cases p.fault? with
  | none => rfl
  | some e => rfl

theorem ofSet_eq_ok_iff {s : ParamSet} :
    ofSet s = .ok p ↔ assignAll {} s.entries = .ok p ∧ p.fault? = none := by
  cases hread : assignAll {} s.entries with
  | error e =>
    rw [ofSet, hread]
    exact ⟨fun h => (nomatch h), fun h => (nomatch h.1)⟩
  | ok r =>
    rw [ofSet_of_assignAll hread]
    constructor
    · intro h
      split at h
      · cases h
      · rename_i hfault
        cases h
        exact ⟨rfl, hfault⟩
    · rintro ⟨h, hfault⟩
      cases h
      rw [hfault]

end Backtest.CrossoverParams
