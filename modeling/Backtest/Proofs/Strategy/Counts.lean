import Backtest.Proofs.Number.Integral
import Backtest.Proofs.Strategy.Fields

/-!
# Counts among the parameters

A count can be given as an integer or as a double without a fraction. Either denotes an integer, and
what denotes none, or a negative one, is refused. An integer of 64 bits with a sign is read as it
is. A double can denote a larger one, though, and is then not refused: it is read as the greatest
integer of 64 bits instead.

## Main definitions

* `ParamValue.Denotes` — the integer that a value is, whatever kind it comes as.
* `CrossoverParams.counts` — the parameters that are counts.
* `CrossoverParams.readCount_eq_ok_iff` — which values are read as a count, and as which.
* `CrossoverParams.ofSet_reads_or_clamps_counts` — what a set makes of the counts it gives.
* `CrossoverParams.not_all_counts_exact` — the power of two that is read as one less.
-/
namespace Backtest

namespace ParamValue

variable {v : ParamValue} {n : ℤ}

/-- The integer that a number is, whatever kind it comes as. -/
def Denotes : ParamValue → ℤ → Prop
  | int i, n => i.toInt = n
  | float x, n => Binary64.exactValue? x = some (n : ℚ)
  | bool _, _ => False
  | text _, _ => False

theorem Denotes.unique {m : ℤ} (hm : v.Denotes m) (hn : v.Denotes n) : m = n := by
  cases v with
  | int i => exact Eq.trans (Eq.symm hm) hn
  | float x => exact Int.cast_injective (α := ℚ) (Option.some.inj (Eq.trans (Eq.symm hm) hn))
  | bool b => exact hm.elim
  | text s => exact hm.elim

/-- The integer of a value, moved to the nearer end where 64 bits do not hold it. -/
theorem int?_of_denotes (h : v.Denotes n) :
    v.int? = some (Max.max (-9223372036854775808) (Min.min 9223372036854775807 n)) := by
  cases v with
  | int i =>
    obtain rfl : i.toInt = n := h
    have hleast := i.le_toInt
    have hgreatest := i.toInt_lt
    rw [int?, Option.some.injEq]
    omega
  | float x =>
    rw [int?, if_pos (Binary64.isIntegral_iff.2 ⟨n, h⟩), Binary64.toIntClamped_eq _ _ h]
  | bool b => exact h.elim
  | text s => exact h.elim

theorem int?_eq_none_iff : v.int? = none ↔ ∀ n, ¬ v.Denotes n := by
  constructor
  · intro h n hn
    rw [int?_of_denotes hn] at h
    cases h
  · intro h
    cases v with
    | int i => exact absurd rfl (h i.toInt)
    | float x => exact if_neg fun hx => (Binary64.isIntegral_iff.1 hx).elim h
    | bool b => rfl
    | text s => rfl

end ParamValue

namespace CrossoverParams

variable {p : CrossoverParams} {name : String} {v : ParamValue}

/-! ## One count -/

/-- A count that can be read: one of 64 bits with a sign. -/
abbrev IsReadableCount (n : Nat) : Prop := n < 9223372036854775808

theorem readCount_of_denotes {n : ℕ} (h : v.Denotes n) :
    readCount name v = .ok (Min.min n 9223372036854775807) := by
  rw [readCount, ParamValue.int?_of_denotes h]
  dsimp only
  rw [if_neg (by omega)]
  congr 1
  omega

theorem readCount_of_denotes_neg {n : ℤ} (h : v.Denotes n) (hn : n < 0) :
    readCount name v = .error (.outOfRange name .nonnegative) := by
  rw [readCount, ParamValue.int?_of_denotes h]
  exact if_pos (by omega)

theorem readCount_of_not_denotes (h : ∀ n, ¬ v.Denotes n) :
    readCount name v = .error (.wrongKind name .int v) := by
  rw [readCount, ParamValue.int?_eq_none_iff.2 h]

/-- What is read as a count denotes a natural number, and is read as the number or the greatest one
of 64 bits with a sign, whichever is less. -/
theorem readCount_eq_ok_iff {k : ℕ} :
    readCount name v = .ok k ↔ ∃ n : ℕ, v.Denotes n ∧ k = Min.min n 9223372036854775807 := by
  constructor
  · intro h
    by_cases hv : ∀ n, ¬ v.Denotes n
    · rw [readCount_of_not_denotes hv] at h
      cases h
    · obtain ⟨n, hn⟩ := not_forall_not.1 hv
      rcases lt_or_ge n 0 with hneg | hpos
      · rw [readCount_of_denotes_neg hn hneg] at h
        cases h
      · lift n to ℕ using hpos
        rw [readCount_of_denotes hn] at h
        cases h
        exact ⟨n, hn, rfl⟩
  · rintro ⟨n, hn, rfl⟩
    exact readCount_of_denotes hn

/-! ## The counts of a set -/

/-- The parameters that are counts, by their names. -/
def counts : List (String × (CrossoverParams → Nat)) :=
  [("fast_period", fastPeriod), ("slow_period", slowPeriod), ("cooldown_candles", cooldownCandles),
    ("htf_multiplier", trendMultiplier), ("htf_ema_period", trendPeriod)]

variable {c : String × (CrossoverParams → Nat)} {s : ParamSet}

theorem isField_of_mem_counts (hc : c ∈ counts) : IsField c.1 readCount c.2 := by
  simp only [counts, List.mem_cons, List.not_mem_nil, or_false] at hc
  rcases hc with rfl | rfl | rfl | rfl | rfl
  · exact isField_fastPeriod
  · exact isField_slowPeriod
  · exact isField_cooldownCandles
  · exact isField_trendMultiplier
  · exact isField_trendPeriod

/-- A value under the name of a count fails as the reading of a count does. -/
theorem assign_eq_error_of_mem_counts (hc : c ∈ counts) {e : ParamError}
    (h : readCount c.1 v = .error e) : assign {} c.1 v = .error e := by
  simp only [counts, List.mem_cons, List.not_mem_nil, or_false] at hc
  rcases hc with rfl | rfl | rfl | rfl | rfl
  all_goals
    rw [assign, h]
    rfl

/-- A set fails with the error of its first entry that cannot be read. -/
theorem ofSet_eq_error_of_first {e : ParamError} (hv : (name, v) ∈ s.entries)
    (herror : assign {} name v = .error e)
    (hfirst : ∀ x ∈ s.entries, x.1 < name → (assign {} x.1 x.2).isOk = true) :
    ofSet s = .error e := by
  obtain ⟨before, after, hsplit⟩ := List.append_of_mem hv
  have hbefore : before.findSome? (fun x => error? (assign {} x.1 x.2)) = none := by
    rw [List.findSome?_eq_none_iff]
    intro x hx
    have hlt : x.1 < name := by
      have hincreasing := s.increasing
      rw [hsplit, List.pairwise_append] at hincreasing
      exact hincreasing.2.2 x hx _ List.mem_cons_self
    have hok := hfirst x (hsplit ▸ List.mem_append_left _ hx) hlt
    rw [isOk_eq_isNone_error?] at hok
    exact Option.isNone_iff_eq_none.1 hok
  have hread : error? (assignAll {} s.entries) = some e := by
    rw [error?_assignAll, hsplit, List.findSome?_append, hbefore, Option.none_or,
      List.findSome?_cons, herror]
    rfl
  rw [ofSet, error?_eq_some_iff.1 hread]
  rfl

/-- **Counts are read exactly or not at all, up to the greatest of 64 bits with a sign.** A set that
makes parameters gives every count a value that denotes a natural number. The field is that number,
or the greatest one if it is larger. A value that denotes none is an error: if it is the first entry
that cannot be read, the refusal of a negative number, or that of a value of another kind. -/
theorem ofSet_reads_or_clamps_counts (hc : c ∈ counts) (hv : (c.1, v) ∈ s.entries) :
    (∀ p, ofSet s = .ok p → ∃ n : ℕ, v.Denotes n ∧ (IsReadableCount n → c.2 p = n) ∧
        (¬ IsReadableCount n → c.2 p = 9223372036854775807)) ∧
      ((∀ n : ℕ, ¬ v.Denotes n) → ∃ e, ofSet s = .error e) ∧
      ((∀ x ∈ s.entries, x.1 < c.1 → (assign {} x.1 x.2).isOk = true) →
        (∀ n : ℤ, v.Denotes n → n < 0 → ofSet s = .error (.outOfRange c.1 .nonnegative)) ∧
        ((∀ n : ℤ, ¬ v.Denotes n) → ofSet s = .error (.wrongKind c.1 .int v))) := by
  have hvalue : ∀ p, ofSet s = .ok p →
      ∃ n : ℕ, v.Denotes n ∧ c.2 p = Min.min n 9223372036854775807 := by
    intro p hp
    have hsource := IsField.get_assignAll (isField_of_mem_counts hc) (ofSet_eq_ok_iff.1 hp).1
    rcases hsource with ⟨w, hw, hread⟩ | ⟨hnone, -⟩
    · obtain rfl := NameMap.eq_of_mem_of_mem hw hv
      exact readCount_eq_ok_iff.1 hread
    · exact absurd rfl (hnone _ hv)
  refine ⟨fun p hp => ?_, fun hnone => ?_, fun hfirst => ⟨fun n hn hneg => ?_, fun hnone => ?_⟩⟩
  · obtain ⟨n, hn, hcount⟩ := hvalue p hp
    exact ⟨n, hn, fun hfits => by omega, fun hlarge => by omega⟩
  · cases hs : ofSet s with
    | error e => exact ⟨e, rfl⟩
    | ok p =>
      obtain ⟨n, hn, -⟩ := hvalue p hs
      exact absurd hn (hnone n)
  · exact ofSet_eq_error_of_first hv
      (assign_eq_error_of_mem_counts hc (readCount_of_denotes_neg hn hneg)) hfirst
  · exact ofSet_eq_error_of_first hv
      (assign_eq_error_of_mem_counts hc (readCount_of_not_denotes hnone)) hfirst

/-- Counts as doubles: a negative zero, a small one, and the first beyond 64 bits with a sign. -/
def doubleCounts : ParamSet :=
  .ofList [("cooldown_candles", .float (-0.0)), ("fast_period", .float 7),
    ("slow_period", .float 9223372036854775808)]

/-- What they are read as. -/
def doubleCountsParams : CrossoverParams where
  fastPeriod := 7
  slowPeriod := 9223372036854775807

theorem ofSet_doubleCounts : ofSet doubleCounts = .ok doubleCountsParams := by rfl

theorem slowPeriod_mem_doubleCounts :
    ("slow_period", .float 9223372036854775808) ∈ doubleCounts.entries := by
  have hentries : doubleCounts.entries = [("cooldown_candles", .float (-0.0)),
      ("fast_period", .float 7), ("slow_period", .float 9223372036854775808)] := by rfl
  simp [hentries]

/-- The double two to the power of 63 is exact. -/
theorem denotes_limit : ParamValue.Denotes (.float 9223372036854775808) 9223372036854775808 := by
  have hunpack : (9223372036854775808 : Float).toModel.unpack =
      .finite .positive 4503599627370496 11 (by decide) := by rfl
  rw [ParamValue.Denotes, Binary64.exactValue?, hunpack]
  norm_num [Binary64.signed, Binary64.Magnitude.value]

theorem ofSet_reads_or_clamps_counts_limit :
    ("slow_period", slowPeriod) ∈ counts ∧
      ("slow_period", .float 9223372036854775808) ∈ doubleCounts.entries ∧
      ofSet doubleCounts = .ok doubleCountsParams ∧ ¬ IsReadableCount 9223372036854775808 ∧
      doubleCountsParams.slowPeriod = 9223372036854775807 := by
  have hc : ("slow_period", slowPeriod) ∈ counts := by simp [counts]
  have hread := (ofSet_reads_or_clamps_counts hc slowPeriod_mem_doubleCounts).1
  obtain ⟨n, hn, -, hclamped⟩ := hread _ ofSet_doubleCounts
  have hlimit := denotes_limit.unique hn
  exact ⟨hc, slowPeriod_mem_doubleCounts, ofSet_doubleCounts, by decide, hclamped (by omega)⟩

/-- Not every count that is read is the one that was given. -/
theorem not_all_counts_exact :
    ¬ ∀ (s : ParamSet) (p : CrossoverParams), ofSet s = .ok p →
      ∀ c ∈ counts, ∀ v, (c.1, v) ∈ s.entries → v.Denotes (c.2 p) := by
  intro h
  have hexact := h _ _ ofSet_doubleCounts ("slow_period", slowPeriod) (by simp [counts]) _
    slowPeriod_mem_doubleCounts
  exact absurd (denotes_limit.unique hexact) (by decide)

end CrossoverParams
end Backtest
