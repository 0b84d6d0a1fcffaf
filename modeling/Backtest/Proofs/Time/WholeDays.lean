import Backtest.Proofs.Time.Order

/-!
# Whole days

A span of whole days moves an instant by that many days of the calendar and leaves the time of the
day alone, also from within a leap second. So whether the sum exists is a question of days.

## Main definitions

* `Span.IsDays` — a span of so many days.
* `Span.ofDays?_eq_some_iff` — the spans of whole days that exist.
* `Instant.IsRepresentable` — an instant that the calendar has.
* `Instant.exists_add?` — adding days within the calendar.
-/
namespace Backtest

namespace Span

/-- A span of so many days. -/
def IsDays (d : Span) (n : Int) : Prop := d.nanos = n * 86400 * 1000000000

/-- The most whole days that a span has. -/
def longestDays : Int := 106751991167

/-- A count of days makes a span up to the longest one. -/
theorem ofNanos?_days (n : Int) : ofNanos? (n * 86400 * 1000000000) =
    if -longestDays ≤ n ∧ n ≤ longestDays then some ⟨n * 86400 * 1000000000⟩ else none := by
  rw [ofNanos?, limit, longestDays]
  by_cases h : -106751991167 ≤ n ∧ n ≤ 106751991167
  · rw [if_pos h, if_pos (by omega)]
  · rw [if_neg h, if_neg (by omega)]

theorem ofDays?_eq_some_iff {n : Int} {d : Span} :
    ofDays? n = some d ↔ (-longestDays ≤ n ∧ n ≤ longestDays) ∧ d.IsDays n := by
  rw [ofDays?, ofSeconds?, ofNanos?_days, IsDays]
  split
  · rename_i h
    refine ⟨fun hd => ⟨h, ?_⟩, fun hd => ?_⟩
    · cases hd
      rfl
    · rw [← hd.2]
  · rename_i h
    exact ⟨fun hd => (nomatch hd), fun hd => absurd hd.1 h⟩

section Days

variable {d e : Span} {n m : Int}

theorem IsDays.seconds (h : d.IsDays n) : d.seconds = n * 86400 := by
  rw [Span.seconds, h]
  exact Int.mul_tdiv_cancel _ (by decide)

theorem IsDays.subsecond (h : d.IsDays n) : d.subsecond = 0 := by
  rw [Span.subsecond, h]
  exact Int.mul_tmod_left _ _

theorem IsDays.times (h : d.IsDays n) (k : Nat) : (d.times k).IsDays (n * k) := by
  rw [IsDays] at *
  rw [nanos_times, h, Int.mul_right_comm (n * 86400), Int.mul_right_comm n]

/-- Two spans of days have a sum up to the longest span. -/
theorem IsDays.add? (hd : d.IsDays n) (he : e.IsDays m) : d.add? e =
    if -longestDays ≤ n + m ∧ n + m ≤ longestDays then
      some ⟨(n + m) * 86400 * 1000000000⟩ else none := by
  rw [IsDays] at hd he
  rw [Span.add?, hd, he, ← Int.add_mul, ← Int.add_mul, ofNanos?_days]

end Days

end Span

namespace Instant

variable {t u : Instant} {d : Span} {n : Int}

/-- An instant that the calendar has; its nanoseconds do not go beyond a leap second. -/
structure IsRepresentable (t : Instant) : Prop where
  inCalendar : t.InCalendar
  nano : t.nano < 2000000000

instance (t : Instant) : Decidable t.IsRepresentable :=
  decidable_of_iff (t.InCalendar ∧ t.nano < 2000000000)
    ⟨fun h => ⟨h.1, h.2⟩, fun h => ⟨h.1, h.2⟩⟩

theorem day_le_of_lt (h : t < u) : t.day ≤ u.day := by
  rw [lt_def] at h
  simp only [day]
  omega

theorem lt_of_day_lt (h : t.day < u.day) : t < u := by
  simp only [day] at h
  rw [lt_def]
  omega

/-- Days move the second and leave the time of the day alone. -/
theorem plus_days (ht : t.nano < 2000000000) (hd : d.IsDays n) (hn : 0 ≤ n) :
    (t.plus d).second = t.second + n * 86400 ∧ (t.plus d).nano < 2000000000 := by
  have hseconds := hd.seconds
  have hsubsecond := hd.subsecond
  rw [plus]
  simp only [hseconds, hsubsecond, normalized, isLeap, decide_eq_true_eq]
  split
  · split
    · rw [if_neg (by omega), if_neg (by omega)]
      refine ⟨rfl, ?_⟩
      simp only
      omega
    · rw [if_neg (by omega)]
      simp only
      omega
  · rw [if_neg (by omega), if_neg (by omega)]
    refine ⟨rfl, ?_⟩
    simp only
    omega

/-- Days within the calendar can be added. -/
theorem exists_add? (ht : t.IsRepresentable) (hd : d.IsDays n) (hn : 0 ≤ n)
    (hlast : t.day + n ≤ Date.lastDay) :
    ∃ u, t.add? d = some u ∧ u.IsRepresentable ∧ u.day = t.day + n := by
  obtain ⟨hsecond, hnano⟩ := plus_days ht.nano hd hn
  have hday : (t.plus d).day = t.day + n := by
    simp only [day, hsecond]
    omega
  have hcalendar : (t.plus d).InCalendar := by
    have hfirst := ht.inCalendar.1
    rw [InCalendar, hday]
    omega
  exact ⟨t.plus d, by rw [add?, inCalendar?, if_pos hcalendar], ⟨hcalendar, hnano⟩, hday⟩

/-- Days that lead beyond the calendar cannot be added. -/
theorem add?_eq_none (ht : t.nano < 2000000000) (hd : d.IsDays n) (hn : 0 ≤ n)
    (hlast : Date.lastDay < t.day + n) : t.add? d = none := by
  have hday : (t.plus d).day = t.day + n := by
    simp only [day, (plus_days ht hd hn).1]
    omega
  rw [add?, inCalendar?, if_neg]
  rintro ⟨-, h⟩
  rw [hday] at h
  omega

end Instant
end Backtest
