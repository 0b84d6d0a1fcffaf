import Backtest.Time.Instant

/-!
# The order of instants

Instants are totally ordered by their second and then within it, and adding a span that is not
negative never leads back, not even from within a leap second.

## Main definitions

* `le_refl`, `le_trans`, `le_total` — the order is a total one.
* `lt_min`, `min_le_left`, `min_le_right` — the earlier of two instants.
* `le_plus` — no instant is after itself plus a span of no negative length.
-/
namespace Backtest

namespace Span

@[simp] theorem nanos_times (d : Span) (n : Nat) : (d.times n).nanos = d.nanos * n := rfl

end Span

attribute [ext] Instant

namespace Instant

variable {a b c : Instant}

theorem le_iff : a ≤ b ↔ a.second < b.second ∨ (a.second = b.second ∧ a.nano ≤ b.nano) := by
  rw [le_def, lt_def]
  omega

theorem le_refl (a : Instant) : a ≤ a := by
  rw [le_iff]
  omega

theorem le_of_lt (h : a < b) : a ≤ b := by
  rw [lt_def] at h
  rw [le_iff]
  omega

theorem le_trans (h : a ≤ b) (h' : b ≤ c) : a ≤ c := by
  rw [le_iff] at *
  omega

theorem lt_of_lt_of_le (h : a < b) (h' : b ≤ c) : a < c := by
  rw [le_iff] at h'
  rw [lt_def] at *
  omega

theorem not_le : ¬ a ≤ b ↔ b < a := by
  rw [le_def, Classical.not_not]

theorem le_total (a b : Instant) : a ≤ b ∨ b ≤ a := by
  rw [le_iff, le_iff]
  omega

theorem le_min (hb : a ≤ b) (hc : a ≤ c) : a ≤ min b c := by
  rw [min]
  split
  · exact hc
  · exact hb

theorem lt_min (hb : a < b) (hc : a < c) : a < min b c := by
  rw [min]
  split
  · exact hc
  · exact hb

theorem min_le_right (a b : Instant) : min a b ≤ b := by
  rw [min]
  split
  · exact le_refl b
  · rename_i h
    exact h

theorem min_le_left (a b : Instant) : min a b ≤ a := by
  rw [min]
  split
  · rename_i h
    exact le_of_lt h
  · exact le_refl a

theorem inCalendar?_eq_some (h : inCalendar? a = some b) : b = a ∧ a.InCalendar := by
  rw [inCalendar?] at h
  split at h
  · rename_i hcalendar
    cases h
    exact ⟨rfl, hcalendar⟩
  · cases h

theorem inCalendar_of_add? {d : Span} (h : a.add? d = some b) : b.InCalendar := by
  obtain ⟨rfl, hcalendar⟩ := inCalendar?_eq_some h
  exact hcalendar

/-- Carrying nanoseconds into the next second moves the instant forward. -/
theorem le_normalized {t : Instant} {second nano : Int} (hnano : 0 ≤ nano)
    (h : t.second < second ∨ (t.second = second ∧ (t.nano ≤ nano ∨ 1000000000 ≤ nano))) :
    t ≤ normalized second nano := by
  rw [normalized]
  rw [if_neg (Int.not_lt.2 hnano), le_iff]
  split
  · simp only
    omega
  · simp only
    omega

/-- A span that is not negative leads forward. -/
theorem le_plus (t : Instant) {d : Span} (hd : 0 ≤ d.nanos) : t ≤ t.plus d := by
  have hseconds : 0 ≤ d.seconds := Int.tdiv_nonneg hd (by decide)
  have hsubsecond : 0 ≤ d.subsecond := Int.tmod_nonneg _ hd
  rw [plus]
  by_cases hleap : t.isLeap = true
  · have hnano : 1000000000 ≤ t.nano := by
      rw [isLeap, decide_eq_true_eq] at hleap
      exact hleap
    rw [if_pos hleap]
    by_cases hleaves : 0 < d.seconds ∨ (0 < d.subsecond ∧ 2000000000 - d.subsecond ≤ (t.nano : Int))
    · rw [if_pos hleaves]
      exact le_normalized (by omega) (by omega)
    · rw [if_neg hleaves, if_neg (Int.not_lt.2 hseconds), le_iff]
      have hnano' : t.nano ≤ ((t.nano : Int) + d.subsecond).toNat := by omega
      exact .inr ⟨rfl, hnano'⟩
  · rw [if_neg hleap]
    exact le_normalized (by omega) (by omega)

theorem le_of_add?_eq_some {t u : Instant} {d : Span} (hd : 0 ≤ d.nanos) (h : t.add? d = some u) :
    t ≤ u := by
  obtain ⟨rfl, -⟩ := inCalendar?_eq_some h
  exact le_plus t hd

end Instant
end Backtest
