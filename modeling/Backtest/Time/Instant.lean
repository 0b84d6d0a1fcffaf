import Backtest.Time.Calendar

/-!
# Instants and spans

An instant is a count of seconds since 1970 and the nanoseconds within that second; from `10 ^ 9`
nanoseconds on it lies in the leap second that follows. A span is a signed length of time. Instants
outside the calendar and spans beyond the largest count of milliseconds in 64 bits do not exist, so
sums of them are optional.
-/
namespace Backtest

/-- A signed length of time. -/
structure Span where
  nanos : Int
deriving Repr, DecidableEq

namespace Span

/-- The longest span. -/
def limit : Int := 9223372036854775807 * 1000000

/-- A span of this many nanoseconds, if it exists. -/
def ofNanos? (n : Int) : Option Span :=
  if -limit ≤ n ∧ n ≤ limit then some ⟨n⟩ else none

/-- A span of whole seconds. -/
def ofSeconds? (n : Int) : Option Span := ofNanos? (n * 1000000000)

/-- A span of days of 86400 seconds. -/
def ofDays? (n : Int) : Option Span := ofSeconds? (n * 86400)

/-- The sum of two spans, if it exists. -/
def add? (a b : Span) : Option Span := ofNanos? (a.nanos + b.nanos)

/-- A span repeated. -/
def times (a : Span) (n : Nat) : Span := ⟨a.nanos * n⟩

/-- Whole seconds, toward zero. -/
def seconds (a : Span) : Int := a.nanos.tdiv 1000000000

/-- The nanoseconds beyond the whole seconds, with the sign of the span. -/
def subsecond (a : Span) : Int := a.nanos.tmod 1000000000

end Span

/-- A point in time. -/
structure Instant where
  second : Int
  nano : Nat
deriving Repr, DecidableEq

namespace Instant

/-- Earlier: by the second, then within it. -/
def Before (a b : Instant) : Prop :=
  a.second < b.second ∨ (a.second = b.second ∧ a.nano < b.nano)

instance : LT Instant := ⟨Before⟩
instance : LE Instant := ⟨fun a b => ¬ b < a⟩

instance (a b : Instant) : Decidable (a < b) :=
  inferInstanceAs (Decidable (_ ∨ _))
instance (a b : Instant) : Decidable (a ≤ b) :=
  inferInstanceAs (Decidable (¬ _))

theorem lt_def {a b : Instant} :
    a < b ↔ a.second < b.second ∨ (a.second = b.second ∧ a.nano < b.nano) := Iff.rfl

theorem le_def {a b : Instant} : a ≤ b ↔ ¬ b < a := Iff.rfl

/-- Of three instants in order the first is before the last. -/
theorem lt_trans {a b c : Instant} (h : a < b) (h' : b < c) : a < c := by
  simp only [lt_def] at *
  omega

/-- The earlier of two instants. -/
def min (a b : Instant) : Instant := if b < a then b else a

/-- Whether the instant lies in a leap second. -/
def isLeap (t : Instant) : Bool := 1000000000 ≤ t.nano

/-- The days since 1970 before the instant. -/
def day (t : Instant) : Int := t.second / 86400

/-- The second of the day. -/
def secondOfDay (t : Instant) : Int := t.second % 86400

/-- Whether the calendar has the instant. -/
def InCalendar (t : Instant) : Prop := Date.firstDay ≤ t.day ∧ t.day ≤ Date.lastDay

instance (t : Instant) : Decidable t.InCalendar := inferInstanceAs (Decidable (_ ∧ _))

/-- The first instant of the calendar. -/
def earliest : Instant := ⟨Date.firstDay * 86400, 0⟩

/-- The last instant of the calendar, to the nanosecond. -/
def latest : Instant := ⟨Date.lastDay * 86400 + 86399, 999999999⟩

/-- The instant, if the calendar has it. -/
def inCalendar? (t : Instant) : Option Instant := if t.InCalendar then some t else none

/-- The instant this many milliseconds after 1970. -/
def ofMillis? (ms : Int) : Option Instant :=
  inCalendar? ⟨ms / 1000, (ms % 1000).toNat * 1000000⟩

/-- The sum of a second and nanoseconds that are at most one second out of place. -/
def normalized (second nano : Int) : Instant :=
  if nano < 0 then ⟨second - 1, (nano + 1000000000).toNat⟩
  else if 1000000000 ≤ nano then ⟨second + 1, (nano - 1000000000).toNat⟩
  else ⟨second, nano.toNat⟩

/-- An instant after a span. Within a leap second the nanoseconds move alone; a span that leaves it
forward counts from the second before, one that leaves it backward from the second after. -/
def plus (t : Instant) (d : Span) : Instant :=
  let frac : Int := t.nano
  if t.isLeap then
    if 0 < d.seconds ∨ (0 < d.subsecond ∧ 2000000000 - d.subsecond ≤ frac) then
      normalized (t.second + d.seconds) (frac - 1000000000 + d.subsecond)
    else if d.seconds < 0 then
      normalized (t.second + 1 + d.seconds) (frac - 1000000000 + d.subsecond)
    else ⟨t.second, (frac + d.subsecond).toNat⟩
  else normalized (t.second + d.seconds) (frac + d.subsecond)

/-- An instant after a span, if the calendar has it. -/
def add? (t : Instant) (d : Span) : Option Instant := inCalendar? (t.plus d)

/-- The span from one instant to another. It counts the leap second at the end earlier in the day,
if there is one, in full. -/
def spanTo (a b : Instant) : Span :=
  let leaps : Int :=
    if a.secondOfDay < b.secondOfDay ∧ a.isLeap then 1
    else if b.secondOfDay < a.secondOfDay ∧ b.isLeap then -1
    else 0
  ⟨(b.second - a.second + leaps) * 1000000000 + ((b.nano : Int) - a.nano)⟩

end Instant
end Backtest
