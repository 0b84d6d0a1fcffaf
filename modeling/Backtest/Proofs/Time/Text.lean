import Backtest.Proofs.Text.Blank
import Backtest.Proofs.Time.Dates
import Backtest.Proofs.Time.WholeDays
import Backtest.Time.Reader
import Backtest.Time.Writer

/-!
# Instants through their texts

Every field of the text of an instant is padded, so it ends where its digits do, and the fraction
has the digits it needs. Reading the text gives the same date and time of day, and with them the
same instant, in a leap second too.

## Main definitions

* `Instant.IsOnClock` — instants of the calendar whose leap seconds stand at the end of a minute.
* `Instant.digits?_append`, `Instant.field?_padded`, `Instant.year?_yearText`,
  `Instant.fraction?_fractionText` — fields read back.
* `Instant.readRelaxed?_dataText` — the text of an instant is read as it.
-/
namespace Backtest

open Binary64 (IsDigits digitsValue)

namespace Instant

/-! ## Fields -/

section Field

variable {ds rest : List Char} {w n : ℕ}

theorem isDigits_padded (w n : ℕ) : IsDigits (padded w n) :=
  (Binary64.isDigits_replicate _).append (Binary64.isDigits_toDigits n)

theorem digitsValue_padded (w n : ℕ) : digitsValue (padded w n) = n := by
  rw [padded, Binary64.digitsValue_append, Binary64.digitsValue_replicate,
    Binary64.digitsValue_toDigits]
  omega

theorem le_length_padded (w n : ℕ) : w ≤ (padded w n).length := by
  rw [padded, List.length_append, List.length_replicate]
  omega

theorem length_padded (hw : 0 < w) (hn : n < 10 ^ w) : (padded w n).length = w := by
  have := (Nat.length_toDigits_le_iff (by decide : 1 < 10) hw).2 hn
  rw [padded, List.length_append, List.length_replicate]
  omega

theorem padded_ne_nil (hw : 0 < w) (n : ℕ) : padded w n ≠ [] := by
  intro h
  have := le_length_padded w n
  rw [h, List.length_nil] at this
  omega

/-- Digits are read as far as they go, or as far as a field may. -/
theorem digits?_append (least most : ℕ) (hds : IsDigits ds) (hleast : least ≤ ds.length)
    (hmost : ds.length ≤ most)
    (hend : ds.length = most ∨ ∀ c ∈ rest.head?, c.isDigit = false) :
    digits? least most (ds ++ rest) = some (digitsValue ds, rest) := by
  have hstop : (rest.take (most - ds.length)).takeWhile Char.isDigit = [] := by
    rcases hend with heq | hhead
    · rw [heq, Nat.sub_self]
      rfl
    · cases rest with
      | nil => rw [List.take_nil]; rfl
      | cons c rest =>
        cases hroom : most - ds.length with
        | zero => rfl
        | succ k =>
          rw [List.take_succ_cons]
          exact List.takeWhile_cons_of_neg (by rw [hhead c rfl]; decide)
  have hfront : ((ds ++ rest).take most).takeWhile Char.isDigit = ds := by
    rw [List.take_append, List.take_of_length_le hmost, List.takeWhile_append_of_pos hds, hstop,
      List.append_nil]
  rw [digits?, hfront, if_neg (by omega), List.drop_left]

/-- A padded field of two digits. -/
theorem field?_padded (hn : n < 100) (rest : List Char) :
    field? (padded 2 n ++ rest) = some (n, rest) := by
  have hlength : (padded 2 n).length = 2 := length_padded (by decide) hn
  rw [field?, dropBlanks_digits (isDigits_padded 2 n) (padded_ne_nil (by decide) n),
    digits?_append 1 2 (isDigits_padded 2 n) (by omega) (by omega) (.inl hlength),
    digitsValue_padded]

/-- A year without a sign. -/
theorem year?_digit {c : Char} (hc : c.isDigit = true) (cs : List Char) :
    year? (c :: cs) = (digits? 1 4 (c :: cs)).map fun r => ((r.1 : ℤ), r.2) := by
  rcases Binary64.digit_cases hc with
    rfl | rfl | rfl | rfl | rfl | rfl | rfl | rfl | rfl | rfl <;> rfl

/-- A year with its sign where it has one. -/
theorem year?_yearText (y : ℤ) (hrest : ∀ c ∈ rest.head?, c.isDigit = false) :
    year? (yearText y ++ rest) = some (y, rest) := by
  have hsigned := digits?_append 1 (padded 4 y.natAbs ++ rest).length (isDigits_padded 4 y.natAbs)
    (by have := le_length_padded 4 y.natAbs; omega) (by simp) (.inr hrest)
  rw [digitsValue_padded] at hsigned
  rw [yearText]
  split
  · rename_i hyear
    have hlength : (padded 4 y.toNat).length = 4 := length_padded (by decide) (by omega)
    have hdigits := isDigits_padded 4 y.toNat
    have hread : digits? 1 4 (padded 4 y.toNat ++ rest) = _ :=
      digits?_append 1 4 hdigits (by omega) (by omega) (.inl hlength)
    have hvalue : (y.toNat : ℤ) = y := by omega
    rw [digitsValue_padded] at hread
    cases hcs : padded 4 y.toNat with
    | nil => exact absurd hcs (padded_ne_nil (by decide) _)
    | cons c cs =>
      rw [hcs] at hread hdigits
      rw [List.cons_append] at hread ⊢
      rw [year?_digit (hdigits c List.mem_cons_self), hread, Option.map_some, hvalue]
  · rename_i hyear
    by_cases hneg : y < 0
    · have hvalue : -(y.natAbs : ℤ) = y := by omega
      rw [if_pos hneg, List.cons_append, year?, dropBlanks_cons (by decide)]
      simp only [hsigned, Option.map_some, hvalue]
    · have hvalue : (y.natAbs : ℤ) = y := by omega
      rw [if_neg hneg, List.cons_append, year?, dropBlanks_cons (by decide)]
      simp only [hsigned, Option.map_some, hvalue]

/-- A fraction of three, six or nine digits. -/
theorem fraction?_padded {k m : ℕ} (hk : 0 < k) (hk9 : k ≤ 9) (hm : m < 10 ^ k)
    (hrest : ∀ c ∈ rest.head?, c.isDigit = false) :
    fraction? ('.' :: padded k m ++ rest) = some (m * 10 ^ (9 - k), rest) := by
  have hdigits := isDigits_padded k m
  have hlength := length_padded hk hm
  have hrun := hdigits.takeWhile_append hrest
  have hkept : (padded k m).take 9 = padded k m := List.take_of_length_le (by omega)
  have hne : (padded k m).isEmpty = false := by
    simpa using padded_ne_nil hk m
  rw [List.cons_append, fraction?]
  have hdrop : (padded k m ++ rest).drop k = rest := List.drop_left' hlength
  simp only [hrun, hne, hkept, digitsValue_padded, hlength, hdrop]
  rfl

theorem fraction?_fractionText (hn : n < 1000000000)
    (hrest : ∀ c ∈ rest.head?, c.isDigit = false ∧ c ≠ '.') :
    fraction? (fractionText n ++ rest) = some (n, rest) := by
  have hdigit := fun c hc => (hrest c hc).1
  rw [fractionText]
  split_ifs with hzero hmillis hmicros
  · rw [beq_iff_eq.1 hzero]
    cases rest with
    | nil => rfl
    | cons c rest =>
      have hpoint : c ≠ '.' := (hrest c rfl).2
      simp [fraction?, hpoint]
  · rw [beq_iff_eq] at hmillis
    rw [fraction?_padded (by decide) (by decide) (by omega) hdigit,
      show n / 1000000 * 10 ^ (9 - 3) = n by omega]
  · rw [beq_iff_eq] at hmicros
    rw [fraction?_padded (by decide) (by decide) (by omega) hdigit,
      show n / 1000 * 10 ^ (9 - 6) = n by omega]
  · rw [fraction?_padded (by decide) (by decide) (by omega) hdigit, Nat.sub_self, Nat.pow_zero,
      Nat.mul_one]

end Field

/-! ## Whole texts -/

/-- A text of padded fields is read as these fields. -/
theorem readRelaxed?_fields (y : ℤ) {month day hour minute second nano : ℕ} (hmonth : month < 100)
    (hday : day < 100) (hhour : hour < 100) (hminute : minute < 100) (hsecond : second < 100)
    (hnano : nano < 1000000000) :
    readRelaxed? (String.ofList (yearText y ++ '-' :: (padded 2 month ++ '-' :: (padded 2 day ++
      'T' :: (padded 2 hour ++ ':' :: (padded 2 minute ++ ':' :: (padded 2 second ++
        (fractionText nano ++ ['Z'])))))))) =
      Fields.toInstant? ⟨⟨y, month, day⟩, hour, minute, second, nano, 0⟩ := by
  have hyear : ∀ tail, year? (yearText y ++ '-' :: tail) = some (y, '-' :: tail) :=
    fun tail => year?_yearText y (by rintro c ⟨⟩; rfl)
  have hafter : ∀ c tail, after? c (c :: tail) = some tail := fun c tail => if_pos rfl
  have hmark : ∀ tail, afterDateMark? ('T' :: tail) = some tail := fun _ => rfl
  have hfraction : fraction? (fractionText nano ++ ['Z']) = some (nano, ['Z']) :=
    fraction?_fractionText hnano (by rintro c ⟨⟩; decide)
  have hdash := fun tail => dropBlanks_cons (c := '-') (by decide) tail
  have hcolon := fun tail => dropBlanks_cons (c := ':') (by decide) tail
  have hzone := dropBlanks_cons (c := 'Z') (by decide) []
  rw [readRelaxed?, String.toList_ofList]
  simp only [hyear, Option.bind_eq_bind, Option.bind_some, hdash, hafter, field?_padded hmonth,
    field?_padded hday, hmark, field?_padded hhour, hcolon, field?_padded hminute,
    field?_padded hsecond, hfraction, hzone]
  rfl

/-- An instant that a clock shows: on a day of the calendar, and in a leap second only at the end of
a minute. -/
structure IsOnClock (t : Instant) : Prop where
  inCalendar : t.InCalendar
  nano : t.nano < 2000000000
  leap : 1000000000 ≤ t.nano → t.second % 60 = 59

instance (t : Instant) : Decidable t.IsOnClock :=
  decidable_of_iff (t.InCalendar ∧ t.nano < 2000000000 ∧
      (1000000000 ≤ t.nano → t.second % 60 = 59))
    ⟨fun h => ⟨h.1, h.2.1, h.2.2⟩, fun h => ⟨h.1, h.2, h.3⟩⟩

/-- The fields of the text of an instant. -/
theorem dataText_eq (t : Instant) : t.dataText = String.ofList
    (yearText (Date.ofDays t.day).year ++ '-' :: (padded 2 (Date.ofDays t.day).month ++ '-' ::
      (padded 2 (Date.ofDays t.day).day ++ 'T' :: (padded 2 (t.secondOfDay.toNat / 3600) ++ ':' ::
        (padded 2 (t.secondOfDay.toNat / 60 % 60) ++ ':' ::
          (padded 2 (t.secondOfDay.toNat % 60 + t.nano / 1000000000) ++
            (fractionText (t.nano % 1000000000) ++ ['Z']))))))) := by
  rw [dataText, textWith, dateText, timeText]
  simp

/-- The text of an instant is read as this instant. -/
theorem readRelaxed?_dataText {t : Instant} (ht : t.IsOnClock) :
    readRelaxed? t.dataText = some t := by
  obtain ⟨hcalendar, hnano, hleap⟩ := ht
  have hvalid := Date.isValid_ofDays hcalendar
  have hdays := Date.toDays_ofDays t.day
  obtain ⟨hmonth, hday⟩ := Date.lt_hundred_of_isValid hvalid
  have hsplit : t.second = t.day * 86400 + t.secondOfDay := by
    rw [day, secondOfDay]
    omega
  obtain ⟨hsecond0, hsecond1⟩ : 0 ≤ t.secondOfDay ∧ t.secondOfDay < 86400 := by
    rw [secondOfDay]
    omega
  rw [dataText_eq]
  generalize hs : t.secondOfDay.toNat = s
  rw [readRelaxed?_fields _ hmonth hday (by omega) (by omega) (by omega) (by omega),
    Fields.toInstant?]
  have hclock : s / 3600 < 24 ∧ s / 60 % 60 < 60 ∧ s % 60 + t.nano / 1000000000 ≤ 60 := by omega
  rw [if_pos ⟨hvalid, hclock.1, hclock.2.1, hclock.2.2, Nat.zero_lt_succ _⟩]
  -- The clock shows 60 in a leap second, which is the one after the second 59.
  have hinstant : ∀ {second : ℤ} {nano : ℕ}, second = t.second → nano = t.nano →
      inCalendar? ⟨second, nano⟩ = some t := by
    rintro _ _ rfl rfl
    exact if_pos hcalendar
  by_cases hlong : 1000000000 ≤ t.nano
  · have hlast := hleap hlong
    have hsixty : s % 60 + t.nano / 1000000000 = 60 := by omega
    simp only [hsixty, if_pos]
    exact hinstant (by rw [hdays]; omega) (by omega)
  · have hplain : s % 60 + t.nano / 1000000000 ≠ 60 := by omega
    simp only [if_neg hplain]
    exact hinstant (by rw [hdays]; omega) (by omega)

end Instant
end Backtest
