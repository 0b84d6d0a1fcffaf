import Backtest.Market.Loader
import Backtest.Proofs.Csv.Lines
import Backtest.Proofs.Outcome

/-!
# The lines of unreadable times

A table with a time that cannot be read is refused with the place of the row among the rows, counted
from the header. This is the line that the row starts on only if every line break before it ends a
row. Each blank line, and each line break in a quoted cell, puts the row one line further down than
what is reported.

## Main definitions

* `StopsAt` — the first row that makes no candle, for its time alone.
* `read_eq_openTime_iff` — when a table is refused for a time, and with which place.
* `openTime_line_of_read` — the place that is reported against the line that the row starts on.
* `not_all_lines_exact` — a blank line after the header.
-/
namespace Backtest.CandleSeries

variable {header r : Csv.RawRecord} {rows : List Csv.RawRecord} {row line i : ℕ} {value : String}
  {bytes : List UInt8}

/-! ## Rows -/

/-- A row that makes a candle. -/
def IsTimed (header r : Csv.RawRecord) : Prop :=
  ∃ cells t, rowOf? header r = some cells ∧ Instant.ofCell? cells.openTime = some t

/-- A row that makes none because its time cannot be read. -/
def IsUntimed (header : Csv.RawRecord) (value : String) (r : Csv.RawRecord) : Prop :=
  ∃ cells, rowOf? header r = some cells ∧ cells.openTime = value ∧ Instant.ofCell? value = none

/-- The first row that makes no candle is row `i`, and it is its time that cannot be read. -/
structure StopsAt (header : Csv.RawRecord) (rows : List Csv.RawRecord) (i : ℕ) (value : String) :
    Prop where
  before : ∀ r ∈ rows.take i, IsTimed header r
  untimed : ∃ r, rows[i]? = some r ∧ IsUntimed header value r

theorem stopsAt_zero_iff :
    StopsAt header (r :: rows) 0 value ↔ IsUntimed header value r := by
  constructor
  · rintro ⟨-, _, ⟨⟩, h⟩
    exact h
  · intro h
    exact ⟨fun _ hr => absurd hr List.not_mem_nil, r, rfl, h⟩

theorem stopsAt_succ_iff :
    StopsAt header (r :: rows) (i + 1) value ↔ IsTimed header r ∧ StopsAt header rows i value := by
  constructor
  · rintro ⟨hbefore, huntimed⟩
    rw [List.take_succ_cons, List.forall_mem_cons] at hbefore
    exact ⟨hbefore.1, hbefore.2, huntimed⟩
  · rintro ⟨hr, hbefore, huntimed⟩
    refine ⟨?_, huntimed⟩
    rw [List.take_succ_cons, List.forall_mem_cons]
    exact ⟨hr, hbefore⟩

/-- Rows are read as far as the first that makes no candle. -/
theorem candlesOf_eq_openTime_iff : candlesOf header row rows = .error (.openTime line value) ↔
    ∃ i, StopsAt header rows i value ∧ line = row + i := by
  induction rows generalizing row with
  | nil =>
    refine iff_of_false (fun h => nomatch h) ?_
    rintro ⟨i, ⟨-, r, hr, -⟩, -⟩
    cases hr
  | cons r rows ih =>
    rw [← Nat.or_exists_add_one]
    simp only [stopsAt_zero_iff, stopsAt_succ_iff, candlesOf]
    cases hcells : rowOf? header r with
    | none => simp [IsTimed, IsUntimed, hcells]
    | some cells =>
      cases htime : Instant.ofCell? cells.openTime with
      | none =>
        have huntimed : IsUntimed header value r ↔ cells.openTime = value := by
          constructor
          · rintro ⟨_, hrow, hvalue, -⟩
            rwa [Option.some.inj (hcells.symm.trans hrow)]
          · rintro rfl
            exact ⟨cells, hcells, rfl, htime⟩
        have htimed : ¬ IsTimed header r := by
          rintro ⟨_, t, hrow, ht⟩
          rw [← Option.some.inj (hcells.symm.trans hrow), htime] at ht
          cases ht
        simp [htime, huntimed, htimed, and_comm, eq_comm]
      | some t =>
        have huntimed : ¬ IsUntimed header value r := by
          rintro ⟨_, hrow, rfl, hnone⟩
          rw [← Option.some.inj (hcells.symm.trans hrow), htime] at hnone
          cases hnone
        have htimed : IsTimed header r := ⟨cells, t, hcells, htime⟩
        simp only [htime, huntimed, htimed, false_and, true_and, false_or]
        rw [bind_eq_error_iff (fun candles h => by cases h), ih]
        simp only [Nat.add_assoc, Nat.add_comm 1]

/-! ## Tables -/

/-- The first bad record of a table is record `k`, counted from the header, and it is its time that
cannot be read. -/
def FailsAt (bytes : List UInt8) (k : ℕ) (value : String) : Prop :=
  ∃ header rows i, Csv.records bytes = header :: rows ∧ k = i + 1 ∧ StopsAt header rows i value

theorem candlesOfTable_eq_openTime_iff :
    candlesOfTable bytes = .error (.openTime line value) ↔
      ∃ k, FailsAt bytes k value ∧ line = k + 1 := by
  rw [candlesOfTable]
  cases hrecords : Csv.records bytes with
  | nil =>
    refine iff_of_false (fun h => nomatch h) ?_
    rintro ⟨k, ⟨header, rows, i, h, -⟩, -⟩
    rw [hrecords] at h
    cases h
  | cons header rows =>
    dsimp only
    rw [candlesOf_eq_openTime_iff]
    constructor
    · rintro ⟨i, hstops, rfl⟩
      exact ⟨i + 1, ⟨header, rows, i, hrecords, rfl, hstops⟩, by omega⟩
    · rintro ⟨k, ⟨header', rows', i, h, rfl, hstops⟩, rfl⟩
      obtain ⟨rfl, rfl⟩ := List.cons.inj (hrecords.symm.trans h)
      exact ⟨i, hstops, by omega⟩

/-- A table is refused for a time exactly if a time is the first thing wrong with its rows. -/
theorem read_eq_openTime_iff : read bytes = .error (.openTime line value) ↔
    ∃ k, FailsAt bytes k value ∧ line = k + 1 := by
  have hchecked : ∀ candles, checked candles ≠ .error (.openTime line value) := by
    intro candles h
    rw [checked] at h
    split at h <;> cases h
  rw [← candlesOfTable_eq_openTime_iff, read, bind_eq_error_iff hchecked]

/-- The record that fails is one of the records. -/
theorem FailsAt.exists_getElem? {k : ℕ} (h : FailsAt bytes k value) :
    ∃ r, (Csv.records bytes)[k]? = some r := by
  obtain ⟨header, rows, i, hrecords, rfl, -, r, hr, -⟩ := h
  exact ⟨r, by rw [hrecords, List.getElem?_cons_succ, hr]⟩

/-- **The line of an unreadable time is the place of its row, not always the line that the row
starts on.** The table is refused because the time of record `k`, counted from the header, is the
first thing wrong with its rows, and the line that is reported is `k + 1`. The record starts on this
line or on a later one, and it is this line exactly if every line break before it ends a record: no
blank line and no line break in a quoted cell stands before it. -/
theorem openTime_line_of_read (h : read bytes = .error (.openTime line value)) :
    ∃ k before, FailsAt bytes k value ∧ Csv.StartsAfter (Csv.dropMark bytes) k before ∧
      line = k + 1 ∧ line ≤ Csv.lineBehind before ∧
        (line = Csv.lineBehind before ↔ Csv.BreaksEndRecords before) := by
  obtain ⟨k, hfails, rfl⟩ := read_eq_openTime_iff.1 h
  obtain ⟨r, hr⟩ := hfails.exists_getElem?
  obtain ⟨before, hstarts, -⟩ := Csv.existsUnique_startsAfter hr
  have hended := hstarts.ended
  have hle := Csv.ended_le_lineBreaks before
  have hiff := Csv.ended_eq_lineBreaks_iff before
  refine ⟨k, before, hfails, hstarts, rfl, ?_, ?_⟩
  · rw [Csv.lineBehind]
    omega
  · rw [← hiff, Csv.lineBehind]
    omega

/-- A header, a blank line, and a row with a word for its time. -/
def blankLine : List UInt8 :=
  "open_time,open,high,low,close\n\nyesterday,1,1,1,1\n".toUTF8.toList

theorem read_blankLine : read blankLine = .error (.openTime 2 "yesterday") :=
  error?_eq_some_iff.1 (by decide +kernel)

theorem openTime_line_of_read_blankLine :
    read blankLine = .error (.openTime 2 "yesterday") ∧
      ∃ k before, FailsAt blankLine k "yesterday" ∧
        Csv.StartsAfter (Csv.dropMark blankLine) k before ∧ 2 = k + 1 ∧
          2 ≤ Csv.lineBehind before ∧ (2 = Csv.lineBehind before ↔ Csv.BreaksEndRecords before) :=
  ⟨read_blankLine, openTime_line_of_read read_blankLine⟩

/-- The line that is reported is not always the one that the row starts on. -/
theorem not_all_lines_exact :
    ¬ ∀ (bytes : List UInt8) (line : ℕ) (value : String),
      read bytes = .error (.openTime line value) → ∀ k before, FailsAt bytes k value →
        Csv.StartsAfter (Csv.dropMark bytes) k before → line = Csv.lineBehind before := by
  intro hall
  obtain ⟨k, hfails, hk⟩ := read_eq_openTime_iff.1 read_blankLine
  obtain rfl : k = 1 := by omega
  have hstarts : Csv.StartsAfter (Csv.dropMark blankLine) 1
      "open_time,open,high,low,close\n\n".toUTF8.toList :=
    ⟨⟨121, "esterday,1,1,1,1\n".toUTF8.toList, by decide +kernel, by decide⟩,
      by decide +kernel, by decide +kernel⟩
  have hline := hall blankLine 2 "yesterday" read_blankLine 1 _ hfails hstarts
  exact absurd hline (by decide +kernel)

end Backtest.CandleSeries
