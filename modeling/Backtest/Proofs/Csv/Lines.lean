import Backtest.Csv.Reader
import Mathlib.Data.List.Induction

/-!
# Records and lines

A record ends at a line break, so the records before a place are never more than the line breaks
there. They are fewer as soon as a line break ends no record: that of a blank line, or one in a
quoted field. The line that a record starts on can therefore be told from the count of records
before it only as long as there is none of these.

## Main definitions

* `lineBreaks` — the line breaks of a text.
* `Scanner.run` — the scanner behind a front of a text, and the records that ended there.
* `StartsAfter` — where a record starts.
* `existsUnique_startsAfter` — every record starts at one place.
* `BreaksEndRecords` — every line break ends a record.
* `ended_le_lineBreaks`, `ended_eq_lineBreaks_iff` — the records of a text against its line breaks.
-/
namespace Backtest.Csv

variable {bytes bs cs before : List UInt8} {b : UInt8} {k : ℕ}

/-! ## Line breaks -/

/-- The line breaks of a text: a line feed, a carriage return, or both in this order. -/
def lineBreaks : List UInt8 → ℕ
  | [] => 0
  | b :: rest =>
    (if endsRecord b ∧ ¬(b = carriageReturn ∧ rest.head? = some lineFeed) then 1 else 0) +
      lineBreaks rest

/-- The line that goes on behind a text, counted from one. -/
def lineBehind (bs : List UInt8) : ℕ := lineBreaks bs + 1

theorem endsRecord_iff : endsRecord b = true ↔ b = lineFeed ∨ b = carriageReturn := by
  simp [endsRecord]

/-- A byte behind a text breaks a line unless it is the line feed of a pair. -/
theorem lineBreaks_concat (bs : List UInt8) (b : UInt8) : lineBreaks (bs ++ [b]) =
    lineBreaks bs +
      if endsRecord b ∧ ¬(b = lineFeed ∧ bs.getLast? = some carriageReturn) then 1 else 0 := by
  induction bs with
  | nil => simp [lineBreaks]
  | cons a bs ih =>
    rw [List.cons_append, lineBreaks, ih, lineBreaks]
    cases bs with
    | nil =>
      have hne : carriageReturn ≠ lineFeed := by decide
      by_cases ha : a = carriageReturn <;> by_cases hb : b = lineFeed <;>
        simp [lineBreaks, endsRecord_iff, ha, hb, hne]
    | cons c bs =>
      simp [Nat.add_assoc]

/-! ## Steps -/

namespace Scanner

variable {s : Scanner}

theorem plainStep_spec (s : Scanner) (b : UInt8) :
    ((s.plainStep b).2.isSome = true ↔ endsRecord b = true) ∧
      ((s.plainStep b).1.place = .between ↔ endsRecord b = true) := by
  have hcomma : endsRecord comma = false := by decide
  rw [plainStep]
  split
  · rename_i hb
    simp [beq_iff_eq.1 hb, hcomma]
  · split
    · rename_i hends
      simp [hends]
    · rename_i hends
      simp [hends, take]

/-- Outside quotes, a record ends at every line break but those between records, and behind every
line break the scanner is between records. Quotes are left by a quote only. -/
theorem step_spec (s : Scanner) (b : UInt8) :
    ((s.step b).2.isSome = true ↔ endsRecord b = true ∧ s.place ≠ .between ∧ s.place ≠ .quoted) ∧
      ((s.step b).1.place = .between ↔ endsRecord b = true ∧ s.place ≠ .quoted) ∧
      (s.place = .quoted → b ≠ quote → (s.step b).1.place = .quoted) := by
  have hquote : endsRecord quote = false := by decide
  rw [step]
  generalize hcounted : (if b == lineFeed then { s with current := s.current + 1 } else s) = t
  have hplace : t.place = s.place := by
    rw [← hcounted]
    split <;> rfl
  obtain ⟨hsome, hbetween⟩ := t.plainStep_spec b
  rw [← hplace]
  cases hs : t.place with
  | between =>
    by_cases hends : endsRecord b = true
    · simp [hends, hs]
    · by_cases hb : b = quote
      · simp [hb, hquote]
      · have hnone := mt hsome.1 hends
        have hgone := mt hbetween.1 hends
        simp [hb, hends, hnone, hgone]
  | fieldStart =>
    by_cases hb : b = quote
    · simp [hb, hquote]
    · simp [hb, hsome, hbetween]
  | plain => simp [hsome, hbetween]
  | quoted =>
    by_cases hb : b = quote
    · simp [hb]
    · simp [hb, take]
  | afterQuote =>
    by_cases hb : b = quote
    · simp [hb, hquote, take]
    · simp [hb, hsome, hbetween]

/-! ## Runs -/

/-- The scanner behind a text, and the records that ended there. -/
def run (s : Scanner) : List UInt8 → Scanner × List RawRecord
  | [] => (s, [])
  | b :: rest => (((s.step b).1.run rest).1, (s.step b).2.toList ++ ((s.step b).1.run rest).2)

theorem run_append (s : Scanner) (bs cs : List UInt8) : s.run (bs ++ cs) =
    (((s.run bs).1.run cs).1, (s.run bs).2 ++ ((s.run bs).1.run cs).2) := by
  induction bs generalizing s with
  | nil => simp [run]
  | cons b bs ih => simp [run, ih]

/-- Where a record starts, nothing was read of it, and the next byte belongs to it. -/
theorem exists_start {r : RawRecord} (h : (s.records bytes)[k]? = some r)
    (hk : s.place = .between ∨ 0 < k) : ∃ before b rest, bytes = before ++ b :: rest ∧
      endsRecord b = false ∧ (s.run before).1.place = .between ∧ (s.run before).2.length = k := by
  induction bytes generalizing s k with
  | nil =>
    rw [records] at h
    split at h
    · cases h
    · rename_i hplace
      have hpos : 0 < k := hk.resolve_left hplace
      rw [List.getElem?_eq_none (by simpa using Nat.succ_le_of_lt hpos)] at h
      cases h
  | cons b rest ih =>
    by_cases hstart : s.place = .between ∧ k = 0 ∧ endsRecord b = false
    · obtain ⟨hplace, rfl, hb⟩ := hstart
      exact ⟨[], b, rest, rfl, hb, hplace, rfl⟩
    · obtain ⟨hsome, hbetween, -⟩ := s.step_spec b
      rw [records] at h
      cases hstep : s.step b with
      | mk t ended =>
        rw [hstep] at h hsome hbetween
        cases ended with
        | none =>
          have hk' : t.place = .between ∨ 0 < k := by
            by_cases hzero : k = 0
            · have hplace : s.place = .between := hk.resolve_right (by omega)
              exact .inl (hbetween.2 ⟨by simpa [hplace, hzero] using hstart, by simp [hplace]⟩)
            · exact .inr (by omega)
          obtain ⟨before, c, rest', hrest, hc, hplace, hended⟩ := ih h hk'
          exact ⟨b :: before, c, rest', by rw [hrest]; rfl, hc, by simp [run, hstep, hplace],
            by simp [run, hstep, hended]⟩
        | some r' =>
          obtain ⟨hends, hplace, hquoted⟩ := hsome.1 rfl
          cases k with
          | zero => exact absurd (hk.resolve_right (by omega)) hplace
          | succ k =>
            obtain ⟨before, c, rest', hrest, hc, hplace', hended⟩ :=
              ih h (.inl (hbetween.2 ⟨hends, hquoted⟩))
            exact ⟨b :: before, c, rest', by rw [hrest]; rfl, hc, by simp [run, hstep, hplace'],
              by simp [run, hstep, hended]⟩

/-- The scanner gets between records only by the end of one. -/
theorem run_ne_nil (hs : s.place ≠ .between) (h : (s.run bytes).1.place = .between) :
    (s.run bytes).2 ≠ [] := by
  induction bytes generalizing s with
  | nil => exact absurd h hs
  | cons b rest ih =>
    obtain ⟨hsome, hbetween, -⟩ := s.step_spec b
    by_cases hplace : (s.step b).1.place = .between
    · obtain ⟨hends, hquoted⟩ := hbetween.1 hplace
      obtain ⟨r, hr⟩ := Option.isSome_iff_exists.1 (hsome.2 ⟨hends, hs, hquoted⟩)
      simp [run, hr]
    · have hrest := ih hplace h
      simp [run, hrest]

end Scanner

/-! ## Records against line breaks -/

/-- How many records ended in a text. -/
def ended (bs : List UInt8) : ℕ := (Scanner.run {} bs).2.length

/-- Where the scanner is behind a text. -/
def placeBehind (bs : List UInt8) : Place := (Scanner.run {} bs).1.place

theorem ended_concat (bs : List UInt8) (b : UInt8) : ended (bs ++ [b]) = ended bs +
    if endsRecord b ∧ placeBehind bs ≠ .between ∧ placeBehind bs ≠ .quoted then 1 else 0 := by
  have hsome := ((Scanner.run {} bs).1.step_spec b).1
  rw [ended, ended, placeBehind, Scanner.run_append, List.length_append]
  congr 1
  cases hended : ((Scanner.run {} bs).1.step b).2 with
  | none =>
    rw [hended] at hsome
    rw [if_neg (mt hsome.2 (by decide))]
    simp [Scanner.run, hended]
  | some r =>
    rw [hended] at hsome
    rw [if_pos (hsome.1 rfl)]
    simp [Scanner.run, hended]

theorem placeBehind_concat (bs : List UInt8) (b : UInt8) :
    placeBehind (bs ++ [b]) = ((Scanner.run {} bs).1.step b).1.place := by
  rw [placeBehind, Scanner.run_append]
  rfl

/-- Behind a carriage return the scanner is between records or in quotes. -/
theorem placeBehind_of_carriageReturn (h : bs.getLast? = some carriageReturn) :
    placeBehind bs = .between ∨ placeBehind bs = .quoted := by
  obtain ⟨front, rfl⟩ := List.getLast?_eq_some_iff.1 h
  obtain ⟨-, hbetween, hquoted⟩ := (Scanner.run {} front).1.step_spec carriageReturn
  rw [placeBehind_concat]
  by_cases hplace : (Scanner.run {} front).1.place = .quoted
  · exact .inr (hquoted hplace (by decide))
  · exact .inl (hbetween.2 ⟨by decide, hplace⟩)

/-- A byte that ends a record breaks a line. -/
theorem ended_concat_le (bs : List UInt8) (b : UInt8) :
    ended (bs ++ [b]) + lineBreaks bs ≤ ended bs + lineBreaks (bs ++ [b]) := by
  rw [ended_concat, lineBreaks_concat]
  by_cases hended : endsRecord b ∧ placeBehind bs ≠ .between ∧ placeBehind bs ≠ .quoted
  · obtain ⟨hends, hbetween, hquoted⟩ := hended
    have hlast : bs.getLast? ≠ some carriageReturn := fun h =>
      (placeBehind_of_carriageReturn h).elim hbetween hquoted
    rw [if_pos ⟨hends, hbetween, hquoted⟩, if_pos ⟨hends, fun h => hlast h.2⟩]
    omega
  · rw [if_neg hended]
    omega

/-- No more records have ended than lines. -/
theorem ended_le_lineBreaks (bs : List UInt8) : ended bs ≤ lineBreaks bs := by
  induction bs using List.reverseRecOn with
  | nil => exact Nat.le_refl 0
  | append_singleton bs b ih =>
    have := ended_concat_le bs b
    omega

/-- Every line break of a text ends a record. -/
def BreaksEndRecords (bytes : List UInt8) : Prop :=
  ∀ bs b, bs ++ [b] <+: bytes → lineBreaks bs < lineBreaks (bs ++ [b]) →
    ended bs < ended (bs ++ [b])

theorem breaksEndRecords_concat_iff : BreaksEndRecords (bs ++ [b]) ↔ BreaksEndRecords bs ∧
    (lineBreaks bs < lineBreaks (bs ++ [b]) → ended bs < ended (bs ++ [b])) := by
  constructor
  · intro h
    exact ⟨fun front c hfront => h front c (hfront.trans (List.prefix_append bs [b])),
      h bs b (List.prefix_refl _)⟩
  · rintro ⟨hbefore, hlast⟩ front c hfront
    rcases List.prefix_concat_iff.1 hfront with heq | hfront
    · obtain ⟨rfl, hc⟩ := List.append_inj' heq rfl
      rwa [List.singleton_inj.1 hc]
    · exact hbefore front c hfront

theorem ended_eq_lineBreaks_iff (bs : List UInt8) :
    ended bs = lineBreaks bs ↔ BreaksEndRecords bs := by
  induction bs using List.reverseRecOn with
  | nil =>
    refine iff_of_true rfl fun bs b h => ?_
    simp at h
  | append_singleton bs b ih =>
    have hstep := ended_concat_le bs b
    have hbefore := ended_le_lineBreaks bs
    have hended := ended_concat bs b
    have hbreaks := lineBreaks_concat bs b
    rw [breaksEndRecords_concat_iff, ← ih]
    split at hended <;> split at hbreaks <;> omega

/-! ## Where records start -/

/-- A record starts behind a front of a text: the records before it have ended, and the next byte
is neither theirs nor that of a blank line. -/
structure StartsAfter (bytes : List UInt8) (k : ℕ) (before : List UInt8) : Prop where
  goesOn : ∃ b rest, bytes = before ++ b :: rest ∧ endsRecord b = false
  place : placeBehind before = .between
  ended : ended before = k

/-- Behind the start of a record the scanner is not between records before the record has ended. -/
theorem StartsAfter.eq_of_front {after : List UInt8} (h : StartsAfter bytes k before)
    (h' : StartsAfter bytes k after) (hle : before <+: after) : before = after := by
  obtain ⟨cs, rfl⟩ := hle
  cases cs with
  | nil => exact (List.append_nil before).symm
  | cons c cs =>
    obtain ⟨b, rest, hbytes, hb⟩ := h.goesOn
    obtain ⟨_, _, hbytes', -⟩ := h'.goesOn
    obtain rfl : c = b := by
      rw [hbytes, List.append_assoc, List.append_cancel_left_eq] at hbytes'
      exact (List.cons.inj hbytes').1.symm
    have hinside : ((Scanner.run {} before).1.step c).1.place ≠ .between := by
      intro hplace
      rw [(((Scanner.run {} before).1.step_spec c).2.1.1 hplace).1] at hb
      cases hb
    have hplace := h'.place
    rw [placeBehind, Scanner.run_append] at hplace
    have hmore := List.length_pos_iff.2 (Scanner.run_ne_nil hinside hplace)
    have hbefore := h.ended
    have hafter := h'.ended
    rw [Csv.ended] at hbefore
    rw [Csv.ended, Scanner.run_append, List.length_append, Scanner.run,
      List.length_append] at hafter
    omega

/-- A record starts at one place only. -/
theorem StartsAfter.unique {before' : List UInt8} (h : StartsAfter bytes k before)
    (h' : StartsAfter bytes k before') : before = before' := by
  obtain ⟨b, rest, hbytes, -⟩ := h.goesOn
  obtain ⟨b', rest', hbytes', -⟩ := h'.goesOn
  have hle : before <+: bytes := ⟨_, hbytes.symm⟩
  have hle' : before' <+: bytes := ⟨_, hbytes'.symm⟩
  rcases List.prefix_or_prefix_of_prefix hle hle' with hle | hle
  · exact h.eq_of_front h' hle
  · exact (h'.eq_of_front h hle).symm

/-- Every record starts somewhere. -/
theorem existsUnique_startsAfter {r : RawRecord} (h : (Scanner.records {} bytes)[k]? = some r) :
    ∃! before, StartsAfter bytes k before := by
  obtain ⟨before, b, rest, hbytes, hb, hplace, hended⟩ := Scanner.exists_start h (.inl rfl)
  have hstarts : StartsAfter bytes k before := ⟨⟨b, rest, hbytes, hb⟩, hplace, hended⟩
  exact ⟨before, hstarts, fun _ h' => h'.unique hstarts⟩

end Backtest.Csv
