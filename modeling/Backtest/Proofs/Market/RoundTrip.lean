import Backtest.Market.Series
import Backtest.Proofs.Document.Codec
import Backtest.Proofs.Time.Order
import Backtest.Proofs.Time.Text

/-!
# Candles through their texts

An instant and a candle are read from their texts. A series is written as a table with its candles
in a field, but read from the bare list of its candles, so no series is read from its own text; the
reader takes exactly the lists of candles that make a series. Prices and volumes are those of the
text if the reader of numbers gives them back.

## Main definitions

* `Instant.encodes`, `Candle.encodes` — instants and candles through documents.
* `CandleSeries.ofCandles_candles` — the candles of a series make this series.
* `CandleSeries.encodes_list` — the bare list of its candles encodes a series.
* `CandleSeries.reads_list_not_text` — what of a series is read, and what is not.
* `CandleSeries.not_all_read_from_text` — a series that is not read from its text.
-/
namespace Backtest

open Document (Encodes)

variable {room : ℕ}

namespace Instant

@[simp] theorem fitsIn_toDocument (t : Instant) : t.toDocument.FitsIn room := .text _

theorem ofDocument?_toDocument {t : Instant} (h : t.IsOnClock) :
    ofDocument? t.toDocument = some t := by
  rw [toDocument, ofDocument?, Document.text?_text, Option.bind_some, readRelaxed?_dataText h]

end Instant

namespace Candle

variable {c : Candle}

/-- A candle without infinite or undefined figures. -/
structure IsFinite (c : Candle) : Prop where
  openPrice : c.openPrice.isFinite = true
  high : c.high.isFinite = true
  low : c.low.isFinite = true
  close : c.close.isFinite = true
  volume : c.volume.isFinite = true

/-- Valid prices are finite, whatever the volume is. -/
theorem isFinite_of_isPriced (hprices : c.isPriced = true) (hvolume : c.volume.isFinite = true) :
    c.IsFinite := by
  simp only [isPriced, isPrice, Bool.and_eq_true] at hprices
  obtain ⟨⟨⟨hopen, hhigh⟩, hlow⟩, hclose⟩ := hprices
  exact ⟨hopen.1, hhigh.1, hlow.1, hclose.1, hvolume⟩

theorem fitsIn_toDocument (h : c.IsFinite) : c.toDocument.FitsIn (room + 1) :=
  .table (by simp [h.openPrice, h.high, h.low, h.close, h.volume])

theorem volume_mem_reals (c : Candle) : c.volume ∈ c.toDocument.reals := by
  simp [toDocument, Document.reals, Document.realsOfEntries]

/-- A candle is read with all its fields. -/
theorem encodes (h : c.IsFinite) (htime : c.openTime.IsOnClock) :
    Encodes (room + 1) ofDocument? c.toDocument c :=
  Record.encodes_table rfl (by decide) (fitsIn_toDocument h)
    (by simp [Instant.ofDocument?_toDocument htime])

end Candle

namespace CandleSeries

/-- Candles with valid prices have no fault if their times increase from the previous one on. -/
theorem firstFault_eq_none {cs : List Candle} {index : ℕ} {previous : Option Instant}
    (hprices : ∀ c ∈ cs, c.isPriced = true)
    (htimes : cs.Pairwise fun a b => a.openTime < b.openTime)
    (hafter : ∀ p, previous = some p → ∀ c ∈ cs, p < c.openTime) :
    firstFault index previous cs = none := by
  induction cs generalizing index previous with
  | nil => rfl
  | cons c rest ih =>
    obtain ⟨hc, hrest⟩ := List.forall_mem_cons.1 hprices
    obtain ⟨hnext, hpairs⟩ := List.pairwise_cons.1 htimes
    have htail : firstFault (index + 1) (some c.openTime) rest = none :=
      ih hrest hpairs fun p hp => Option.some.inj hp ▸ hnext
    cases previous with
    | none => rw [firstFault, if_pos hc, htail]
    | some p =>
      have hlt : p < c.openTime := hafter p rfl c List.mem_cons_self
      rw [firstFault, if_pos hc, if_neg (Instant.not_le.2 hlt), htail]

/-- The candles of a series make this series. -/
theorem ofCandles_candles (s : CandleSeries) : ofCandles s.candles = .ok s := by
  have hfault : firstFault 0 none s.candles = none :=
    firstFault_eq_none s.pricesValid s.timesIncrease (by simp)
  rw [ofCandles, dif_neg s.nonempty]
  split
  next hsome => rw [hfault] at hsome; cases hsome
  next => rfl

theorem isFinite_of_mem {s : CandleSeries} (hvolumes : ∀ c ∈ s.candles, c.volume.isFinite = true) :
    ∀ c ∈ s.candles, c.IsFinite :=
  fun c hc => Candle.isFinite_of_isPriced (s.pricesValid c hc) (hvolumes c hc)

/-- The text of a series holds a table and no list. -/
theorem read?_text (numbers : Json.NumberReader) (s : CandleSeries) :
    (Json.read? (Json.compact s.toDocument) numbers).bind ofDocument? = none := by
  have hbrace : ∃ cs, Json.compact s.toDocument = String.ofList ('\x7b' :: cs) := ⟨_, rfl⟩
  obtain ⟨cs, hbrace⟩ := hbrace
  rw [hbrace]
  cases hread : Json.read? (String.ofList ('\x7b' :: cs)) numbers with
  | none => rfl
  | some d =>
    obtain ⟨entries, rfl⟩ := Json.exists_table_of_read? hread
    rfl

/-- The bare list of its candles encodes a series. -/
theorem encodes_list (s : CandleSeries) (hvolumes : ∀ c ∈ s.candles, c.volume.isFinite = true)
    (htimes : ∀ c ∈ s.candles, c.openTime.IsOnClock) :
    Encodes (room + 2) ofDocument? (.list (s.candles.map Candle.toDocument)) s := by
  have hlist : Encodes (room + 2) (Document.listOf? Candle.ofDocument?)
      (.list (s.candles.map Candle.toDocument)) s.candles :=
    Document.encodes_list fun c hc =>
      Candle.encodes (isFinite_of_mem hvolumes c hc) (htimes c hc)
  refine ⟨hlist.fits, ?_⟩
  rw [ofDocument?, hlist.decodes, Option.bind_eq_bind, Option.bind_some, ofCandles_candles]
  rfl

/-- A series is not read from its own text, however numbers are read. What is read instead is the
list of its candles, if the times and the doubles are read back, and of all texts those that hold a
list of candles that make a series. -/
theorem reads_list_not_text (numbers : Json.NumberReader) (s : CandleSeries) :
    (Json.read? (Json.compact s.toDocument) numbers).bind ofDocument? = none ∧
      ((∀ c ∈ s.candles, c.openTime.IsOnClock) →
        (∀ x ∈ s.toDocument.reals, numbers.ReadsBack x) →
          (Json.read? (Json.compact (.list (s.candles.map Candle.toDocument))) numbers).bind
            ofDocument? = some s) ∧
      ∀ text t, (Json.read? text numbers).bind ofDocument? = some t ↔
        ∃ candles,
          (Json.read? text numbers).bind (Document.listOf? Candle.ofDocument?) = some candles ∧
            ofCandles candles = .ok t := by
  refine ⟨read?_text numbers s, fun htimes hreals => ?_, fun text t => ?_⟩
  · have hlist : ∀ x ∈ (Document.list (s.candles.map Candle.toDocument)).reals,
        numbers.ReadsBack x := fun x hx =>
      hreals x (Document.mem_reals_table.2 ⟨_, List.mem_singleton_self _, hx⟩)
    have hvolumes : ∀ c ∈ s.candles, c.volume.isFinite = true := fun c hc =>
      (hlist _ (Document.mem_reals_list.2 ⟨_, List.mem_map_of_mem hc, c.volume_mem_reals⟩)).isFinite
    exact (encodes_list s hvolumes htimes).read?_compact hlist
  · cases Json.read? text numbers with
    | none => simp
    | some d =>
      simp only [Option.bind_some, ofDocument?, Option.bind_eq_bind, Option.bind_eq_some_iff]
      refine exists_congr fun candles => and_congr_right fun _ => ?_
      cases ofCandles candles <;> simp [Except.toOption]

/-- One candle, at the start of a year. -/
def newYear : CandleSeries where
  candles := [⟨⟨1704067200, 0⟩, 1, 1.5, 0.5, 1.25, 10⟩]
  nonempty := by decide
  pricesValid := by decide +kernel
  timesIncrease := List.pairwise_singleton _ _

theorem reads_list_not_text_newYear :
    (∀ c ∈ newYear.candles, c.openTime.IsOnClock) ∧
      (∀ x ∈ newYear.toDocument.reals, Json.NumberReader.scaling.ReadsBack x) ∧
      (Json.read? (Json.compact newYear.toDocument)).bind ofDocument? = none ∧
      (Json.read? (Json.compact (.list (newYear.candles.map Candle.toDocument)))).bind
        ofDocument? = some newYear := by
  have htimes : ∀ c ∈ newYear.candles, c.openTime.IsOnClock := by decide +kernel
  have hreals : ∀ x ∈ newYear.toDocument.reals, Json.NumberReader.scaling.ReadsBack x := by
    decide +kernel
  obtain ⟨htext, hlist, -⟩ := reads_list_not_text .scaling newYear
  exact ⟨htimes, hreals, htext, hlist htimes hreals⟩

/-- Not every series is read from its text. -/
theorem not_all_read_from_text :
    ¬ ∀ s : CandleSeries, (∀ c ∈ s.candles, c.volume.isFinite = true) →
      (Json.read? (Json.compact s.toDocument)).bind ofDocument? = some s := by
  intro h
  have hread := h newYear (by decide +kernel)
  rw [read?_text] at hread
  cases hread

end CandleSeries
end Backtest
