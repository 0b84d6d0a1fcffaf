import Backtest.Document.Record
import Backtest.Proofs.Json.RoundTrip

/-!
# Values through documents

A value is encoded by a document that a text can give back and that decodes to the value. Lists and
values that may be absent are encoded by their parts, and a record by its fields: a table with every
field once gives each of them the document under its name, wherever in the table it stands.

## Main definitions

* `Encodes` — a document that stands for a value.
* `encodes_list`, `encodes_nullable_some` — lists and optional values.
* `Record.required_cons_self`, `Record.required_cons_of_ne` — a field is found under its name.
* `Record.encodes_table` — records as tables.
* `Encodes.read?_compact`, `Encodes.read?_pretty` — values through texts, if the reader of numbers
  gives their doubles back.
-/
namespace Backtest

namespace Document

variable {α : Type} {room n : ℕ} {decode : Document → Option α} {d : Document} {x : α}

/-- A document that a text can give back, and that decodes to a value. -/
structure Encodes (room : ℕ) (decode : Document → Option α) (d : Document) (x : α) : Prop where
  fits : d.FitsIn room
  decodes : decode d = some x

/-! ## Single values -/

@[simp] theorem fitsIn_bool (b : Bool) : (Document.bool b).FitsIn room := .bool b

@[simp] theorem fitsIn_text (t : String) : (Document.text t).FitsIn room := .text t

@[simp] theorem fitsIn_real (x : Float) : (Document.real x).FitsIn room ↔ x.isFinite = true :=
  ⟨fun h => by cases h; assumption, .real⟩

@[simp] theorem fitsIn_natCast (h : n < 18446744073709551616) :
    (Document.integer n).FitsIn room :=
  .integer (by omega) (by omega)

@[simp] theorem bool?_bool (b : Bool) : bool? (.bool b) = some b := rfl

@[simp] theorem text?_text (t : String) : text? (.text t) = some t := rfl

@[simp] theorem real?_real (x : Float) : real? (.real x) = some x := rfl

@[simp] theorem choice?_text (named : String → Option α) (t : String) :
    choice? named (.text t) = named t := rfl

@[simp] theorem count?_natCast (h : n < 18446744073709551616) : count? (.integer n) = some n := by
  rw [count?, if_pos (by omega), Int.toNat_natCast]

@[simp] theorem word?_natCast (h : n < 4294967296) : word? (.integer n) = some n := by
  rw [word?, if_pos (by omega), Int.toNat_natCast]

/-! ## Lists and optional values -/

/-- What is encoded one by one is decoded one by one. -/
theorem mapM_map_eq_some {β : Type} {encode : α → β} {read : β → Option α} {xs : List α}
    (h : ∀ x ∈ xs, read (encode x) = some x) : (xs.map encode).mapM read = some xs := by
  induction xs with
  | nil => rfl
  | cons x xs ih =>
    obtain ⟨hx, hxs⟩ := List.forall_mem_cons.1 h
    rw [List.map_cons, List.mapM_cons, hx, ih hxs]
    rfl

theorem encodes_list {encode : α → Document} {xs : List α}
    (h : ∀ x ∈ xs, Encodes room decode (encode x) x) :
    Encodes (room + 1) (listOf? decode) (.list (xs.map encode)) xs where
  fits := by
    refine .list fun d hd => ?_
    obtain ⟨x, hx, rfl⟩ := List.mem_map.1 hd
    exact (h x hx).fits
  decodes := mapM_map_eq_some fun x hx => (h x hx).decodes

/-- Null stands for no value where it is no value itself. -/
theorem encodes_nullable_some (hnull : decode .null = none) (h : Encodes room decode d x) :
    Encodes room (nullable? decode) d (some x) where
  fits := h.fits
  decodes := by
    have hvalue : d ≠ .null := by
      rintro rfl
      rw [h.decodes] at hnull
      cases hnull
    rw [nullable?, h.decodes]
    · rfl
    · exact hvalue

/-! ## Texts -/

theorem Encodes.read?_compact {numbers : Json.NumberReader}
    (h : Encodes Json.maxDepth decode d x) (hreals : ∀ x ∈ d.reals, numbers.ReadsBack x) :
    (Json.read? (Json.compact d) numbers).bind decode = some x := by
  rw [Json.read?_compact h.fits hreals, Option.bind_some, h.decodes]

/-- If numbers are rounded once, nothing more is needed of the doubles. -/
theorem Encodes.read?_compact_nearest (h : Encodes Json.maxDepth decode d x) :
    (Json.read? (Json.compact d) .nearest).bind decode = some x :=
  h.read?_compact fun x hx => Json.NumberReader.readsBack_nearest_iff.2 (h.fits.isFinite x hx)

theorem Encodes.read?_pretty {numbers : Json.NumberReader}
    (h : Encodes Json.maxDepth decode d x) (hreals : ∀ x ∈ d.reals, numbers.ReadsBack x) :
    (Json.read? (Json.pretty d) numbers).bind decode = some x := by
  rw [Json.read?_pretty h.fits hreals, Option.bind_some, h.decodes]

end Document

/-! ## Records -/

namespace Record

variable {α : Type} {positional : Bool} {name other : String} {d : Document}
  {entries : List (String × Document)} {names : List String} {decode : Document → Option α}
  {build : Record → Option α} {room : ℕ} {x : α}

@[simp] theorem find?_cons_self : find? ⟨positional, (name, d) :: entries⟩ name = some d := by
  simp [find?]

@[simp] theorem find?_cons_of_ne (h : other ≠ name) :
    find? ⟨positional, (other, d) :: entries⟩ name = find? ⟨positional, entries⟩ name := by
  simp [find?, h]

@[simp] theorem required_cons_self :
    required ⟨positional, (name, d) :: entries⟩ name decode = decode d := by
  simp [required]

@[simp] theorem required_cons_of_ne (h : other ≠ name) :
    required ⟨positional, (other, d) :: entries⟩ name decode =
      required ⟨positional, entries⟩ name decode := by
  simp [required, h]

@[simp] theorem optional_cons_self :
    optional ⟨positional, (name, d) :: entries⟩ name decode = Document.nullable? decode d := by
  simp [optional]

@[simp] theorem optional_cons_of_ne (h : other ≠ name) :
    optional ⟨positional, (other, d) :: entries⟩ name decode =
      optional ⟨positional, entries⟩ name decode := by
  simp [optional, h]

/-- A table with every field once is the record of its entries. -/
theorem ofDocument?_table (hnames : entries.map (·.1) = names) (hnodup : names.Nodup) :
    ofDocument? names (.table entries) = some ⟨false, entries⟩ := by
  have hknown : entries.filter (fun e => names.contains e.1) = entries := by
    refine List.filter_eq_self.2 fun e he => ?_
    rw [List.contains_iff_mem, ← hnames]
    exact List.mem_map_of_mem he
  have hdistinct : (entries.map (·.1)).Pairwise (· ≠ ·) := by rwa [hnames]
  simp only [ofDocument?, hknown]
  exact if_pos hdistinct

/-- A table with every field once encodes what is built from its fields. -/
theorem encodes_table (hnames : entries.map (·.1) = names) (hnodup : names.Nodup)
    (hfits : (Document.table entries).FitsIn room) (hbuild : build ⟨false, entries⟩ = some x) :
    Document.Encodes room (fun d => (ofDocument? names d).bind build) (.table entries) x where
  fits := hfits
  decodes := by rw [ofDocument?_table hnames hnodup, Option.bind_some, hbuild]

end Record
end Backtest
