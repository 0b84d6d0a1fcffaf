import Backtest.Proofs.Document.Codec
import Backtest.Proofs.Params.Overlay

/-!
# Parameter sets through their texts

Each kind of value is written as a kind of document of its own: an integer never has a point, a
double always has one or an exponent, and a text has quotes. Reading therefore finds the value again
with its kind, and with all its bits if the reader of numbers gives the doubles back. As the entries
stand in the order of their names, two sets have the same text only if they give every name the same
value, whatever reader is in use.

## Main definitions

* `ParamValue.IsFinite`, `ParamSet.IsFinite` — no double is infinite or NaN.
* `ParamValue.encodes`, `ParamSet.encodes` — values and sets through documents.
* `NameMap.eq_iff_find?_eq` — maps are equal if they give every name the same value.
* `ParamSet.canonicalText_identifies` — the text of a set identifies it.
-/
namespace Backtest

open Document (Encodes)

namespace NameMap

variable {α : Type} {m n : NameMap α} {name : String} {value : α}

/-- A name has the value that it has an entry with. -/
theorem find?_eq_some_iff : m.find? name = some value ↔ (name, value) ∈ m.entries := by
  rw [find?, Option.map_eq_some_iff]
  constructor
  · rintro ⟨e, he, rfl⟩
    obtain rfl : e.1 = name := by simpa using List.find?_some he
    exact List.mem_of_find?_eq_some he
  · intro h
    cases hfound : m.entries.find? (·.1 == name) with
    | none => exact absurd (List.find?_eq_none.1 hfound _ h) (by simp)
    | some e =>
      obtain rfl : e.1 = name := by simpa using List.find?_some hfound
      exact ⟨e, rfl, eq_of_mem_of_mem (List.mem_of_find?_eq_some hfound) h⟩

/-- No name occurs twice. -/
theorem nodup_names : (m.entries.map (·.1)).Nodup := by
  refine List.pairwise_map.2 (m.increasing.imp fun hlt heq => ?_)
  rw [heq] at hlt
  exact String.lt_irrefl _ hlt

/-- The order of the names decides the order of the entries. -/
theorem eq_of_perm (h : m.entries.Perm n.entries) : m = n :=
  NameMap.ext (h.eq_of_pairwise (fun _ _ _ _ hab hba => absurd (String.lt_trans hab hba)
    (String.lt_irrefl _)) m.increasing n.increasing)

/-- Maps are equal if they give every name the same value. -/
theorem eq_iff_find?_eq : m = n ↔ ∀ name, m.find? name = n.find? name := by
  refine ⟨fun h _ => h ▸ rfl, fun h => eq_of_perm ?_⟩
  refine (List.perm_ext_iff_of_nodup nodup_names.of_map nodup_names.of_map).2 fun e => ?_
  rw [← find?_eq_some_iff (m := m), ← find?_eq_some_iff (m := n), h]

/-- The entries of a map give the map in whatever order they are put there. -/
theorem ofList_eq_of_perm {es : List (String × α)} (h : es.Perm m.entries) : ofList es = m := by
  have hnodup : (es.map (·.1)).Nodup := (h.map _).nodup_iff.2 nodup_names
  exact eq_of_perm ((entries_ofList_perm hnodup).trans h)

end NameMap

namespace ParamValue

/-- A value that is no infinite or undefined double. -/
def IsFinite : ParamValue → Prop
  | .float x => x.isFinite = true
  | _ => True

instance : DecidablePred IsFinite
  | .float x => inferInstanceAs (Decidable (x.isFinite = true))
  | .bool _ => isTrue trivial
  | .int _ => isTrue trivial
  | .text _ => isTrue trivial

/-- A value is read with its kind. -/
theorem encodes {v : ParamValue} {room : ℕ} (h : v.IsFinite) :
    Encodes room ofDocument? v.toDocument v := by
  cases v with
  | bool b => exact ⟨.bool b, rfl⟩
  | int n =>
    have hleast := n.le_toInt
    have hgreatest := n.toInt_lt
    refine ⟨.integer (by omega) (by omega), ?_⟩
    rw [toDocument, ofDocument?, if_pos ⟨by omega, by omega⟩, Int64.ofInt_toInt]
  | float x => exact ⟨.real h, rfl⟩
  | text t => exact ⟨.text t, rfl⟩

end ParamValue

namespace ParamSet

variable {s t : ParamSet}

/-- A set without infinite or undefined doubles. -/
def IsFinite (s : ParamSet) : Prop := ∀ e ∈ s.entries, e.2.IsFinite

instance : DecidablePred IsFinite := fun s =>
  inferInstanceAs (Decidable (∀ e ∈ s.entries, e.2.IsFinite))

/-- A set is read with all its entries. -/
theorem encodes {room : ℕ} (h : s.IsFinite) : Encodes (room + 1) ofDocument? s.toDocument s where
  fits := by
    refine .table fun e he => ?_
    obtain ⟨x, hx, rfl⟩ := List.mem_map.1 he
    exact (ParamValue.encodes (h x hx)).fits
  decodes := by
    have hentries : (s.entries.map fun e => (e.1, e.2.toDocument)).mapM
        (fun e => (ParamValue.ofDocument? e.2).map fun v => (e.1, v)) = some s.entries :=
      Document.mapM_map_eq_some fun e he => by
        have hvalue : Encodes 0 _ _ _ := ParamValue.encodes (h e he)
        rw [hvalue.decodes, Option.map_some]
    rw [toDocument, ofDocument?, hentries, Option.map_some]
    exact congrArg some (NameMap.ext (NameMap.entries_ofList s.increasing))

/-- The text that identifies a set is read as the set by every reader of numbers that gives its
doubles back. Two sets have the same one only if they are equal, which means that they give every
name the same value, in whatever order the values were put there. -/
theorem canonicalText_identifies (hs : s.IsFinite) :
    (∀ numbers : Json.NumberReader, (∀ x ∈ s.toDocument.reals, numbers.ReadsBack x) →
        (Json.read? s.canonicalText numbers).bind ofDocument? = some s) ∧
      (∀ t : ParamSet, t.IsFinite → (s.canonicalText = t.canonicalText ↔ s = t) ∧
        (s.canonicalText = t.canonicalText ↔ ∀ name, s.find? name = t.find? name)) ∧
      ∀ es, es.Perm s.entries → canonicalText (NameMap.ofList es) = s.canonicalText := by
  -- A reader that rounds once tells the texts apart, so they are different texts.
  have hread : ∀ t : ParamSet, t.IsFinite →
      (Json.read? t.canonicalText .nearest).bind ofDocument? = some t :=
    fun t ht => (encodes ht).read?_compact_nearest
  have hinj : ∀ t : ParamSet, t.IsFinite → (s.canonicalText = t.canonicalText ↔ s = t) :=
    fun t ht => ⟨fun h => Option.some.inj ((hread s hs).symm.trans (h ▸ hread t ht)),
      fun h => h ▸ rfl⟩
  refine ⟨fun numbers => (encodes hs).read?_compact,
    fun t ht => ⟨hinj t ht, (hinj t ht).trans NameMap.eq_iff_find?_eq⟩, ?_⟩
  intro es hes
  rw [NameMap.ofList_eq_of_perm hes]

/-- Values that look alike under names that need escapes. -/
def lookalikes : ParamSet :=
  .ofList [("tab\there", .bool true), ("\"a\\b\"", .text "5"), ("é\u0001", .float (-0.0)),
    ("x", .int 5), ("y", .float 5)]

/-- The same names with the kinds of the numbers exchanged. -/
def lookalikesSwapped : ParamSet :=
  .ofList [("tab\there", .bool true), ("\"a\\b\"", .text "5"), ("é\u0001", .float 0.0),
    ("x", .float 5), ("y", .int 5)]

theorem canonicalText_identifies_lookalikes :
    lookalikes.IsFinite ∧ lookalikesSwapped.IsFinite ∧
      (Json.read? lookalikes.canonicalText).bind ofDocument? = some lookalikes ∧
      lookalikes.canonicalText ≠ lookalikesSwapped.canonicalText := by
  have hfinite : lookalikes.IsFinite := by decide +kernel
  have hswapped : lookalikesSwapped.IsFinite := by decide +kernel
  obtain ⟨hread, hsame, -⟩ := canonicalText_identifies hfinite
  refine ⟨hfinite, hswapped, hread _ (by decide +kernel), fun h => ?_⟩
  have hentries := congrArg NameMap.entries ((hsame _ hswapped).1.1 h)
  exact absurd hentries (by decide +kernel)

end ParamSet
end Backtest
