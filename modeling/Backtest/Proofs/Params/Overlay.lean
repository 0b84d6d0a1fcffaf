import Backtest.Params.Set

/-!
# Entries under one another

Inserting gives a name its value and leaves all other names alone, so an entry comes through a row
of insertions under other names, and nothing comes in that was not inserted. Entries under different
names all stay, so their map has the same entries in the order of the names. As the names of a map
increase, no name has two values.

## Main definitions

* `NameMap.mem_insertAll_of_forall_ne` — what is not written over stays.
* `NameMap.mem_of_mem_ofList` — a map has no entries but those of its list.
* `NameMap.entries_ofList`, `NameMap.entries_ofList_perm` — the map of a list of different names.
* `NameMap.eq_of_mem_of_mem` — a name has one value.
-/
namespace Backtest.NameMap

variable {α : Type} {name : String} {value : α} {e : String × α} {es : List (String × α)}
  {m : NameMap α}

theorem mem_insertEntry_of_ne (he : e ∈ es) (hne : name ≠ e.1) :
    e ∈ insertEntry name value es := by
  induction es with
  | nil => cases he
  | cons x xs ih =>
    rw [insertEntry]
    split
    · exact List.mem_cons_of_mem _ he
    · split
      · rename_i hname
        rcases List.mem_cons.1 he with rfl | he
        · exact absurd hname hne
        · exact List.mem_cons_of_mem _ he
      · rcases List.mem_cons.1 he with rfl | he
        · exact List.mem_cons_self
        · exact List.mem_cons_of_mem _ (ih he)

/-- Insertions under other names leave an entry alone. -/
theorem mem_insertAll_of_forall_ne (he : e ∈ m.entries) (hne : ∀ x ∈ es, x.1 ≠ e.1) :
    e ∈ (m.insertAll es).entries := by
  induction es generalizing m with
  | nil => exact he
  | cons x rest ih =>
    obtain ⟨hx, hrest⟩ := List.forall_mem_cons.1 hne
    exact ih (m := m.insert x.1 x.2) (mem_insertEntry_of_ne he hx) hrest

/-- Insertions bring in nothing else. -/
theorem mem_insertAll (he : e ∈ (m.insertAll es).entries) : e ∈ m.entries ∨ e ∈ es := by
  induction es generalizing m with
  | nil => exact .inl he
  | cons x rest ih =>
    rcases ih (m := m.insert x.1 x.2) he with h | h
    · rcases mem_insertEntry h with rfl | h
      · exact .inr List.mem_cons_self
      · exact .inl h
    · exact .inr (List.mem_cons_of_mem x h)

theorem mem_of_mem_ofList (he : e ∈ (ofList es).entries) : e ∈ es :=
  (mem_insertAll he).resolve_left List.not_mem_nil

/-- A name after all others comes last. -/
theorem insertEntry_of_forall_lt (h : ∀ e ∈ es, e.1 < name) :
    insertEntry name value es = es ++ [(name, value)] := by
  induction es with
  | nil => rfl
  | cons e rest ih =>
    obtain ⟨he, hrest⟩ := List.forall_mem_cons.1 h
    have hne : name ≠ e.1 := fun heq => String.lt_irrefl _ (heq ▸ he)
    simp [insertEntry, String.lt_asymm he, hne, ih hrest]

/-- Names that go on increasing are put at the end. -/
theorem entries_insertAll (h : (m.entries ++ es).Pairwise fun a b => a.1 < b.1) :
    (m.insertAll es).entries = m.entries ++ es := by
  induction es generalizing m with
  | nil => simp [insertAll]
  | cons e rest ih =>
    have hlast : (m.insert e.1 e.2).entries = m.entries ++ [e] :=
      insertEntry_of_forall_lt fun x hx =>
        (List.pairwise_append.1 h).2.2 x hx e List.mem_cons_self
    have hnext := ih (m := m.insert e.1 e.2) (by simpa [hlast] using h)
    exact hnext.trans (by simp [hlast])

/-- A list in the order of its names is the entries of its map. -/
theorem entries_ofList (h : es.Pairwise fun a b => a.1 < b.1) : (ofList es).entries = es :=
  entries_insertAll (m := empty) h

/-- A new name only adds its entry. -/
theorem insertEntry_perm (h : ∀ e ∈ es, e.1 ≠ name) :
    (insertEntry name value es).Perm ((name, value) :: es) := by
  induction es with
  | nil => exact .refl _
  | cons e rest ih =>
    obtain ⟨he, hrest⟩ := List.forall_mem_cons.1 h
    rw [insertEntry]
    split
    · exact .refl _
    · rw [if_neg (Ne.symm he)]
      exact ((ih hrest).cons e).trans (.swap _ _ _)

/-- New names that differ only add their entries. -/
theorem entries_insertAll_perm (h : ((m.entries ++ es).map (·.1)).Nodup) :
    (m.insertAll es).entries.Perm (m.entries ++ es) := by
  induction es generalizing m with
  | nil => simp [insertAll]
  | cons e rest ih =>
    have hmiddle : (m.entries ++ e :: rest).Perm (e :: (m.entries ++ rest)) := List.perm_middle
    have hnodup := (hmiddle.map (·.1)).nodup_iff.1 h
    have hnew : ∀ x ∈ m.entries, x.1 ≠ e.1 := fun x hx heq =>
      (List.nodup_cons.1 hnodup).1 (List.mem_map.2 ⟨x, List.mem_append_left _ hx, heq⟩)
    have hinsert : (m.insert e.1 e.2).entries.Perm (e :: m.entries) := insertEntry_perm hnew
    have hnext := ih (m := m.insert e.1 e.2)
      (((hinsert.append_right rest).map (·.1)).nodup_iff.2 hnodup)
    exact (hnext.trans (hinsert.append_right rest)).trans hmiddle.symm

/-- The map of a list of different names has the entries of the list. -/
theorem entries_ofList_perm (h : (es.map (·.1)).Nodup) : (ofList es).entries.Perm es :=
  entries_insertAll_perm (m := empty) h

/-- A name has one value. -/
theorem eq_of_mem_of_mem {v w : α} (hv : (name, v) ∈ m.entries) (hw : (name, w) ∈ m.entries) :
    v = w := by
  have hincreasing := m.increasing
  generalize m.entries = es at hv hw hincreasing
  induction es with
  | nil => cases hv
  | cons x xs ih =>
    obtain ⟨hhead, htail⟩ := List.pairwise_cons.1 hincreasing
    rcases List.mem_cons.1 hv with rfl | hv'
    · rcases List.mem_cons.1 hw with hpair | hw'
      · exact (Prod.mk.inj hpair).2.symm
      · exact absurd (hhead (name, w) hw') (String.lt_irrefl name)
    · rcases List.mem_cons.1 hw with rfl | hw'
      · exact absurd (hhead (name, v) hv') (String.lt_irrefl name)
      · exact ih hv' hw' htail

end Backtest.NameMap
