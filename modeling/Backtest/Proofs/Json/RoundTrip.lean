import Backtest.Proofs.Json.Numbers

/-!
# Documents through their texts

The text of a document is read as this document, with any blanks between its tokens that a spacing
puts there, if its integers have 64 bits, it is not nested too deep, and the reader of numbers reads
the text of each of its doubles as this double. The proof follows the document: each part leaves
what stands behind it, and needs no more steps than its text has characters.

## Main definitions

* `Document.FitsIn` — documents that a text can give back.
* `Document.reals` — the doubles in a document.
* `Spacing.IsBlank` — spacings that put nothing but blanks.
* `readValue?_render` — the text of a document at any place of a text.
* `read?_compact`, `read?_pretty` — whole texts.
-/
namespace Backtest

/-- What a text can give back: integers of 64 bits, finite doubles, and lists and tables that go no
deeper than `room`. -/
inductive Document.FitsIn : ℕ → Document → Prop
  | null {room : ℕ} : FitsIn room .null
  | bool {room : ℕ} (b : Bool) : FitsIn room (.bool b)
  | integer {room : ℕ} {n : ℤ} (hleast : -9223372036854775808 ≤ n)
      (hgreatest : n < 18446744073709551616) : FitsIn room (.integer n)
  | real {room : ℕ} {x : Float} (hfinite : x.isFinite = true) : FitsIn room (.real x)
  | text {room : ℕ} (t : String) : FitsIn room (.text t)
  | list {room : ℕ} {items : List Document} (hitems : ∀ d ∈ items, FitsIn room d) :
      FitsIn (room + 1) (.list items)
  | table {room : ℕ} {entries : List (String × Document)}
      (hentries : ∀ e ∈ entries, FitsIn room e.2) :
      FitsIn (room + 1) (.table entries)

mutual

/-- The doubles in a document. -/
def Document.reals : Document → List Float
  | .real x => [x]
  | .list items => realsOfItems items
  | .table entries => realsOfEntries entries
  | _ => []

/-- The doubles in the items of a list. -/
def Document.realsOfItems : List Document → List Float
  | [] => []
  | d :: items => d.reals ++ realsOfItems items

/-- The doubles in the entries of a table. -/
def Document.realsOfEntries : List (String × Document) → List Float
  | [] => []
  | (_, d) :: entries => d.reals ++ realsOfEntries entries

end

namespace Document

variable {x : Float} {items : List Document} {entries : List (String × Document)}

@[simp] theorem mem_reals_list : x ∈ (list items).reals ↔ ∃ d ∈ items, x ∈ d.reals := by
  rw [reals]
  induction items with
  | nil => simp [realsOfItems]
  | cons d items ih => simp [realsOfItems, ih]

@[simp] theorem mem_reals_table : x ∈ (table entries).reals ↔ ∃ e ∈ entries, x ∈ e.2.reals := by
  rw [reals]
  induction entries with
  | nil => simp [realsOfEntries]
  | cons e entries ih => simp [realsOfEntries, ih]

/-- What a text can give back holds finite doubles only. -/
theorem FitsIn.isFinite {room : ℕ} {d : Document} (h : d.FitsIn room) :
    ∀ x ∈ d.reals, x.isFinite = true := by
  induction h with
  | real hfinite => exact List.forall_mem_singleton.2 hfinite
  | list _ ih =>
    intro x hx
    obtain ⟨d, hd, hx⟩ := mem_reals_list.1 hx
    exact ih d hd x hx
  | table _ ih =>
    intro x hx
    obtain ⟨e, he, hx⟩ := mem_reals_table.1 hx
    exact ih e he x hx
  | _ => exact nofun

end Document

namespace Json

/-! ## Blanks -/

/-- Nothing but blanks. -/
def IsBlank (cs : List Char) : Prop := ∀ c ∈ cs, isBlank c = true

/-- A spacing that puts nothing but blanks. -/
structure Spacing.IsBlank (s : Spacing) : Prop where
  newline : ∀ depth, Json.IsBlank (s.newline depth)
  afterKey : Json.IsBlank s.afterKey

theorem Spacing.isBlank_compact : Spacing.compact.IsBlank where
  newline _ _ h := nomatch h
  afterKey _ h := nomatch h

theorem Spacing.isBlank_pretty : Spacing.pretty.IsBlank where
  newline depth c h := by
    rcases List.mem_cons.1 h with rfl | h
    · rfl
    · rw [List.eq_of_mem_replicate h]
      rfl
  afterKey c h := by
    rw [List.mem_singleton.1 h]
    rfl

section Blank

variable {numbers : NumberReader} {blanks cs rest : List Char} {c : Char}

theorem skipBlanks_append (h : IsBlank blanks) (cs : List Char) :
    skipBlanks (blanks ++ cs) = skipBlanks cs :=
  List.dropWhile_append_of_pos h

theorem skipBlanks_cons (h : isBlank c = false) (cs : List Char) :
    skipBlanks (c :: cs) = c :: cs :=
  List.dropWhile_cons_of_neg (by rw [h]; decide)

theorem readValue?_blanks (h : IsBlank blanks) (fuel depth : ℕ) (cs : List Char) :
    readValue? numbers fuel depth (blanks ++ cs) = readValue? numbers fuel depth cs := by
  cases fuel with
  | zero => rfl
  | succ fuel => rw [readValue?, readValue?, skipBlanks_append h]

theorem readItems?_blanks (h : IsBlank blanks) (fuel depth : ℕ) (acc : List Document)
    (cs : List Char) :
    readItems? numbers fuel depth acc (blanks ++ cs) = readItems? numbers fuel depth acc cs := by
  cases fuel with
  | zero => rfl
  | succ fuel => rw [readItems?, readItems?, readValue?_blanks h]

theorem readEntries?_blanks (h : IsBlank blanks) (fuel depth : ℕ) (acc : List (String × Document))
    (cs : List Char) :
    readEntries? numbers fuel depth acc (blanks ++ cs) =
      readEntries? numbers fuel depth acc cs := by
  cases fuel with
  | zero => rfl
  | succ fuel => rw [readEntries?, readEntries?, skipBlanks_append h]

/-- A blank or a bracket ends a number. -/
theorem endsNumber_blanks (h : IsBlank blanks) (hc : c = ']' ∨ c = '\x7d')
    (rest : List Char) : EndsNumber (blanks ++ c :: rest) := by
  cases blanks with
  | nil =>
    rintro d ⟨⟩
    rcases hc with rfl | rfl <;> decide
  | cons b blanks =>
    rintro d ⟨⟩
    have hb : isBlank b = true := h b List.mem_cons_self
    simp only [isBlank, Bool.or_eq_true, beq_iff_eq] at hb
    rcases hb with ((rfl | rfl) | rfl) | rfl <;> decide

theorem endsNumber_comma (rest : List Char) : EndsNumber (',' :: rest) := by
  rintro d ⟨⟩
  decide

end Blank

/-! ## Single tokens -/

section Token

variable {numbers : NumberReader} {fuel depth : ℕ} {cs rest : List Char} {c : Char} {d : Document}

theorem readValue?_quote (t : String) (fuel depth : ℕ) (rest : List Char) :
    readValue? numbers (fuel + 1) depth (quote t ++ rest) = some (.text t, rest) := by
  have hread := readQuoted?_flatMap_escapeChar t.toList [] rest
  have htext : quote t ++ rest = '"' :: (t.toList.flatMap escapeChar ++ '"' :: rest) := by
    simp [quote]
  rw [htext, readValue?, skipBlanks_cons (by decide)]
  simp only [hread]
  simp

/-- A bracket opens a list, unless it is closed at once. -/
theorem readValue?_bracket {tail : List Char} (h : skipBlanks cs = c :: tail) (hc : c ≠ ']')
    (fuel depth : ℕ) :
    readValue? numbers (fuel + 1) depth ('[' :: cs) =
      readItems? numbers fuel (depth + 1) [] (c :: tail) := by
  simp (disch := decide) only [readValue?, skipBlanks_cons, h]
  split
  · rename_i hclosed
    exact absurd (List.cons.inj hclosed).1 hc
  · rfl

/-- A brace opens a table, unless it is closed at once. -/
theorem readValue?_brace {tail : List Char} (h : skipBlanks cs = c :: tail) (hc : c ≠ '\x7d')
    (fuel depth : ℕ) :
    readValue? numbers (fuel + 1) depth ('\x7b' :: cs) =
      readEntries? numbers fuel (depth + 1) [] (c :: tail) := by
  simp (disch := decide) only [readValue?, skipBlanks_cons, h]
  split
  · rename_i hclosed
    exact absurd (List.cons.inj hclosed).1 hc
  · rfl

/-- What is written for a document begins with its first token. -/
theorem exists_head_render {room : ℕ} (h : d.FitsIn room) (s : Spacing) (depth : ℕ) :
    ∃ c cs, render s depth d = c :: cs ∧ isBlank c = false ∧ c ≠ ']' := by
  have hnumber : ∀ {cs : List Char} {d : Document}, IsNumberText .nearest cs d →
      ∃ c tl, cs = c :: tl ∧ isBlank c = false ∧ c ≠ ']' := by
    rintro cs d ⟨negative, body, rfl, ⟨c, hhead, hdigit⟩, -⟩
    cases body with
    | nil => cases hhead
    | cons b body =>
      cases hhead
      cases negative with
      | true => exact ⟨'-', _, rfl, by decide, by decide⟩
      | false =>
        refine ⟨c, body, rfl, ?_⟩
        rcases Binary64.digit_cases hdigit with
          rfl | rfl | rfl | rfl | rfl | rfl | rfl | rfl | rfl | rfl <;> decide
  cases h with
  | null => exact ⟨'n', _, rfl, by decide, by decide⟩
  | bool b => cases b <;> exact ⟨_, _, rfl, by decide, by decide⟩
  | integer hleast hgreatest => exact hnumber (isNumberText_integerText hleast hgreatest)
  | real hfinite =>
    obtain ⟨negative, t, -, htext⟩ := exists_isNumberText_write hfinite
    exact hnumber (htext .nearest)
  | text t => exact ⟨'"', _, rfl, by decide, by decide⟩
  | list _ => rename_i items _; cases items <;> exact ⟨'[', _, rfl, by decide, by decide⟩
  | table _ => rename_i entries _; cases entries <;> exact ⟨'\x7b', _, rfl, by decide, by decide⟩

end Token

/-! ## Lists and tables -/

/-- A document whose text is read as it, wherever there is room for it. -/
def ReadsBack (numbers : NumberReader) (s : Spacing) (room : ℕ) (d : Document) : Prop :=
  ∀ {fuel depth : ℕ} (place : ℕ) (rest : List Char), depth + room ≤ maxDepth →
    (render s place d).length + 1 ≤ fuel → EndsNumber rest →
      readValue? numbers fuel depth (render s place d ++ rest) = some (d, rest)

section Nested

variable {numbers : NumberReader} {s : Spacing} {room depth : ℕ}

/-- The items of a list are read one after the other. -/
theorem readItems?_renderItems (hs : s.IsBlank) (hdepth : depth + room ≤ maxDepth) (place : ℕ)
    {close : List Char} (hclose : IsBlank close) (items : List Document) {d : Document}
    (hd : ReadsBack numbers s room d) (hitems : ∀ x ∈ items, ReadsBack numbers s room x) (fuel : ℕ)
    (acc : List Document) (rest : List Char)
    (hfuel : (render s place d).length + (renderItems s place items).length + 2 ≤ fuel) :
    readItems? numbers fuel depth acc
        (render s place d ++ (renderItems s place items ++ (close ++ ']' :: rest))) =
      some (nested depth (.list (acc.reverse ++ d :: items)), rest) := by
  induction items generalizing d fuel acc with
  | nil =>
    obtain ⟨f, rfl⟩ : ∃ f, fuel = f + 1 := ⟨fuel - 1, by omega⟩
    have hitem := hd place (close ++ ']' :: rest) hdepth (show _ ≤ f by omega)
      (endsNumber_blanks hclose (.inl rfl) rest)
    simp (disch := decide) only [renderItems, List.nil_append, readItems?, hitem,
      skipBlanks_append hclose, skipBlanks_cons, List.reverse_cons]
  | cons x items ih =>
    obtain ⟨f, rfl⟩ : ∃ f, fuel = f + 1 := ⟨fuel - 1, by omega⟩
    have htext : renderItems s place (x :: items) ++ (close ++ ']' :: rest) = ',' ::
        (s.newline place ++
          (render s place x ++ (renderItems s place items ++ (close ++ ']' :: rest)))) := by
      simp [renderItems]
    have hlength : (render s place x).length + (renderItems s place items).length <
        (renderItems s place (x :: items)).length := by
      simp only [renderItems, List.cons_append, List.length_cons, List.length_append]
      omega
    have hitem := fun tail =>
      hd place (',' :: tail) hdepth (show _ ≤ f by omega) (endsNumber_comma tail)
    have hnext := ih (hitems x List.mem_cons_self)
      (fun y hy => hitems y (List.mem_cons_of_mem _ hy)) f (d :: acc) (by omega)
    rw [htext]
    simp (disch := decide) only [readItems?, hitem, skipBlanks_cons,
      readItems?_blanks (hs.newline place), hnext]
    rw [List.reverse_cons, List.append_assoc, List.singleton_append]

/-- The entries of a table are read one after the other. -/
theorem readEntries?_renderEntries (hs : s.IsBlank) (hdepth : depth + room ≤ maxDepth) (place : ℕ)
    {close : List Char} (hclose : IsBlank close) (entries : List (String × Document)) {k : String}
    {d : Document} (hd : ReadsBack numbers s room d)
    (hentries : ∀ e ∈ entries, ReadsBack numbers s room e.2) (fuel : ℕ)
    (acc : List (String × Document)) (rest : List Char)
    (hfuel : (render s place d).length + (renderEntries s place entries).length + 2 ≤ fuel) :
    readEntries? numbers fuel depth acc
        (quote k ++ ':' :: (s.afterKey ++ (render s place d ++
          (renderEntries s place entries ++ (close ++ '\x7d' :: rest))))) =
      some (nested depth (.table (acc.reverse ++ (k, d) :: entries)), rest) := by
  have hquote : ∀ (key : String) (tail : List Char), quote key ++ tail =
      '"' :: (key.toList.flatMap escapeChar ++ '"' :: tail) := fun key tail => by simp [quote]
  induction entries generalizing k d fuel acc with
  | nil =>
    obtain ⟨f, rfl⟩ : ∃ f, fuel = f + 1 := ⟨fuel - 1, by omega⟩
    have hitem := hd place (close ++ '\x7d' :: rest) hdepth (show _ ≤ f by omega)
      (endsNumber_blanks hclose (.inr rfl) rest)
    simp (disch := decide) only [hquote, renderEntries, List.nil_append, readEntries?,
      readQuoted?_flatMap_escapeChar, List.reverse_nil, String.ofList_toList,
      readValue?_blanks hs.afterKey, hitem, skipBlanks_append hclose, skipBlanks_cons,
      List.reverse_cons]
  | cons e entries ih =>
    obtain ⟨f, rfl⟩ : ∃ f, fuel = f + 1 := ⟨fuel - 1, by omega⟩
    obtain ⟨key, x⟩ := e
    have htext : renderEntries s place ((key, x) :: entries) ++ (close ++ '\x7d' :: rest) = ',' ::
        (s.newline place ++ (quote key ++ ':' :: (s.afterKey ++ (render s place x ++
          (renderEntries s place entries ++ (close ++ '\x7d' :: rest)))))) := by
      simp [renderEntries]
    have hlength : (render s place x).length + (renderEntries s place entries).length <
        (renderEntries s place ((key, x) :: entries)).length := by
      simp only [renderEntries, List.cons_append, List.length_cons, List.length_append]
      omega
    have hitem := fun tail =>
      hd place (',' :: tail) hdepth (show _ ≤ f by omega) (endsNumber_comma tail)
    have hnext := ih (k := key) (d := x) (hentries _ List.mem_cons_self)
      (fun y hy => hentries y (List.mem_cons_of_mem _ hy)) f ((k, d) :: acc) (by omega)
    rw [htext, hquote]
    simp (disch := decide) only [readEntries?, readQuoted?_flatMap_escapeChar, List.reverse_nil,
      List.nil_append, String.ofList_toList, readValue?_blanks hs.afterKey, hitem, skipBlanks_cons,
      readEntries?_blanks (hs.newline place), hnext]
    rw [List.reverse_cons, List.append_assoc, List.singleton_append]

theorem nested_eq {d : Document} (h : depth ≤ maxDepth) : nested depth d = d := if_pos h

/-- A list is read as its items, one level further down. -/
theorem readsBack_list (hs : s.IsBlank) {items : List Document}
    (hitems : ∀ d ∈ items, d.FitsIn room) (hread : ∀ d ∈ items, ReadsBack numbers s room d) :
    ReadsBack numbers s (room + 1) (.list items) := by
  intro fuel depth place rest hdepth hfuel _
  obtain ⟨f, rfl⟩ : ∃ f, fuel = f + 1 := ⟨fuel - 1, by omega⟩
  have hinner : depth + 1 ≤ maxDepth := by omega
  cases items with
  | nil => exact congrArg (fun d => some (d, rest)) (nested_eq hinner)
  | cons x items =>
    obtain ⟨c, cs, hhead, hblank, hbracket⟩ :=
      exists_head_render (hitems x List.mem_cons_self) s (place + 1)
    have htext : render s place (.list (x :: items)) ++ rest = '[' :: (s.newline (place + 1) ++
        (render s (place + 1) x ++ (renderItems s (place + 1) items ++
          (s.newline place ++ ']' :: rest)))) := by
      simp [render]
    have hlength : (render s (place + 1) x).length +
        (renderItems s (place + 1) items).length + 2 ≤ f := by
      simp only [render, List.cons_append, List.length_cons, List.length_append] at hfuel
      omega
    have hinside := readItems?_renderItems hs (show depth + 1 + room ≤ maxDepth by omega)
      (place + 1) (hs.newline place) items (hread x List.mem_cons_self)
      (fun y hy => hread y (List.mem_cons_of_mem _ hy)) f [] rest hlength
    rw [hhead, List.cons_append] at htext hinside
    have hopen := (skipBlanks_append (hs.newline (place + 1)) _).trans
      (skipBlanks_cons hblank (cs ++ (renderItems s (place + 1) items ++
        (s.newline place ++ ']' :: rest))))
    rw [htext, readValue?_bracket hopen hbracket, hinside, nested_eq hinner, List.reverse_nil,
      List.nil_append]

/-- A table is read as its entries, one level further down. -/
theorem readsBack_table (hs : s.IsBlank) {entries : List (String × Document)}
    (hread : ∀ e ∈ entries, ReadsBack numbers s room e.2) :
    ReadsBack numbers s (room + 1) (.table entries) := by
  intro fuel depth place rest hdepth hfuel _
  obtain ⟨f, rfl⟩ : ∃ f, fuel = f + 1 := ⟨fuel - 1, by omega⟩
  have hinner : depth + 1 ≤ maxDepth := by omega
  cases entries with
  | nil => exact congrArg (fun d => some (d, rest)) (nested_eq hinner)
  | cons e entries =>
    obtain ⟨k, x⟩ := e
    have htext : render s place (.table ((k, x) :: entries)) ++ rest = '\x7b' ::
        (s.newline (place + 1) ++ (quote k ++ ':' :: (s.afterKey ++ (render s (place + 1) x ++
          (renderEntries s (place + 1) entries ++ (s.newline place ++ '\x7d' :: rest)))))) := by
      simp [render]
    have hlength : (render s (place + 1) x).length +
        (renderEntries s (place + 1) entries).length + 2 ≤ f := by
      simp only [render, List.cons_append, List.length_cons, List.length_append] at hfuel
      omega
    have hinside := readEntries?_renderEntries hs (show depth + 1 + room ≤ maxDepth by omega)
      (place + 1) (hs.newline place) entries (k := k) (d := x) (hread _ List.mem_cons_self)
      (fun y hy => hread y (List.mem_cons_of_mem _ hy)) f [] rest hlength
    rw [quote, List.cons_append, List.cons_append] at htext hinside
    have hopen := (skipBlanks_append (hs.newline (place + 1)) _).trans
      (skipBlanks_cons (c := '"') (by decide) (k.toList.flatMap escapeChar ++ ['"'] ++ ':' ::
        (s.afterKey ++ (render s (place + 1) x ++ (renderEntries s (place + 1) entries ++
          (s.newline place ++ '\x7d' :: rest))))))
    rw [htext, readValue?_brace hopen (by decide), hinside, nested_eq hinner, List.reverse_nil,
      List.nil_append]

/-- The text of a document at any place of a text, whatever follows it. -/
theorem readValue?_render (hs : s.IsBlank) {d : Document} (h : d.FitsIn room)
    (hreals : ∀ x ∈ d.reals, numbers.ReadsBack x) : ReadsBack numbers s room d := by
  induction h with
  | list hitems ih =>
    refine readsBack_list hs hitems fun d hd => ih d hd fun x hx => ?_
    exact hreals x (Document.mem_reals_list.2 ⟨d, hd, hx⟩)
  | table _ ih =>
    refine readsBack_table hs fun e he => ih e he fun x hx => ?_
    exact hreals x (Document.mem_reals_table.2 ⟨e, he, hx⟩)
  | null =>
    intro fuel depth place rest _ hfuel _
    obtain ⟨f, rfl⟩ : ∃ f, fuel = f + 1 := ⟨fuel - 1, by omega⟩
    rfl
  | bool b =>
    intro fuel depth place rest _ hfuel _
    obtain ⟨f, rfl⟩ : ∃ f, fuel = f + 1 := ⟨fuel - 1, by omega⟩
    cases b <;> rfl
  | integer hleast hgreatest =>
    intro fuel depth place rest _ hfuel hrest
    obtain ⟨f, rfl⟩ : ∃ f, fuel = f + 1 := ⟨fuel - 1, by omega⟩
    exact readValue?_numberText (isNumberText_integerText hleast hgreatest) hrest f depth
  | real _ =>
    intro fuel depth place rest _ hfuel hrest
    obtain ⟨f, rfl⟩ : ∃ f, fuel = f + 1 := ⟨fuel - 1, by omega⟩
    have hback := hreals _ (by rw [Document.reals]; exact List.mem_singleton_self _)
    exact readValue?_numberText (isNumberText_write hback) hrest f depth
  | text t =>
    intro fuel depth place rest _ hfuel _
    obtain ⟨f, rfl⟩ : ∃ f, fuel = f + 1 := ⟨fuel - 1, by omega⟩
    exact readValue?_quote t f depth rest

end Nested

/-! ## Whole texts -/

section Whole

variable {numbers : NumberReader} {d : Document}

/-- The text of a document with any spacing of blanks is read as this document. -/
theorem read?_render {s : Spacing} (hs : s.IsBlank) (h : d.FitsIn maxDepth)
    (hreals : ∀ x ∈ d.reals, numbers.ReadsBack x) :
    read? (String.ofList (render s 0 d)) numbers = some d := by
  have hread : readValue? numbers (2 * (render s 0 d).length + 2) 0 (render s 0 d ++ []) =
      some (d, []) :=
    readValue?_render hs h hreals 0 [] (Nat.le_of_eq (Nat.zero_add _)) (by omega) endsNumber_nil
  rw [List.append_nil] at hread
  simp only [read?, String.toList_ofList, hread]
  rfl

theorem read?_compact (h : d.FitsIn maxDepth) (hreals : ∀ x ∈ d.reals, numbers.ReadsBack x) :
    read? (compact d) numbers = some d :=
  read?_render Spacing.isBlank_compact h hreals

theorem read?_pretty (h : d.FitsIn maxDepth) (hreals : ∀ x ∈ d.reals, numbers.ReadsBack x) :
    read? (pretty d) numbers = some d :=
  read?_render Spacing.isBlank_pretty h hreals

/-- Behind a brace stands a table, if anything. -/
theorem exists_table_of_readEntries? {fuel depth : ℕ} {acc : List (String × Document)}
    {cs rest : List Char} (h : readEntries? numbers fuel depth acc cs = some (d, rest)) :
    ∃ entries, d = nested depth (.table entries) := by
  induction fuel generalizing acc cs with
  | zero => cases h
  | succ fuel ih =>
    rw [readEntries?] at h
    repeat' split at h
    all_goals try cases h
    · exact ih h
    · exact ⟨_, rfl⟩

/-- A text that begins with a brace holds a table. -/
theorem exists_table_of_read? {cs : List Char}
    (h : read? (String.ofList ('\x7b' :: cs)) numbers = some d) :
    ∃ entries, d = .table entries := by
  have hvalue : ∃ rest, readValue? numbers (2 * (cs.length + 1) + 1 + 1) 0 ('\x7b' :: cs) =
      some (d, rest) := by
    simp only [read?, String.toList_ofList, List.length_cons] at h
    split at h
    · rename_i found rest hfound
      split at h
      · cases h
        exact ⟨rest, hfound⟩
      · cases h
    · cases h
  obtain ⟨rest, hvalue⟩ := hvalue
  simp (disch := decide) only [readValue?, skipBlanks_cons] at hvalue
  split at hvalue
  · cases hvalue
    exact ⟨[], rfl⟩
  · obtain ⟨entries, rfl⟩ := exists_table_of_readEntries? hvalue
    exact ⟨entries, rfl⟩

end Whole

end Json
end Backtest
