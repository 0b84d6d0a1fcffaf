import Backtest.Proofs.Search.Numbering
import Mathlib.Data.List.Nodup

/-!
# Combinations in order

The digits of a number come off it from the last axis on: each is the remainder by the length of its
axis, and the quotient is left for the axes before. Below the product nothing is left in the end. Of
two numbers the smaller one has the smaller digit at the first place where they differ, so the
combinations go through the places of the axes in lexicographic order, the last axis fastest. All of
this holds below the size of a space, also where the size stands for a larger product. On axes that
repeat no value, different numbers give different combinations.

## Main definitions

* `SearchSpace.peel` — digits taken off a number from the last one on.
* `SearchSpace.peel_eq` — what is taken off, and what is left.
* `SearchSpace.digits_lt_digits` — digits keep the order of the numbers.
* `SearchSpace.eq_of_valuesAt_eq` — without repeated values a choice is told by its values.
* `SearchSpace.combinations_in_order` — how a space enumerates its combinations.
-/
namespace Backtest.SearchSpace

variable {ns ds ds' : List Nat} {space : SearchSpace} {i j : Nat}

/-! ## Digits in order -/

/-- Takes the digits off a number from the last one on: what is left of it, and the digits. -/
def peel (ns : List Nat) (i : Nat) : Nat × List Nat :=
  ns.foldr (fun n taken => (taken.1 / n, taken.1 % n :: taken.2)) (i, [])

/-- The digits are those of the number, and the turns of all of them are left. -/
theorem peel_eq (ns : List Nat) (i : Nat) : peel ns i = (i / product ns, digits ns i) := by
  induction ns with
  | nil => simp [peel, digits]
  | cons n ns ih =>
    have hrest : peel (n :: ns) i = ((peel ns i).1 / n, (peel ns i).1 % n :: (peel ns i).2) := rfl
    rw [hrest, ih, product_cons, digits, Nat.div_div_eq_div_mul, Nat.mul_comm n]

/-- Below the product there is a place on every axis. -/
theorem pos_of_product_pos (h : 0 < product ns) : ∀ n ∈ ns, 0 < n := by
  induction ns with
  | nil => exact fun n hn => absurd hn List.not_mem_nil
  | cons n ns ih =>
    exact List.forall_mem_cons.2 ⟨Nat.pos_of_mul_pos_right h, ih (Nat.pos_of_mul_pos_left h)⟩

/-- Digits keep the order of the numbers. -/
theorem digits_lt_digits (hij : i < j) (hj : j < product ns) : digits ns i < digits ns j := by
  induction ns generalizing i j with
  | nil =>
    rw [product_nil] at hj
    omega
  | cons n ns ih =>
    have hpos : 0 < product ns := Nat.pos_of_mul_pos_left (Nat.zero_lt_of_lt hj)
    -- Below the product the leading digit is the whole quotient.
    have hlead {k : Nat} (hk : k < product (n :: ns)) : k / product ns % n = k / product ns :=
      Nat.mod_eq_of_lt ((Nat.div_lt_iff_lt_mul hpos).2 hk)
    rw [digits, digits, hlead (hij.trans hj), hlead hj]
    rcases Nat.lt_or_eq_of_le (Nat.div_le_div_right (c := product ns) hij.le) with hlt | hsame
    · exact .rel hlt
    · have hrest : i % product ns < j % product ns := by
        have hi := Nat.div_add_mod i (product ns)
        have hj' := Nat.div_add_mod j (product ns)
        rw [hsame] at hi
        omega
      rw [hsame, ← digits_mod_product hpos i, ← digits_mod_product hpos j]
      exact .cons (ih hrest (Nat.mod_lt j hpos))

/-! ## Combinations in order -/

/-- The values of an axis tell its places apart if none is repeated. -/
theorem eq_of_nth_eq {axis : Axis} (h : axis.values.Nodup) (hi : i < axis.length)
    (hj : j < axis.length) (hvalue : axis.nth i = axis.nth j) : i = j :=
  (List.nodup_map_iff_inj_on List.nodup_range).1 h i (List.mem_range.2 hi) j (List.mem_range.2 hj)
    hvalue

/-- Without repeated values a choice is told by its values. -/
theorem eq_of_valuesAt_eq (hdistinct : ∀ e ∈ space.axes, e.2.values.Nodup)
    (hds : Chooses space.lengths ds) (hds' : Chooses space.lengths ds')
    (h : space.valuesAt ds = space.valuesAt ds') : ds = ds' := by
  obtain ⟨axes⟩ := space
  induction axes generalizing ds ds' with
  | nil =>
    cases hds
    cases hds'
    rfl
  | cons e axes ih =>
    obtain ⟨hvalues, hrest⟩ := List.forall_mem_cons.1 hdistinct
    cases hds with
    | @cons d _ ds _ hd hds =>
      cases hds' with
      | @cons d' _ ds' _ hd' hds' =>
        obtain ⟨hfirst, hothers⟩ := List.cons.inj h
        rw [eq_of_nth_eq hvalues hd hd' (Prod.mk.inj hfirst).2, ih hrest hds hds' hothers]

theorem names_combination (h : space.axes.Pairwise fun a b => a.1 < b.1) (i : Nat) :
    (space.combination i).names = space.names := by
  have hfst : (space.axes.zip (digits space.lengths i)).map (·.1) = space.axes :=
    List.map_fst_zip (by simp [lengths])
  rw [NameMap.names, entries_combination h, valuesAt, List.map_map, names]
  conv_rhs => rw [← hfst, List.map_map]
  rfl

theorem lt_product_of_lt_size (h : i < space.size) : i < product space.lengths :=
  Nat.lt_of_lt_of_le h (Nat.min_le_left _ _)

/-- What the number of a combination stands for. -/
structure Decodes (space : SearchSpace) (i : Nat) : Prop where
  places : Chooses space.lengths (digits space.lengths i)
  number : number space.lengths (digits space.lengths i) = i
  taken : peel space.lengths i = (0, digits space.lengths i)
  names : (space.combination i).names = space.names
  values : (space.combination i).entries = space.valuesAt (digits space.lengths i)

/-- **A space enumerates its combinations in order.** The digits of a number below the size are
places on the axes and make up the number again; they are what is taken off it from the last axis
on, with nothing left; and the combination has the names of the axes with the values at these
places. A smaller number has the lexicographically smaller digits. If no axis repeats a value,
different numbers give different combinations. -/
theorem combinations_in_order {ranges : NameMap ParamChoices}
    (hspace : ofRanges ranges = .ok space) :
    (∀ i < space.size, space.Decodes i) ∧
      (∀ i j, i < j → j < space.size → digits space.lengths i < digits space.lengths j) ∧
      ((∀ e ∈ space.axes, e.2.values.Nodup) →
        ∀ i j, i < j → j < space.size → space.combination i ≠ space.combination j) := by
  have hincreasing := increasing_names_of_ofRanges hspace
  have hplaces : ∀ i < space.size, Chooses space.lengths (digits space.lengths i) := fun i hi =>
    chooses_digits (pos_of_product_pos (Nat.zero_lt_of_lt (lt_product_of_lt_size hi))) i
  have horder : ∀ i j, i < j → j < space.size →
      digits space.lengths i < digits space.lengths j := fun i j hij hj =>
    digits_lt_digits hij (lt_product_of_lt_size hj)
  refine ⟨fun i hi => ?_, horder, fun hdistinct i j hij hj hsame => ?_⟩
  · exact {
      places := hplaces i hi
      number := number_digits (lt_product_of_lt_size hi)
      taken := by rw [peel_eq, Nat.div_eq_of_lt (lt_product_of_lt_size hi)]
      names := names_combination hincreasing i
      values := entries_combination hincreasing i }
  · have hentries := congrArg NameMap.entries hsame
    rw [entries_combination hincreasing, entries_combination hincreasing] at hentries
    have hdigits := eq_of_valuesAt_eq hdistinct (hplaces i (hij.trans hj)) (hplaces j hj) hentries
    have hlt := horder i j hij hj
    rw [hdigits] at hlt
    exact absurd hlt (List.lt_irrefl _)

/-- A range from zero in steps of one repeats no value. -/
theorem nodup_values_ints {n : Nat} (hn : n ≤ 2 ^ 63) : (Axis.ints 0 1 n).values.Nodup := by
  refine List.Nodup.map_on (fun i hi j hj h => ?_) List.nodup_range
  have hi' : i < n := List.mem_range.1 hi
  have hj' : j < n := List.mem_range.1 hj
  exact eq_of_nth_ints_eq (by omega) (by omega) h

/-- The last two combinations of a space whose size stands for a larger product. -/
theorem combinations_in_order_wide :
    ofRanges wideRanges = .ok wide ∧ sizeLimit < product wide.lengths ∧
      wide.Decodes (sizeLimit - 1) ∧
      digits wide.lengths (sizeLimit - 2) < digits wide.lengths (sizeLimit - 1) ∧
      wide.combination (sizeLimit - 2) ≠ wide.combination (sizeLimit - 1) := by
  have hdistinct : ∀ e ∈ wide.axes, e.2.values.Nodup := by
    simp only [wide, List.forall_mem_cons]
    exact ⟨nodup_values_ints (by decide), nodup_values_ints (by decide),
      nodup_values_ints (by decide), fun _ h => absurd h List.not_mem_nil⟩
  have hlt : sizeLimit - 2 < sizeLimit - 1 := by decide
  have hsize : sizeLimit - 1 < wide.size := by decide
  obtain ⟨hdecodes, horder, hdifferent⟩ := combinations_in_order ofRanges_wideRanges
  exact ⟨ofRanges_wideRanges, by decide, hdecodes _ hsize, horder _ _ hlt hsize,
    hdifferent hdistinct _ _ hlt hsize⟩

end Backtest.SearchSpace
