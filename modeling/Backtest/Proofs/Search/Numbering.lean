import Backtest.Proofs.Outcome
import Backtest.Proofs.Params.Overlay
import Backtest.Search.Space
import Mathlib.Data.List.Forall2
import Mathlib.Tactic.Ring

/-!
# Combinations and their numbers

A combination is a choice of one place on every axis. Read as digits in the mixed radix of the
lengths, the places have a number below the product of the lengths, and the number has these digits
again, so below the product combinations and numbers are the same. A space counts its combinations
only up to a limit, though. Where the product is larger, the numbers below the size belong to the
combinations that are counted first, and those whose number is the limit or more are never tried:
on the first axes of a large space most places are out of reach.

## Main definitions

* `SearchSpace.number` — the number of a choice of places.
* `SearchSpace.digits_number`, `SearchSpace.number_digits` — choices and numbers.
* `SearchSpace.entries_combination` — a combination has the values at its places, and no others.
* `SearchSpace.reaches_iff_number_lt` — which choices have a number below the size.
* `SearchSpace.not_all_reached` — in a large space some have none.
-/
namespace Backtest

namespace SearchSpace

variable {ns ds : List Nat} {space : SearchSpace}

/-! ## Digits in a mixed radix -/

@[simp] theorem product_nil : product [] = 1 := rfl

@[simp] theorem product_cons (n : Nat) (ns : List Nat) : product (n :: ns) = n * product ns := rfl

/-- The number with these digits, the last one of least weight. -/
def number : List Nat → List Nat → Nat
  | _ :: ns, d :: ds => d * product ns + number ns ds
  | _, _ => 0

/-- A choice of one place below every length. -/
abbrev Chooses (ns ds : List Nat) : Prop := List.Forall₂ (fun d n => d < n) ds ns

theorem number_lt_product (h : Chooses ns ds) : number ns ds < product ns := by
  induction h with
  | nil => simp [number]
  | @cons d n ds ns hd hds ih =>
    calc d * product ns + number ns ds
        < d * product ns + product ns := Nat.add_lt_add_left ih _
      _ = (d + 1) * product ns := by ring
      _ ≤ n * product ns := Nat.mul_le_mul_right _ hd

/-- Whole turns of all digits change none of them. -/
theorem digits_mul_product_add (ns : List Nat) (k i : Nat) (h : 0 < product ns) :
    digits ns (k * product ns + i) = digits ns i := by
  induction ns generalizing k with
  | nil => rfl
  | cons n ns ih =>
    have hrest : 0 < product ns := Nat.pos_of_mul_pos_left h
    have hturns : k * (n * product ns) + i = k * n * product ns + i := by ring
    rw [product_cons, hturns, digits, digits, ih (k * n) hrest, Nat.mul_comm (k * n),
      Nat.mul_add_div hrest, Nat.mul_comm k, Nat.mul_add_mod]

/-- The digits are those of what is left of the last turn. -/
theorem digits_mod_product (h : 0 < product ns) (i : Nat) :
    digits ns (i % product ns) = digits ns i := by
  conv_rhs => rw [← Nat.div_add_mod' i (product ns)]
  exact (digits_mul_product_add ns _ _ h).symm

/-- A number has the digits it is made of. -/
theorem digits_number (h : Chooses ns ds) : digits ns (number ns ds) = ds := by
  induction h with
  | nil => rfl
  | @cons d n ds ns hd hds ih =>
    have hlt := number_lt_product hds
    have hpos : 0 < product ns := Nat.zero_lt_of_lt hlt
    have hhead : (d * product ns + number ns ds) / product ns % n = d := by
      rw [Nat.mul_comm, Nat.mul_add_div hpos, Nat.div_eq_of_lt hlt, Nat.add_zero,
        Nat.mod_eq_of_lt hd]
    rw [number, digits, hhead, digits_mul_product_add ns d _ hpos, ih]

/-- Below the product a number is made of its digits. -/
theorem number_digits {i : Nat} (h : i < product ns) : number ns (digits ns i) = i := by
  induction ns generalizing i with
  | nil =>
    rw [product_nil, Nat.lt_one_iff] at h
    exact h.symm
  | cons n ns ih =>
    have hpos : 0 < product ns := Nat.pos_of_mul_pos_left (Nat.zero_lt_of_lt h)
    have hhead : i / product ns < n := (Nat.div_lt_iff_lt_mul hpos).2 h
    rw [digits, number, Nat.mod_eq_of_lt hhead, ← digits_mod_product hpos,
      ih (Nat.mod_lt i hpos), Nat.div_add_mod']

/-- The digits of a number are a choice where every axis has a place. -/
theorem chooses_digits (h : ∀ n ∈ ns, 0 < n) (i : Nat) : Chooses ns (digits ns i) := by
  induction ns with
  | nil => exact .nil
  | cons n ns ih =>
    obtain ⟨hn, hns⟩ := List.forall_mem_cons.1 h
    exact .cons (Nat.mod_lt _ hn) (ih hns)

/-! ## Spaces -/

/-- The names with the values at chosen places. -/
def valuesAt (space : SearchSpace) (ds : List Nat) : List (String × ParamValue) :=
  (space.axes.zip ds).map fun e => (e.1.1, e.1.2.nth e.2)

/-- The axes of a space stand in the order of their names. -/
theorem increasing_names_of_ofRanges {ranges : NameMap ParamChoices}
    (h : ofRanges ranges = .ok space) : space.axes.Pairwise fun a b => a.1 < b.1 := by
  rw [ofRanges, bind_eq_ok_iff] at h
  obtain ⟨axes, haxes, h⟩ := h
  cases h
  have hnames : ∀ (es : List (String × ParamChoices)) (axes : List (String × Axis)),
      es.mapM (fun e => do return (e.1, ← Axis.ofParamRange e.1 e.2)) = .ok axes →
        axes.map (·.1) = es.map (·.1) := by
    intro es
    induction es with
    | nil =>
      intro axes h
      cases h
      rfl
    | cons e rest ih =>
      intro axes h
      rw [List.mapM_cons, bind_eq_ok_iff] at h
      obtain ⟨a, ha, h⟩ := h
      obtain ⟨axis, -, ha⟩ := bind_eq_ok_iff.1 ha
      obtain ⟨as, has, h⟩ := bind_eq_ok_iff.1 h
      cases ha
      cases h
      simp [ih as has]
  have hincreasing := List.pairwise_map.2 ranges.increasing
  rw [← hnames _ _ haxes] at hincreasing
  exact List.pairwise_map.1 hincreasing

@[simp] theorem length_digits (ns : List Nat) (i : Nat) : (digits ns i).length = ns.length := by
  induction ns with
  | nil => rfl
  | cons n ns ih => simp [digits, ih]

/-- A combination has the values at the places of its digits, and no others. -/
theorem entries_combination (h : space.axes.Pairwise fun a b => a.1 < b.1) (i : Nat) :
    (space.combination i).entries = space.valuesAt (digits space.lengths i) := by
  have hfst : (space.axes.zip (digits space.lengths i)).map (·.1) = space.axes :=
    List.map_fst_zip (by simp [lengths])
  refine NameMap.entries_ofList (List.pairwise_map.2 ?_)
  rw [← hfst] at h
  have hzip := List.pairwise_map.1 h
  exact hzip

/-- Below the size a choice has no number but its own. -/
theorem digits_eq_iff (h : Chooses space.lengths ds) {i : Nat} (hi : i < space.size) :
    digits space.lengths i = ds ↔ i = number space.lengths ds := by
  constructor
  · rintro rfl
    exact (number_digits (Nat.lt_of_lt_of_le hi (Nat.min_le_left _ _))).symm
  · rintro rfl
    exact digits_number h

theorem number_lt_size_iff (h : Chooses space.lengths ds) :
    number space.lengths ds < space.size ↔ number space.lengths ds < sizeLimit := by
  have hproduct := number_lt_product h
  rw [size]
  omega

/-- Some number below the size stands for the values at chosen places. -/
def Reaches (space : SearchSpace) (ds : List Nat) : Prop :=
  ∃ i < space.size, (space.combination i).entries = space.valuesAt ds

/-- The places of a choice belong to a number below the size exactly if their number in the mixed
radix is below the limit of the size. Where the product of the lengths is within the limit, every
choice of values is reached. -/
theorem reaches_iff_number_lt {ranges : NameMap ParamChoices} (hspace : ofRanges ranges = .ok space)
    (h : Chooses space.lengths ds) :
    ((∃ i < space.size, digits space.lengths i = ds) ↔ number space.lengths ds < sizeLimit) ∧
      (number space.lengths ds < sizeLimit → space.Reaches ds) ∧
      (product space.lengths ≤ sizeLimit → space.Reaches ds) := by
  have hreached : number space.lengths ds < sizeLimit → space.Reaches ds := by
    intro hlt
    refine ⟨_, (number_lt_size_iff h).2 hlt, ?_⟩
    rw [entries_combination (increasing_names_of_ofRanges hspace), digits_number h]
  refine ⟨?_, hreached, fun hproduct => ?_⟩
  · rw [← number_lt_size_iff h]
    constructor
    · rintro ⟨i, hi, hdigits⟩
      rwa [← (digits_eq_iff h hi).1 hdigits]
    · intro hlt
      exact ⟨_, hlt, digits_number h⟩
  · exact hreached (Nat.lt_of_lt_of_le (number_lt_product h) hproduct)

/-- Three ranges with more combinations than a size tells apart. -/
def wideRanges : NameMap ParamChoices :=
  .ofList [("a", .range (.int 0) (.int 1) (.int 1)),
    ("b", .range (.int 0) (.int 4294967294) (.int 1)),
    ("c", .range (.int 0) (.int 4294967294) (.int 1))]

/-- Their space. -/
def wide : SearchSpace :=
  ⟨[("a", .ints 0 1 2), ("b", .ints 0 1 4294967295), ("c", .ints 0 1 4294967295)]⟩

theorem ofRanges_wideRanges : ofRanges wideRanges = .ok wide := rfl

/-- The last choice of a large space that is reached. -/
theorem reaches_iff_number_lt_wide :
    Chooses wide.lengths [1, 1, 4294967294] ∧ sizeLimit < product wide.lengths ∧
      wide.Reaches [1, 1, 4294967294] := by
  have hchoice : Chooses wide.lengths [1, 1, 4294967294] := by
    simp [Chooses, wide, lengths, Axis.length]
  have hlt : number wide.lengths [1, 1, 4294967294] < sizeLimit := by decide
  exact ⟨hchoice, by decide, (reaches_iff_number_lt ofRanges_wideRanges hchoice).2.1 hlt⟩

/-- A range from zero in steps of one has its places as values. -/
theorem nth_ints {i n : Nat} (hi : i < 2 ^ 63) :
    (Axis.ints 0 1 n).nth i = .int (Int64.ofInt i) ∧ (Int64.ofInt i).toInt = i := by
  constructor
  · simp [Axis.nth]
  · exact Int64.toInt_ofInt_of_le (by omega) (by omega)

/-- So its values tell the places apart. -/
theorem eq_of_nth_ints_eq {i j n : Nat} (hi : i < 2 ^ 63) (hj : j < 2 ^ 63)
    (h : (Axis.ints 0 1 n).nth i = (Axis.ints 0 1 n).nth j) : i = j := by
  obtain ⟨hvalue, hplace⟩ := nth_ints (n := n) hi
  obtain ⟨hvalue', hplace'⟩ := nth_ints (n := n) hj
  rw [hvalue, hvalue'] at h
  have hsame : Int64.ofInt i = Int64.ofInt j := by simpa using h
  rw [hsame, hplace'] at hplace
  exact (Int.ofNat_inj.1 hplace).symm

/-- Not every choice of values in an accepted space has a number below the size. -/
theorem not_all_reached :
    ¬ ∀ (ranges : NameMap ParamChoices) (space : SearchSpace), ofRanges ranges = .ok space →
      (∀ n ∈ space.lengths, 1 ≤ n ∧ n ≤ maxAxisValues) →
      ∀ ds, Chooses space.lengths ds → space.Reaches ds := by
  intro h
  have hlengths : ∀ n ∈ wide.lengths, 1 ≤ n ∧ n ≤ maxAxisValues := by decide
  have hchoice : Chooses wide.lengths [1, 2, 0] := by
    simp [Chooses, wide, lengths, Axis.length]
  obtain ⟨i, hi, hentries⟩ := h wideRanges wide ofRanges_wideRanges hlengths _ hchoice
  rw [entries_combination (increasing_names_of_ofRanges ofRanges_wideRanges)] at hentries
  have hdigits := chooses_digits (fun n hn => (hlengths n hn).1) i
  have hplaces : digits wide.lengths i = [1, 2, 0] := by
    generalize digits wide.lengths i = ds at hentries hdigits
    change Chooses [2, 4294967295, 4294967295] ds at hdigits
    obtain _ | ⟨ha, _ | ⟨hb, _ | ⟨hc, ⟨⟩⟩⟩⟩ := hdigits
    obtain ⟨hentry, hentry', hentry''⟩ := by simpa [valuesAt, wide] using hentries
    rw [eq_of_nth_ints_eq (by omega) (by decide) hentry,
      eq_of_nth_ints_eq (by omega) (by decide) hentry',
      eq_of_nth_ints_eq (by omega) (by decide) hentry'']
  have hnumber := (digits_eq_iff hchoice hi).1 hplaces
  subst hnumber
  exact absurd hi (by decide)

end SearchSpace
end Backtest
