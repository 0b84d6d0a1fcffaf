import Backtest.Random.Sample
import Mathlib

/-!
# Samples without repetition

A word scaled below a bound is below it, whatever words the generator gives and however often a draw
may be repeated. A bound of the repetitions that is not met has no part in what is drawn: every
larger one gives the same. From this each method of sampling draws as many different numbers below a
length as it should: shuffling exchanges places and so never repeats a number; what Floyd's method
adds is either a number that is not taken or the newest of the range, which is above everything
taken before; and drawing until a number is new only ends with a new one. Sorting such a sample
makes it strictly rising.

## Main definitions

* `IsSample` — so many different numbers below a length.
* `drawScaled_add`, `drawNew_add` — a bound that is not met is as good as none.
* `isSample_inPlace`, `isSample_floyd`, `isSample_rejecting` — what the three methods draw.
* `isSample_indices` — the sample in rising order.
-/
namespace Backtest.Sample

variable {patience length amount count : ℕ}

/-! ## Draws below a bound -/

/-- A scaled word is below the range, also when no draw was accepted. -/
theorem drawScaled_lt {bits range : ℕ} (zone : ℕ) {next : Generator → ℕ × Generator}
    (hrange : 0 < range) (hnext : ∀ g, (next g).1 < 2 ^ bits) (tries : ℕ) (g : Generator) :
    (drawScaled bits range zone next tries g).1 < range := by
  induction tries generalizing g with
  | zero => exact hrange
  | succ tries ih =>
    rw [drawScaled]
    dsimp only
    split
    · exact Nat.div_lt_of_lt_mul (Nat.mul_lt_mul_of_pos_right (hnext g) hrange)
    · exact ih _

/-- Once a word was accepted, the draw is repeated no more, so a larger bound changes nothing. The
word that is accepted is the one after `k` others. -/
theorem drawScaled_add {bits range zone tries k : ℕ} {next : Generator → ℕ × Generator}
    {g : Generator} (hk : k < tries)
    (haccepted : (next ((fun g => (next g).2)^[k] g)).1 * range % Nat.pow 2 bits ≤ zone)
    (more : ℕ) :
    drawScaled bits range zone next (tries + more) g =
      drawScaled bits range zone next tries g := by
  induction tries generalizing k g with
  | zero => exact absurd hk (Nat.not_lt_zero k)
  | succ tries ih =>
    rw [Nat.add_right_comm, drawScaled, drawScaled]
    dsimp only
    split
    · rfl
    · rename_i hrefused
      cases k with
      | zero => exact absurd haccepted hrefused
      | succ k => exact ih (Nat.lt_of_succ_lt_succ hk) haccepted

theorem word32_lt (g : Generator) : (word32 g).1 < 2 ^ 32 := UInt32.toNat_lt _

theorem word64_lt (g : Generator) : (word64 g).1 < 2 ^ 64 := UInt64.toNat_lt _

/-- A number between two bounds of 32 bits, unless all words are between them. -/
theorem between_mem {low high : ℕ} (h : low ≤ high) (hrange : high - low + 1 < 4294967296)
    (g : Generator) :
    low ≤ (between patience low high g).1 ∧ (between patience low high g).1 ≤ high := by
  have hpos : 0 < high - low + 1 := by omega
  have hlt := drawScaled_lt ((high - low + 1) * Nat.pow 2 (31 - (high - low + 1).log2) - 1) hpos
    word32_lt patience g
  rw [between, if_neg (by omega)]
  dsimp only
  omega

theorem below_lt {bits : ℕ} {next : Generator → ℕ × Generator} (hlength : 0 < length)
    (hnext : ∀ g, (next g).1 < 2 ^ bits) (g : Generator) :
    (below patience bits next length g).1 < length :=
  drawScaled_lt _ hlength hnext patience g

/-! ## The three methods -/

/-- So many different numbers below a length. -/
structure IsSample (length amount : ℕ) (drawn : List ℕ) : Prop where
  nodup : drawn.Nodup
  lt : ∀ n ∈ drawn, n < length
  length_eq : drawn.length = amount

/-- Exchanging places keeps the numbers. -/
theorem perm_shuffleFront (count i : ℕ) (xs : Array ℕ) (g : Generator) :
    (shuffleFront patience length count i xs g).toList.Perm xs.toList := by
  induction count generalizing i xs g with
  | zero => exact .refl _
  | succ count ih =>
    rw [shuffleFront]
    refine (ih _ _ _).trans ?_
    rw [Array.swapIfInBounds]
    split
    · split
      · exact (Array.swap_perm _ _).toList
      · exact .refl _
    · exact .refl _

/-- The front of a shuffled range is a sample. -/
theorem isSample_inPlace (h : amount ≤ length) (g : Generator) :
    IsSample length amount (inPlace patience length amount g) := by
  have hperm : (shuffleFront patience length amount 0 (Array.range length) g).toList.Perm _ :=
    perm_shuffleFront amount 0 (Array.range length) g
  rw [Array.toList_range] at hperm
  have hfront := List.take_sublist amount
    (shuffleFront patience length amount 0 (Array.range length) g).toList
  exact {
    nodup := (hperm.nodup_iff.2 List.nodup_range).sublist hfront
    lt := fun n hn => List.mem_range.1 (hperm.subset (hfront.subset hn))
    length_eq := by rw [inPlace, List.length_take, hperm.length_eq, List.length_range]; omega }

/-- Floyd's method adds the numbers that are missing. What is taken lies below the newest number of
the range, so this one is never taken. -/
theorem isSample_floyd (hlength : length < 4294967296) {taken : List ℕ} (g : Generator)
    (hcount : count ≤ length) (hnodup : taken.Nodup) (hbelow : ∀ n ∈ taken, n < length - count) :
    IsSample length (count + taken.length) (floyd patience length count taken g) := by
  induction count generalizing taken g with
  | zero => exact ⟨hnodup, hbelow, (Nat.zero_add _).symm⟩
  | succ count ih =>
    rw [floyd]
    dsimp only
    have hdrawn : (between patience 0 (length - (count + 1)) g).1 ≤ length - (count + 1) :=
      (between_mem (Nat.zero_le _) (by omega) g).2
    generalize between patience 0 (length - (count + 1)) g = drawn at hdrawn ⊢
    obtain ⟨t, g'⟩ := drawn
    have hnew : (if taken.contains t then length - (count + 1) else t) ∉ taken := by
      split
      · exact fun hmem => Nat.lt_irrefl _ (hbelow _ hmem)
      · rename_i hfresh
        exact fun hmem => hfresh (List.contains_iff_mem.2 hmem)
    have hle : (if taken.contains t then length - (count + 1) else t) ≤ length - (count + 1) := by
      split
      · exact Nat.le_refl _
      · exact hdrawn
    have hrest := ih g' (by omega) (List.nodup_cons.2 ⟨hnew, hnodup⟩) (by
      rw [List.forall_mem_cons]
      exact ⟨by omega, fun n hn => by have := hbelow n hn; omega⟩)
    rwa [List.length_cons, ← Nat.add_assoc, Nat.add_right_comm] at hrest

/-- Among one more number than are taken there is one that is not. -/
theorem leastNew_spec {taken : Std.HashSet ℕ} (more i : ℕ) (hbelow : ∀ n < i, n ∈ taken)
    (hroom : i + more = taken.size) :
    leastNew taken more i ∉ taken ∧ leastNew taken more i ≤ taken.size := by
  induction more generalizing i with
  | zero =>
    rw [leastNew]
    refine ⟨fun hmem => ?_, by omega⟩
    have hsubset : List.range (taken.size + 1) ⊆ taken.toList := by
      intro n hn
      rw [List.mem_range, Nat.lt_succ_iff_lt_or_eq] at hn
      rw [Std.HashSet.mem_toList]
      rcases hn with hn | rfl
      · exact hbelow n (by omega)
      · rwa [← hroom]
    have hlength := (List.subperm_of_subset List.nodup_range hsubset).length_le
    rw [List.length_range, Std.HashSet.length_toList] at hlength
    omega
  | succ more ih =>
    rw [leastNew]
    split
    · rename_i htaken
      refine ih (i + 1) (fun n hn => ?_) (by omega)
      rcases Nat.lt_succ_iff_lt_or_eq.1 hn with hn | rfl
      · exact hbelow n hn
      · exact Std.HashSet.mem_iff_contains.2 htaken
    · rename_i hfresh
      exact ⟨fun hmem => hfresh (Std.HashSet.mem_iff_contains.1 hmem), by omega⟩

/-- A number that is drawn anew is not taken, and one that had to be searched for is below the
length too. -/
theorem drawNew_spec {draw : Generator → ℕ × Generator}
    (hdraw : 0 < length → ∀ g, (draw g).1 < length) {taken : Std.HashSet ℕ}
    (hroom : taken.size < length) (tries : ℕ) (g : Generator) :
    (drawNew draw taken tries g).1 ∉ taken ∧ (drawNew draw taken tries g).1 < length := by
  induction tries generalizing g with
  | zero =>
    have hnone : ∀ n < 0, n ∈ taken := fun n hn => absurd hn (Nat.not_lt_zero n)
    have hnew := leastNew_spec taken.size 0 hnone (Nat.zero_add _)
    exact ⟨hnew.1, by rw [drawNew]; omega⟩
  | succ tries ih =>
    rw [drawNew]
    dsimp only
    split
    · exact ih _
    · rename_i hfresh
      exact ⟨fun hmem => hfresh (Std.HashSet.mem_iff_contains.1 hmem), hdraw (by omega) g⟩

/-- Once a number was new, none is drawn again, so a larger bound changes nothing. The number that
is new is the one after `k` others. -/
theorem drawNew_add {draw : Generator → ℕ × Generator} {taken : Std.HashSet ℕ} {tries k : ℕ}
    {g : Generator} (hk : k < tries) (hnew : (draw ((fun g => (draw g).2)^[k] g)).1 ∉ taken)
    (more : ℕ) : drawNew draw taken (tries + more) g = drawNew draw taken tries g := by
  induction tries generalizing k g with
  | zero => exact absurd hk (Nat.not_lt_zero k)
  | succ tries ih =>
    rw [Nat.add_right_comm, drawNew, drawNew]
    dsimp only
    split
    · rename_i htaken
      cases k with
      | zero => exact absurd (Std.HashSet.mem_iff_contains.2 htaken) hnew
      | succ k => exact ih (Nat.lt_of_succ_lt_succ hk) hnew
    · rfl

/-- Numbers that are each new are different, and none of them was taken before. -/
theorem isSample_rejecting {draw : Generator → ℕ × Generator}
    (hdraw : 0 < length → ∀ g, (draw g).1 < length) {taken : Std.HashSet ℕ}
    (hroom : taken.size + count ≤ length) (g : Generator) :
    IsSample length count (rejecting patience draw count taken g) ∧
      ∀ n ∈ rejecting patience draw count taken g, n ∉ taken := by
  induction count generalizing taken g with
  | zero => exact ⟨⟨List.nodup_nil, by simp [rejecting], rfl⟩, by simp [rejecting]⟩
  | succ count ih =>
    rw [rejecting]
    dsimp only
    have hsmaller : taken.size < length := by omega
    have hdrawn := drawNew_spec hdraw hsmaller patience g
    generalize drawNew draw taken patience g = drawn at hdrawn ⊢
    obtain ⟨n, g'⟩ := drawn
    obtain ⟨hnew, hlt⟩ := hdrawn
    have hsize : (taken.insert n).size = taken.size + 1 := by
      rw [Std.HashSet.size_insert, if_neg hnew]
    have hroom' : (taken.insert n).size + count ≤ length := by omega
    obtain ⟨hrest, hfresh⟩ := ih hroom' g'
    have hlater : ∀ k ∈ rejecting patience draw count (taken.insert n) g', k ≠ n ∧ k ∉ taken := by
      intro k hk
      have := hfresh k hk
      rw [Std.HashSet.mem_insert, not_or, beq_iff_eq] at this
      exact ⟨Ne.symm this.1, this.2⟩
    refine ⟨⟨List.nodup_cons.2 ⟨fun hn => (hlater n hn).1 rfl, hrest.nodup⟩,
      List.forall_mem_cons.2 ⟨hlt, hrest.lt⟩, by rw [List.length_cons, hrest.length_eq]⟩,
      List.forall_mem_cons.2 ⟨hnew, fun k hk => (hlater k hk).2⟩⟩

/-! ## Samples in order -/

/-- A sample that is sorted is a strictly rising one. -/
theorem IsSample.mergeSort {drawn : List ℕ} (h : IsSample length amount drawn) :
    IsSample length amount drawn.mergeSort ∧ drawn.mergeSort.Pairwise (· < ·) := by
  have hperm := List.mergeSort_perm drawn (fun a b => decide (a ≤ b))
  have hnodup := hperm.nodup_iff.2 h.nodup
  have hsorted : drawn.mergeSort.Pairwise (· ≤ ·) := List.pairwise_mergeSort' (· ≤ ·) drawn
  exact ⟨⟨hnodup, fun n hn => h.lt n (hperm.subset hn), hperm.length_eq.trans h.length_eq⟩,
    (hsorted.and hnodup).imp fun hle => Nat.lt_of_le_of_ne hle.1 hle.2⟩

/-- Whatever the generator and the bound of its repetitions, what is drawn is a sample in rising
order. -/
theorem isSample_indices (h : amount ≤ length) (g : Generator) (patience : ℕ) :
    IsSample length amount (indices length amount g patience) ∧
      (indices length amount g patience).Pairwise (· < ·) := by
  have hempty : (∅ : Std.HashSet ℕ).size + amount ≤ length := by simpa using h
  rw [indices]
  refine IsSample.mergeSort ?_
  split
  · exact (isSample_rejecting (fun hpos => below_lt hpos word64_lt) hempty g).1
  · split
    · exact isSample_inPlace h g
    · split
      · have hnone : ∀ n ∈ ([] : List ℕ), n < length - amount := by simp
        exact isSample_floyd (by omega) g h List.nodup_nil hnone
      · exact (isSample_rejecting (fun hpos => below_lt hpos word32_lt) hempty g).1

end Backtest.Sample
