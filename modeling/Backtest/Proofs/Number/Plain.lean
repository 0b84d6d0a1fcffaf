import Backtest.Number.Integer
import Backtest.Proofs.Number.Exact
import Backtest.Proofs.Number.Layout

/-!
# Plain decimals read back

A double in plain decimals is a sign and a decimal text without an exponent part, and is read as the
same double. Such a text can also be that of an integer. An integer of 64 bits that a text denotes
is, as a double, equal to the double that the text denotes: only the sign of a zero is lost.

## Main definitions

* `beq_iff_place` — equal doubles stand at one place.
* `readMagnitude?_digits` — digits with a fraction behind them are read.
* `read?_plainText` — plain decimals are read as the double that they were written for.
* `read?_of_readInt64?` — the text of an integer as the text of a double.
-/
namespace Backtest.Binary64

variable {x y : Float}

/-! ## Equal doubles -/

/-- Doubles are equal if they stand at one place and neither is NaN. -/
theorem beq_iff_place :
    (x == y) = true ↔ x.isNaN = false ∧ y.isNaN = false ∧ place x = place y := by
  change (x.toModel.unpack.compare y.toModel.unpack == some .eq) = true ↔ _
  rw [beq_iff_eq]
  constructor
  · intro h
    obtain ⟨hx, hy⟩ := isNaN_of_compare_eq_some h
    rw [compare_unpack hx hy, Option.some.injEq, Int.compare_eq_eq] at h
    exact ⟨hx, hy, h⟩
  · rintro ⟨hx, hy, h⟩
    rw [compare_unpack hx hy, Option.some.injEq, Int.compare_eq_eq]
    exact h

theorem beq_refl (hx : x.isNaN = false) : (x == x) = true := beq_iff_place.2 ⟨hx, hx, rfl⟩

theorem le_iff_of_beq {z : Float} (h : (x == y) = true) (hz : z.isNaN = false) :
    x ≤ z ↔ y ≤ z := by
  obtain ⟨hx, hy, hplace⟩ := beq_iff_place.1 h
  rw [le_iff_place hx hz, le_iff_place hy hz, hplace]

theorem lt_iff_of_beq {z : Float} (h : (x == y) = true) (hz : z.isNaN = false) :
    x < z ↔ y < z := by
  obtain ⟨hx, hy, hplace⟩ := beq_iff_place.1 h
  rw [lt_iff_place hx hz, lt_iff_place hy hz, hplace]

theorem isFinite_of_beq (h : (x == y) = true) (hy : y.isFinite = true) : x.isFinite = true := by
  obtain ⟨hx, hy', hplace⟩ := beq_iff_place.1 h
  rw [isFinite_iff_place hy', ← hplace] at hy
  exact (isFinite_iff_place hx).2 hy

/-! ## Decimals without an exponent part -/

section Digits

variable {whole fraction : List Char}

/-- A text that begins with a digit is none of the words. -/
theorem readUnsigned?_of_isDigit {c : Char} (hc : c.isDigit = true) (cs : List Char) :
    readUnsigned? (c :: cs) = readMagnitude? (c :: cs) := by
  have hword : ∀ w : String, (∀ d ∈ w.toList.head?, d.isDigit = false) →
      String.ofList ((c :: cs).map Char.toLower) ≠ w := by
    rintro w hw rfl
    rw [String.toList_ofList] at hw
    have hlower : c.toLower.isDigit = false := hw c.toLower rfl
    rcases digit_cases hc with rfl | rfl | rfl | rfl | rfl | rfl | rfl | rfl | rfl | rfl <;>
      exact absurd hlower (by decide)
  rw [readUnsigned?]
  split
  · rename_i h
    exact absurd h (hword _ (by rintro d ⟨⟩; rfl))
  · rename_i h
    exact absurd h (hword _ (by rintro d ⟨⟩; rfl))
  · rename_i h
    exact absurd h (hword _ (by rintro d ⟨⟩; rfl))
  · rfl

/-- A sign, or none, is told from the digits behind it. -/
theorem splitSign_append {cs : List Char} (hcs : ∃ c ∈ cs.head?, c.isDigit = true)
    (negative : Bool) : splitSign ((if negative then ['-'] else []) ++ cs) = (negative, cs) := by
  cases cs with
  | nil =>
    obtain ⟨c, hc, -⟩ := hcs
    cases hc
  | cons c cs =>
    obtain ⟨_, ⟨⟩, hc⟩ := hcs
    cases negative with
    | true => rfl
    | false =>
      rcases digit_cases hc with rfl | rfl | rfl | rfl | rfl | rfl | rfl | rfl | rfl | rfl <;> rfl

/-- Digits with a fraction behind them are read. -/
theorem readMagnitude?_digits (hwhole : IsDigits whole) (hne : whole ≠ [])
    (hfraction : IsDigits fraction) :
    readMagnitude? (whole ++ DecimalText.fractionPart fraction) =
      some (ofDecimal (digitsValue (whole ++ fraction)) (-fraction.length)) := by
  have hempty : (whole.isEmpty && fraction.isEmpty) = false := by simp [hne]
  have hend : ∀ c ∈ ([] : List Char).head?, c.isDigit = false := fun c hc => nomatch hc
  cases fraction with
  | nil =>
    have hsplit := splitDigits_append hwhole hend
    simp only [DecimalText.fractionPart, readMagnitude?, hsplit, hempty, readExponent?]
    rfl
  | cons d ds =>
    have hpoint : ∀ c ∈ ('.' :: d :: ds).head?, c.isDigit = false := by
      rintro c ⟨⟩
      rfl
    have hsplit := splitDigits_append hwhole hpoint
    have hrest := splitDigits_append hfraction hend
    rw [List.append_nil] at hrest
    simp only [DecimalText.fractionPart, readMagnitude?, hsplit, hrest, hempty, readExponent?]
    simp

theorem readMagnitude?_text {t : DecimalText} (ht : t.IsNumber) (hexponent : t.exponent = none) :
    readMagnitude? t.text = some t.toDouble := by
  have htext : t.text = t.whole ++ DecimalText.fractionPart t.fraction := by
    rw [DecimalText.text, hexponent]
    exact List.append_nil _
  rw [htext, readMagnitude?_digits ht.whole ht.ne_nil ht.fraction, DecimalText.toDouble, hexponent,
    Option.getD_none, zero_sub]

/-- Without an exponent the decimal is a whole number. -/
theorem ofDecimal_zero (n : ℕ) : ofDecimal n 0 = Float.ofNat n := by
  rw [ofDecimal]
  split
  · rename_i hzero
    rw [beq_iff_eq.1 hzero]
    rfl
  · rw [if_neg (by decide), if_neg (by omega)]
    rfl

/-- A signed decimal is read as its magnitude with the sign. -/
theorem read?_of_splitSign {s : String} {negative : Bool} {cs : List Char}
    (hsplit : splitSign s.toList = (negative, cs)) (hcs : ∃ c ∈ cs.head?, c.isDigit = true)
    (hread : readMagnitude? cs = some y) : read? s = some (if negative then -y else y) := by
  cases cs with
  | nil =>
    obtain ⟨c, hc, -⟩ := hcs
    cases hc
  | cons c cs =>
    obtain ⟨_, ⟨⟩, hc⟩ := hcs
    simp only [read?, hsplit, readUnsigned?_of_isDigit hc, hread, Option.map_some]

end Digits

/-! ## The text of a double -/

/-- Plain decimals are read as the double that they were written for. -/
theorem read?_plainText (hx : x.isFinite = true) : read? (plainText x) = some x := by
  obtain ⟨negative, t, hwritten⟩ := exists_isWritten NumberLayout.plain hx
  have hhead := hwritten.number.exists_digit_head
  have hread := readMagnitude?_text hwritten.number (hwritten.exponent rfl)
  have hsplit := splitSign_append hhead negative
  rw [← hwritten.text] at hsplit
  rw [plainText, read?_of_splitSign hsplit hhead hread, ← hwritten.value]

/-! ## The text of an integer -/

/-- The digits of an integer that was read. -/
theorem exists_digits_of_readInt64? {s : String} {n : ℤ} (h : readInt64? s = some n) :
    ∃ (negative : Bool) (digits : List Char), splitSign s.toList = (negative, digits) ∧
      IsDigits digits ∧ digits ≠ [] ∧ IsInt64 n ∧
        n = if negative then -(digitsValue digits : ℤ) else digitsValue digits := by
  rw [readInt64?] at h
  cases hsplit : splitSign s.toList with
  | mk negative digits =>
    rw [hsplit] at h
    obtain ⟨k, hk, h⟩ := Option.bind_eq_some_iff.1 h
    rw [readDigits?] at hk
    split at hk
    · cases hk
    · rename_i hdigits
      cases hk
      simp only [Bool.or_eq_true, List.isEmpty_iff, Bool.not_eq_true', Bool.not_eq_false, not_or,
        List.all_eq_true] at hdigits
      obtain ⟨hrange, hvalue⟩ := Option.ite_none_right_eq_some.1 h
      rw [Option.some.injEq] at hvalue
      exact ⟨negative, digits, rfl, hdigits.2, hdigits.1, hvalue ▸ hrange, hvalue.symm⟩

/-- A count with a sign as a double; the sign of a zero is lost. -/
theorem ofInt_beq (negative : Bool) (n : ℕ) :
    (Float.ofInt (if negative then -n else n) ==
      if negative then -Float.ofNat n else Float.ofNat n) = true := by
  have hnan := isNaN_of_hasSign (hasSign_ofNat n)
  cases negative with
  | false => exact beq_refl hnan
  | true =>
    cases n with
    | zero => decide +kernel
    | succ k =>
      refine beq_refl ?_
      change (-Float.ofNat (k + 1)).toModel.unpack.isNaN = false
      rw [unpack_neg, isNaN_neg]
      exact hnan

/-- The text of an integer is that of a double, and the double is equal to the integer. -/
theorem read?_of_readInt64? {s : String} {n : ℤ} (h : readInt64? s = some n) :
    ∃ x, read? s = some x ∧ (Float.ofInt n == x) = true := by
  obtain ⟨negative, digits, hsplit, hdigits, hne, -, rfl⟩ := exists_digits_of_readInt64? h
  have hread : readMagnitude? digits = some (Float.ofNat (digitsValue digits)) := by
    have hall := readMagnitude?_digits hdigits hne (isDigits_replicate 0)
    simpa [DecimalText.fractionPart, ofDecimal_zero] using hall
  exact ⟨_, read?_of_splitSign hsplit (IsDigits.exists_head hdigits hne) hread,
    ofInt_beq negative _⟩

/-- The text of an integer is a sign and the digits of its magnitude. -/
theorem toList_repr (n : ℤ) : n.repr.toList =
    (if decide (n < 0) then ['-'] else []) ++ Nat.toDigits 10 n.natAbs := by
  cases n with
  | ofNat k => exact Nat.toList_repr
  | negSucc k =>
    rw [Int.repr, String.toList_append, Nat.toList_repr, if_pos (by simp)]
    rfl

/-- An integer of 64 bits is read from its text. -/
theorem readInt64?_repr {n : ℤ} (hn : IsInt64 n) : readInt64? n.repr = some n := by
  have hdigits := isDigits_toDigits n.natAbs
  have hne : Nat.toDigits 10 n.natAbs ≠ [] := Nat.toDigits_ne_nil
  have hread : readDigits? (Nat.toDigits 10 n.natAbs) = some n.natAbs := by
    have hall : (Nat.toDigits 10 n.natAbs).all Char.isDigit = true := List.all_eq_true.2 hdigits
    rw [readDigits?, hall, if_neg (by simp), digitsValue_toDigits]
  have hvalue : (if decide (n < 0) = true then -(n.natAbs : ℤ) else n.natAbs) = n := by
    simp only [decide_eq_true_iff]
    omega
  rw [readInt64?, toList_repr, splitSign_append (hdigits.exists_head hne)]
  simp only [hread, Option.bind_eq_bind, Option.bind_some, hvalue]
  exact if_pos hn

end Backtest.Binary64
