import Backtest.Number.Layout
import Backtest.Proofs.Number.Shortest

/-!
# Decimal texts

A number is written as digits, perhaps with a point among them and an exponent behind. Every layout
of a double has this shape, begins with a zero only if no other digit stands before the point, and
denotes exactly the shortest decimal of the double.

## Main definitions

* `IsDigits`, `splitDigits_append` — runs of digits, and where they end.
* `digitsValue_append` — the value of digits that stand behind each other.
* `DecimalText` — the parts of a decimal text, with its `text` and its `value`.
* `IsSignificant.denotes_below_one`, `IsSignificant.denotes_whole`, `IsSignificant.denotes_split` —
  digits that are written without an exponent part, by the place of the point.
* `exists_magnitudeText` — what a layout writes for a magnitude is such a text.
* `exists_isWritten` — a finite double is written as a sign and such a text, and is what the text
  is read as with this sign.
-/
namespace Backtest.Binary64

open Float.Model (UnpackedFloat)
open Float.Model.UnpackedFloat (Sign)

/-! ## Digits -/

/-- A run of digits. -/
def IsDigits (cs : List Char) : Prop := ∀ c ∈ cs, c.isDigit = true

section Digits

variable {cs ds : List Char}

theorem IsDigits.append (hc : IsDigits cs) (hd : IsDigits ds) : IsDigits (cs ++ ds) :=
  fun _ h => (List.mem_append.1 h).elim (hc _) (hd _)

theorem IsDigits.of_subset (h : IsDigits cs) (hsub : ds ⊆ cs) : IsDigits ds :=
  fun _ hc => h _ (hsub hc)

theorem isDigits_replicate (n : ℕ) : IsDigits (List.replicate n '0') := by
  intro c h
  rw [List.eq_of_mem_replicate h]
  rfl

theorem isDigits_toDigits (n : ℕ) : IsDigits (Nat.toDigits 10 n) :=
  fun _ => Nat.isDigit_of_mem_toDigits (by decide) (by decide)

theorem digit_cases {c : Char} (hc : c.isDigit = true) :
    c = '0' ∨ c = '1' ∨ c = '2' ∨ c = '3' ∨ c = '4' ∨ c = '5' ∨ c = '6' ∨ c = '7' ∨ c = '8' ∨
      c = '9' := by
  have hrange : 48 ≤ c.toNat ∧ c.toNat ≤ 57 := by
    simpa [Char.isDigit, UInt32.le_iff_toNat_le] using hc
  have hofNat := Char.ofNat_toNat c
  generalize c.toNat = n at hrange hofNat
  obtain ⟨hleast, hgreatest⟩ := hrange
  subst hofNat
  interval_cases n <;> decide

theorem IsDigits.exists_head (hc : IsDigits cs) (hne : cs ≠ []) :
    ∃ c ∈ cs.head?, c.isDigit = true := by
  cases cs with
  | nil => exact absurd rfl hne
  | cons c cs => exact ⟨c, rfl, hc c List.mem_cons_self⟩

/-- A run of digits ends where something else begins. -/
theorem IsDigits.takeWhile_append (hc : IsDigits cs) {rest : List Char}
    (hrest : ∀ c ∈ rest.head?, c.isDigit = false) :
    (cs ++ rest).takeWhile Char.isDigit = cs := by
  rw [List.takeWhile_append_of_pos hc]
  cases rest with
  | nil => simp
  | cons c rest => simp [hrest c rfl]

theorem IsDigits.dropWhile_append (hc : IsDigits cs) {rest : List Char}
    (hrest : ∀ c ∈ rest.head?, c.isDigit = false) :
    (cs ++ rest).dropWhile Char.isDigit = rest := by
  rw [List.dropWhile_append_of_pos hc]
  cases rest with
  | nil => rfl
  | cons c rest => simp [hrest c rfl]

theorem splitDigits_append (hc : IsDigits cs) {rest : List Char}
    (hrest : ∀ c ∈ rest.head?, c.isDigit = false) : splitDigits (cs ++ rest) = (cs, rest) := by
  rw [splitDigits, List.span_eq_takeWhile_dropWhile, hc.takeWhile_append hrest,
    hc.dropWhile_append hrest]

theorem digitsValue_append (cs ds : List Char) :
    digitsValue (cs ++ ds) = digitsValue cs * 10 ^ ds.length + digitsValue ds := by
  change Nat.ofDigitChars 10 (cs ++ ds) 0 = Nat.ofDigitChars 10 cs 0 * _ + Nat.ofDigitChars 10 ds 0
  rw [Nat.ofDigitChars_append, Nat.ofDigitChars_eq_ofDigitChars_zero, Nat.mul_comm]

theorem digitsValue_replicate (n : ℕ) : digitsValue (List.replicate n '0') = 0 :=
  (Nat.ofDigitChars_replicate_zero (b := 10)).trans (Nat.mul_zero _)

theorem digitsValue_toDigits (n : ℕ) : digitsValue (Nat.toDigits 10 n) = n :=
  Nat.ofDigitChars_ten_toDigits

/-- No number but zero begins with a zero. -/
theorem head?_toDigits {n : ℕ} (hn : n ≠ 0) : (Nat.toDigits 10 n).head? ≠ some '0' := by
  induction n using Nat.strongRecOn with
  | _ n ih =>
    rw [Nat.toDigits_eq_if (by decide)]
    split
    · rename_i hsmall
      interval_cases n
      · exact absurd rfl hn
      all_goals decide
    · rw [List.head?_append_of_ne_nil _ Nat.toDigits_ne_nil]
      exact ih (n / 10) (by omega) (by omega)

/-- Only zeros are lost with the trailing zeros. -/
theorem exists_append_replicate (cs : List Char) :
    ∃ k, cs = (cs.reverse.dropWhile (· == '0')).reverse ++ List.replicate k '0' := by
  have hzeros : cs.reverse.takeWhile (· == '0') =
      List.replicate (cs.reverse.takeWhile (· == '0')).length '0' :=
    List.eq_replicate_of_mem fun c hc => by simpa using List.mem_takeWhile_imp hc
  refine ⟨(cs.reverse.takeWhile (· == '0')).length, ?_⟩
  rw [← List.reverse_replicate, ← hzeros, ← List.reverse_append, List.takeWhile_append_dropWhile,
    List.reverse_reverse]

end Digits

/-! ## The parts of a decimal text -/

/-- Digits before the point, digits after it, and the exponent part. -/
structure DecimalText where
  whole : List Char
  fraction : List Char
  exponent : Option ℤ

namespace DecimalText

/-- The exponent part, always with a sign. -/
def exponentPart : Option ℤ → List Char
  | none => []
  | some e => 'e' :: (if e < 0 then '-' else '+') :: Nat.toDigits 10 e.natAbs

/-- The fraction part; there is no point without digits behind it. -/
def fractionPart : List Char → List Char
  | [] => []
  | digits => '.' :: digits

/-- The text as it is written. -/
def text (t : DecimalText) : List Char :=
  t.whole ++ fractionPart t.fraction ++ exponentPart t.exponent

/-- The number that a text denotes. -/
def value (t : DecimalText) : ℚ :=
  digitsValue (t.whole ++ t.fraction) * 10 ^ (t.exponent.getD 0 - t.fraction.length)

/-- The double that a text is read as. -/
def toDouble (t : DecimalText) : Float :=
  ofDecimal (digitsValue (t.whole ++ t.fraction)) (t.exponent.getD 0 - t.fraction.length)

/-- A number as every format reads it: no leading zero stands before other digits. -/
structure IsNumber (t : DecimalText) : Prop where
  whole : IsDigits t.whole
  fraction : IsDigits t.fraction
  ne_nil : t.whole ≠ []
  leading : t.whole.head? = some '0' → t.whole.length = 1

/-- A text that is not an integer's. -/
def IsFractional (t : DecimalText) : Prop := t.fraction ≠ [] ∨ t.exponent ≠ none

/-- Characters that are a decimal text, and the number that it denotes. -/
structure Denotes (t : DecimalText) (cs : List Char) (q : ℚ) : Prop where
  text : cs = t.text
  number : t.IsNumber
  value : t.value = q

/-- A number begins with a digit. -/
theorem IsNumber.exists_digit_head {t : DecimalText} (ht : t.IsNumber) :
    ∃ c ∈ t.text.head?, c.isDigit = true := by
  rw [DecimalText.text, List.append_assoc, List.head?_append_of_ne_nil _ ht.ne_nil]
  exact ht.whole.exists_head ht.ne_nil

theorem fractionPart_of_ne_nil {cs : List Char} (h : cs ≠ []) : fractionPart cs = '.' :: cs := by
  cases cs with
  | nil => exact absurd rfl h
  | cons c cs => rfl

end DecimalText

/-! ## Significant digits -/

/-- Digits that do not begin with a zero, the exponent of the first of them, and the number that
they denote. -/
structure IsSignificant (cs : List Char) (e : ℤ) (q : ℚ) : Prop where
  digits : IsDigits cs
  ne_nil : cs ≠ []
  head : cs.head? ≠ some '0'
  value : (digitsValue cs : ℚ) * 10 ^ (e + 1 - cs.length) = q

open NumberLayout (significant positionalText exponentText)

theorem isSignificant_significant {tie : Shortest.Tie} {m : Magnitude}
    (hm : (Shortest.ofMagnitude tie m).digits ≠ 0) :
    IsSignificant (significant tie m).1 (significant tie m).2
      ((Shortest.ofMagnitude tie m).digits * 10 ^ (Shortest.ofMagnitude tie m).exponent) := by
  obtain ⟨k, hk⟩ := exists_append_replicate (Nat.toDigits 10 (Shortest.ofMagnitude tie m).digits)
  have hdigits := isDigits_toDigits (Shortest.ofMagnitude tie m).digits
  have hhead := head?_toDigits hm
  have hvalue := digitsValue_toDigits (Shortest.ofMagnitude tie m).digits
  rw [significant]
  generalize Shortest.ofMagnitude tie m = d at hm hk hdigits hhead hvalue ⊢
  generalize ((Nat.toDigits 10 d.digits).reverse.dropWhile (· == '0')).reverse = digits at hk ⊢
  rw [hk] at hdigits hhead hvalue
  have hne : digits ≠ [] := by
    rintro rfl
    rw [List.nil_append, digitsValue_replicate] at hvalue
    exact hm hvalue.symm
  rw [digitsValue_append, digitsValue_replicate, Nat.add_zero, List.length_replicate] at hvalue
  refine ⟨hdigits.of_subset (List.subset_append_left _ _), hne, ?_, ?_⟩
  · rwa [List.head?_append_of_ne_nil _ hne] at hhead
  · have hexponent : d.exponent + ((Nat.toDigits 10 d.digits).length : ℤ) - 1 + 1 - digits.length =
        k + d.exponent := by
      rw [hk, List.length_append, List.length_replicate]
      push_cast
      ring
    dsimp only
    rw [hexponent, zpow_add₀ (by norm_num), ← mul_assoc, zpow_natCast, ← hvalue]
    push_cast
    rfl

section Texts

open DecimalText (fractionPart fractionPart_of_ne_nil exponentPart)

variable {digits : List Char} {e : ℤ} {q : ℚ} {keepsPoint : Bool}

/-- Below one, zeros stand between the point and the digits. -/
theorem IsSignificant.denotes_below_one (h : IsSignificant digits e q) (he : e < 0) :
    DecimalText.Denotes ⟨['0'], List.replicate (-e - 1).toNat '0' ++ digits, none⟩
      ('0' :: '.' :: List.replicate (-e - 1).toNat '0' ++ digits) q where
  text := by
    have hne : List.replicate (-e - 1).toNat '0' ++ digits ≠ [] :=
      List.append_ne_nil_of_right_ne_nil _ h.ne_nil
    rw [DecimalText.text, fractionPart_of_ne_nil hne]
    simp [exponentPart]
  number := ⟨isDigits_replicate 1, (isDigits_replicate _).append h.digits, List.cons_ne_nil _ _,
    fun _ => rfl⟩
  value := by
    have hzero : digitsValue ['0'] = 0 := rfl
    have hexponent : (0 : ℤ) - ((-e - 1).toNat + digits.length : ℕ) = e + 1 - digits.length := by
      push_cast
      omega
    rw [← h.value, DecimalText.value]
    simp only [Option.getD_none, ← List.append_assoc, digitsValue_append, digitsValue_replicate,
      List.length_append, List.length_replicate, hzero, hexponent]
    simp

/-- Digits that end before the point are filled up with zeros. -/
theorem IsSignificant.denotes_whole (h : IsSignificant digits e q) (he : 0 ≤ e)
    (hlong : digits.length ≤ e.toNat + 1) (keepsPoint : Bool) :
    DecimalText.Denotes ⟨digits ++ List.replicate (e.toNat + 1 - digits.length) '0',
        if keepsPoint then ['0'] else [], none⟩
      (digits ++ List.replicate (e.toNat + 1 - digits.length) '0' ++
        (if keepsPoint then ['.', '0'] else [])) q where
  text := by
    cases keepsPoint <;> simp [DecimalText.text, fractionPart, exponentPart]
  number := by
    have hhead : (digits ++ List.replicate (e.toNat + 1 - digits.length) '0').head? =
        digits.head? := List.head?_append_of_ne_nil _ h.ne_nil
    refine ⟨h.digits.append (isDigits_replicate _), ?_,
      List.append_ne_nil_of_left_ne_nil h.ne_nil _, fun h0 => absurd (hhead ▸ h0) h.head⟩
    cases keepsPoint
    · exact isDigits_replicate 0
    · exact isDigits_replicate 1
  value := by
    have hzero : digitsValue ['0'] = 0 := rfl
    have hpow : (10 : ℚ) ^ (e + 1 - digits.length) = 10 ^ (e.toNat + 1 - digits.length) := by
      rw [← zpow_natCast]
      congr 1
      omega
    rw [← h.value, hpow, DecimalText.value]
    cases keepsPoint with
    | false => simp [digitsValue_append, digitsValue_replicate]
    | true => simp [digitsValue_append, digitsValue_replicate, hzero, pow_succ, ← mul_assoc]

/-- Digits that go on behind the point are split there. -/
theorem IsSignificant.denotes_split (h : IsSignificant digits e q) (he : 0 ≤ e)
    (hshort : e.toNat + 1 < digits.length) :
    DecimalText.Denotes ⟨digits.take (e.toNat + 1), digits.drop (e.toNat + 1), none⟩
      (digits.take (e.toNat + 1) ++ '.' :: digits.drop (e.toNat + 1)) q where
  text := by
    have hne : digits.drop (e.toNat + 1) ≠ [] := by
      rw [ne_eq, List.drop_eq_nil_iff]
      omega
    rw [DecimalText.text, fractionPart_of_ne_nil hne]
    simp [exponentPart]
  number := by
    have hne : digits.take (e.toNat + 1) ≠ [] := by
      rw [ne_eq, List.take_eq_nil_iff]
      exact not_or.2 ⟨Nat.succ_ne_zero _, h.ne_nil⟩
    refine ⟨h.digits.of_subset (List.take_subset _ _), h.digits.of_subset (List.drop_subset _ _),
      hne, ?_⟩
    rw [List.head?_take, if_neg (Nat.succ_ne_zero _)]
    exact fun h0 => absurd h0 h.head
  value := by
    rw [← h.value, DecimalText.value]
    simp only [List.take_append_drop, Option.getD_none, List.length_drop]
    congr 2
    omega

/-- Digits without an exponent part are a decimal text. -/
theorem exists_positionalText (h : IsSignificant digits e q) (keepsPoint : Bool) :
    ∃ t : DecimalText, t.Denotes (positionalText keepsPoint digits e) q ∧ t.exponent = none ∧
      (keepsPoint = true → t.IsFractional) := by
  rw [positionalText]
  split
  · rename_i hneg
    exact ⟨_, h.denotes_below_one hneg, rfl,
      fun _ => .inl (List.append_ne_nil_of_right_ne_nil _ h.ne_nil)⟩
  · rename_i hnonneg
    dsimp only
    split
    · rename_i hlong
      refine ⟨_, h.denotes_whole (Int.not_lt.1 hnonneg) hlong keepsPoint, rfl, ?_⟩
      rintro rfl
      exact .inl (List.cons_ne_nil _ _)
    · rename_i hshort
      refine ⟨_, h.denotes_split (Int.not_lt.1 hnonneg) (Nat.not_le.1 hshort), rfl,
        fun _ => .inl ?_⟩
      rw [ne_eq, List.drop_eq_nil_iff]
      exact hshort

/-- Digits with an exponent part are a decimal text. -/
theorem exists_exponentText (h : IsSignificant digits e q) :
    ∃ t : DecimalText, t.Denotes (exponentText digits e) q ∧ t.IsFractional := by
  obtain ⟨hdigits, hne, -, hvalue⟩ := h
  cases digits with
  | nil => exact absurd rfl hne
  | cons first rest =>
    obtain ⟨hfirst, hrest⟩ := List.forall_mem_cons.1 hdigits
    refine ⟨⟨[first], rest, some e⟩, ⟨?_, ?_, ?_⟩, .inr (by simp)⟩
    · cases rest <;> rfl
    · exact ⟨List.forall_mem_singleton.2 hfirst, hrest, List.cons_ne_nil _ _, fun _ => rfl⟩
    · rw [← hvalue, DecimalText.value]
      simp

end Texts

/-- What a layout writes for the magnitude of a double denotes a number that reads back. -/
theorem exists_magnitudeText (layout : NumberLayout) {m : ℕ} {e : ℤ} {hm : 0 < m}
    (hcanonical : IsCanonical (.finite .positive m e hm)) :
    ∃ t : DecimalText, layout.magnitudeText ⟨m, e⟩ = t.text ∧ t.IsNumber ∧ ReadsBack m e t.value ∧
      (layout.keepsPoint = true → t.IsFractional) ∧
      (layout.positional = none → t.exponent = none) := by
  have hback := Shortest.readsBack_ofMagnitude layout.tie hcanonical
  have hsignificant := isSignificant_significant (bounds_of_readsBack hcanonical hback).1
  obtain ⟨t, ht, hexponent, hpoint⟩ := exists_positionalText hsignificant layout.keepsPoint
  obtain ⟨t', ht', hpoint'⟩ := exists_exponentText hsignificant
  have hread : ReadsBack m e t.value := ht.value ▸ hback
  have hread' : ReadsBack m e t'.value := ht'.value ▸ hback
  rw [NumberLayout.magnitudeText]
  dsimp only
  split
  · exact ⟨t, ht.text, ht.number, hread, hpoint, fun _ => hexponent⟩
  · rename_i hpositional
    split
    · exact ⟨t, ht.text, ht.number, hread, hpoint, fun h => by rw [hpositional] at h; cases h⟩
    · exact ⟨t', ht'.text, ht'.number, hread', fun _ => hpoint',
        fun h => by rw [hpositional] at h; cases h⟩

/-! ## The text of a double -/

/-- What a layout writes for a double: a sign, and a text that is read as the magnitude. -/
structure IsWritten (layout : NumberLayout) (x : Float) (negative : Bool) (t : DecimalText) :
    Prop where
  text : (layout.write x).toList = (if negative then ['-'] else []) ++ t.text
  number : t.IsNumber
  finite : t.toDouble.isFinite = true
  value : x = if negative then -t.toDouble else t.toDouble
  fractional : layout.keepsPoint = true → t.IsFractional
  exponent : layout.positional = none → t.exponent = none

section Written

variable {layout : NumberLayout} {x : Float} {t : DecimalText} {s : Sign}

/-- A text with the magnitude of a double, behind the sign of the double. -/
theorem IsWritten.of_unpack {negative : Bool} (hx : x.isFinite = true) (hnumber : t.IsNumber)
    (hfractional : layout.keepsPoint = true → t.IsFractional)
    (hexponent : layout.positional = none → t.exponent = none)
    (htext : (layout.write x).toList = (if negative then ['-'] else []) ++ t.text)
    (hunpack : x.toModel.unpack =
      if negative then t.toDouble.toModel.unpack.neg else t.toDouble.toModel.unpack) :
    IsWritten layout x negative t := by
  have hnan := isNaN_of_isFinite hx
  cases negative with
  | false =>
    have hvalue : x = t.toDouble := eq_of_unpack_eq hnan hunpack
    exact ⟨htext, hnumber, hvalue ▸ hx, hvalue, hfractional, hexponent⟩
  | true =>
    have hneg : x.toModel.unpack = t.toDouble.toModel.unpack.neg := hunpack
    have hvalue : x = -t.toDouble := eq_of_unpack_eq hnan (hneg.trans (unpack_neg _).symm)
    have hfinite : t.toDouble.isFinite = true :=
      isFinite_of_isFinite_neg (hneg ▸ isFinite_iff.1 hx)
    exact ⟨htext, hnumber, hfinite, hvalue, hfractional, hexponent⟩

/-- The text of a zero. -/
theorem exists_zeroText (keepsPoint : Bool) :
    ∃ t : DecimalText, NumberLayout.positionalText keepsPoint ['0'] 0 = t.text ∧ t.IsNumber ∧
      t.toDouble = 0 ∧ (keepsPoint = true → t.IsFractional) ∧ t.exponent = none := by
  have hwhole : IsDigits ['0'] := isDigits_replicate 1
  cases keepsPoint with
  | false =>
    exact ⟨⟨['0'], [], none⟩, rfl,
      ⟨hwhole, isDigits_replicate 0, List.cons_ne_nil _ _, fun _ => rfl⟩, rfl, nofun, rfl⟩
  | true =>
    exact ⟨⟨['0'], ['0'], none⟩, rfl, ⟨hwhole, hwhole, List.cons_ne_nil _ _, fun _ => rfl⟩, rfl,
      fun _ => .inl (List.cons_ne_nil _ _), rfl⟩

/-- A text between the midpoints around the magnitude of a double is read as the magnitude. -/
theorem unpack_toDouble {m : ℕ} {e : ℤ} {hm : 0 < m} (hx : x.toModel.unpack = .finite s m e hm)
    (hback : ReadsBack m e t.value) : t.toDouble.toModel.unpack = .finite .positive m e hm := by
  cases s with
  | positive => rwa [DecimalText.toDouble, ofDecimal_of_readsBack hx hback]
  | negative =>
    have hneg : (-x).toModel.unpack = .finite .positive m e hm := by
      rw [unpack_neg, hx]
      rfl
    rwa [DecimalText.toDouble, ofDecimal_of_readsBack hneg hback]

/-- Every layout writes a finite double as a sign and a text that is read as the magnitude. -/
theorem exists_isWritten (layout : NumberLayout) (hx : x.isFinite = true) :
    ∃ negative t, IsWritten layout x negative t := by
  rcases isFinite_cases hx with ⟨s, h⟩ | ⟨s, m, e, hm, h, hcanonical⟩
  · obtain ⟨t, htext, hnumber, hzero, hfractional, hexponent⟩ := exists_zeroText layout.keepsPoint
    have hdouble : t.toDouble.toModel.unpack = .zero .positive := hzero ▸ unpack_zero
    cases s with
    | positive =>
      refine ⟨false, t,
        .of_unpack hx hnumber hfractional (fun _ => hexponent) ?_ (h.trans hdouble.symm)⟩
      rw [NumberLayout.write, h, ← htext]
      exact String.toList_ofList
    | negative =>
      refine ⟨true, t, .of_unpack hx hnumber hfractional (fun _ => hexponent) ?_ ?_⟩
      · rw [NumberLayout.write, h, ← htext]
        exact String.toList_ofList
      · rw [if_pos rfl, hdouble, h]
        rfl
  · have hpositive : IsCanonical (.finite .positive m e hm) := isCanonical_finite.2 hcanonical
    obtain ⟨t, htext, hnumber, hback, hfractional, hexponent⟩ :=
      exists_magnitudeText layout hpositive
    have hdouble := unpack_toDouble h hback
    cases s with
    | positive =>
      refine ⟨false, t, .of_unpack hx hnumber hfractional hexponent ?_ (h.trans hdouble.symm)⟩
      rw [NumberLayout.write, h, ← htext]
      exact String.toList_ofList
    | negative =>
      refine ⟨true, t, .of_unpack hx hnumber hfractional hexponent ?_ ?_⟩
      · rw [NumberLayout.write, h, ← htext]
        exact String.toList_ofList
      · rw [if_pos rfl, hdouble, h]
        rfl

end Written
end Backtest.Binary64
