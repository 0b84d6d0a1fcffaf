import Backtest.Json.Reader
import Backtest.Json.Writer
import Backtest.Proofs.Number.Layout

/-!
# Numbers and texts in JSON

Each token that the writer makes is read as what it was made from, whatever follows it: an integer
of 64 bits, and a text between its quotes. The digits of a finite double are read as what the reader
of numbers makes of them. A number ends where no further digit, point or exponent begins; a text
ends at the first quote that is not escaped.

## Main definitions

* `EndsNumber` — what can follow a number without being taken for a part of it.
* `readNumber?_text` — the parts of a decimal text are read in turn.
* `isNumberText_integerText` — integers read back.
* `exists_isNumberText_write` — what the text of a double is read as.
* `readQuoted?_flatMap_escapeChar` — escaped texts read back.
-/
namespace Backtest.Json

open Binary64 (DecimalText IsDigits splitDigits splitSign digitsValue)

/-! ## Numbers -/

/-- What follows does not go on with a number. -/
def EndsNumber (rest : List Char) : Prop :=
  ∀ c ∈ rest.head?, c.isDigit = false ∧ c ≠ '.' ∧ c ≠ 'e' ∧ c ≠ 'E'

section Number

variable {numbers : NumberReader} {rest : List Char}

theorem endsNumber_nil : EndsNumber [] := fun _ h => nomatch h

theorem EndsNumber.not_digit (h : EndsNumber rest) : ∀ c ∈ rest.head?, c.isDigit = false :=
  fun c hc => (h c hc).1

theorem readExponentPart?_append (hrest : EndsNumber rest) (e : Option ℤ) :
    readExponentPart? (DecimalText.exponentPart e ++ rest) = some (e, rest) := by
  cases e with
  | none =>
    cases rest with
    | nil => rfl
    | cons c rest =>
      obtain ⟨-, -, he, hE⟩ := hrest c rfl
      simp [DecimalText.exponentPart, readExponentPart?, he, hE]
  | some e =>
    have hdigits : ∀ sign : Char, sign = '-' ∨ sign = '+' →
        splitSign (sign :: (Nat.toDigits 10 e.natAbs ++ rest)) =
          (sign == '-', Nat.toDigits 10 e.natAbs ++ rest) := by
      rintro sign (rfl | rfl) <;> rfl
    have hsplit := Binary64.splitDigits_append (Binary64.isDigits_toDigits e.natAbs)
      hrest.not_digit
    by_cases hneg : e < 0
    · simp only [DecimalText.exponentPart, if_pos hneg, List.cons_append, readExponentPart?,
        hdigits _ (.inl rfl), hsplit, Binary64.digitsValue_toDigits]
      simp [abs_of_neg hneg]
    · simp only [DecimalText.exponentPart, if_neg hneg, List.cons_append, readExponentPart?,
        hdigits _ (.inr rfl), hsplit, Binary64.digitsValue_toDigits]
      simp [abs_of_nonneg (not_lt.1 hneg)]

/-- An exponent part is no digit and no point. -/
theorem head?_exponentPart (hrest : EndsNumber rest) (e : Option ℤ) :
    ∀ c ∈ (DecimalText.exponentPart e ++ rest).head?, c.isDigit = false ∧ c ≠ '.' := by
  cases e with
  | none => exact fun c hc => ⟨(hrest c hc).1, (hrest c hc).2.1⟩
  | some e =>
    rintro c ⟨⟩
    decide

theorem readFractionPart?_append {fraction : List Char} (hfraction : IsDigits fraction)
    (hrest : ∀ c ∈ rest.head?, c.isDigit = false ∧ c ≠ '.') :
    readFractionPart? (DecimalText.fractionPart fraction ++ rest) = some (fraction, rest) := by
  cases fraction with
  | nil =>
    cases rest with
    | nil => rfl
    | cons c rest => simp [DecimalText.fractionPart, readFractionPart?, (hrest c rfl).2]
  | cons d fraction =>
    have hsplit := Binary64.splitDigits_append hfraction fun c hc => (hrest c hc).1
    simp only [DecimalText.fractionPart, List.cons_append, readFractionPart?]
    rw [← List.cons_append, hsplit]
    rfl

/-- A fraction part does not go on with the digits before it. -/
theorem head?_fractionPart (fraction : List Char)
    (hrest : ∀ c ∈ rest.head?, c.isDigit = false ∧ c ≠ '.') :
    ∀ c ∈ (DecimalText.fractionPart fraction ++ rest).head?, c.isDigit = false := by
  cases fraction with
  | nil => exact fun c hc => (hrest c hc).1
  | cons d fraction =>
    rintro c ⟨⟩
    rfl

/-- The parts of a decimal text are read in turn. -/
theorem readNumber?_text {t : DecimalText} (ht : t.IsNumber) (hrest : EndsNumber rest)
    (negative : Bool) :
    readNumber? numbers negative (t.text ++ rest) =
      some (if t.fraction.isEmpty && t.exponent.isNone then integerLiteral numbers negative t.whole
      else decimal negative (numbers.magnitude? t.whole t.fraction (t.exponent.getD 0)), rest) := by
  have hexponent := head?_exponentPart hrest t.exponent
  have hwhole : (t.whole.isEmpty || (t.whole.length > 1 && t.whole.head? == some '0')) = false := by
    have hne := ht.ne_nil
    by_cases hzero : t.whole.head? = some '0'
    · simp [ht.leading hzero, hne]
    · simp [hzero, hne]
  rw [readNumber?, DecimalText.text, List.append_assoc, List.append_assoc,
    Binary64.splitDigits_append ht.whole (head?_fractionPart t.fraction hexponent)]
  simp only [hwhole, Bool.false_eq_true, if_false, Option.bind_eq_bind,
    readFractionPart?_append ht.fraction hexponent, Option.bind_some,
    readExponentPart?_append hrest]
  split <;> rfl

/-- An integer of 64 bits reads back. -/
theorem readNumber?_toDigits {n : ℕ} (negative : Bool) (hrest : EndsNumber rest)
    (hnegative : negative = true → n ≠ 0 ∧ n ≤ 9223372036854775808)
    (hpositive : negative = false → n < 18446744073709551616) :
    readNumber? numbers negative (Nat.toDigits 10 n ++ rest) =
      some (.integer (if negative then -n else n), rest) := by
  have hnumber : DecimalText.IsNumber ⟨Nat.toDigits 10 n, [], none⟩ := by
    refine ⟨Binary64.isDigits_toDigits n, Binary64.isDigits_replicate 0, Nat.toDigits_ne_nil,
      fun hzero => ?_⟩
    by_cases hn : n = 0
    · rw [hn]
      rfl
    · exact absurd hzero (Binary64.head?_toDigits hn)
  have htext : Nat.toDigits 10 n = DecimalText.text ⟨Nat.toDigits 10 n, [], none⟩ := by
    simp [DecimalText.text, DecimalText.fractionPart, DecimalText.exponentPart]
  have hliteral : integerLiteral numbers negative (Nat.toDigits 10 n) =
      .integer (if negative then -n else n) := by
    rw [integerLiteral, Binary64.digitsValue_toDigits]
    cases negative with
    | true =>
      obtain ⟨hn, hle⟩ := hnegative rfl
      exact (if_pos rfl).trans (if_neg (by omega))
    | false => exact (if_neg (by decide)).trans (if_pos (hpositive rfl))
  rw [htext, readNumber?_text hnumber hrest]
  simp [hliteral]

/-- A text that is read as a number: a sign if it is negative, and a digit behind it. -/
def IsNumberText (numbers : NumberReader) (cs : List Char) (d : Document) : Prop :=
  ∃ (negative : Bool) (body : List Char), cs = (if negative then ['-'] else []) ++ body ∧
    (∃ c ∈ body.head?, c.isDigit = true) ∧
      ∀ rest, EndsNumber rest → readNumber? numbers negative (body ++ rest) = some (d, rest)

/-- The text of an integer. -/
theorem isNumberText_integerText {n : ℤ} (hleast : -9223372036854775808 ≤ n)
    (hgreatest : n < 18446744073709551616) :
    IsNumberText numbers (integerText n) (.integer n) := by
  have hhead := (Binary64.isDigits_toDigits n.natAbs).exists_head Nat.toDigits_ne_nil
  rw [integerText]
  split
  · rename_i hneg
    refine ⟨true, Nat.toDigits 10 n.natAbs, rfl, hhead, fun rest hrest => ?_⟩
    have hvalue : -(n.natAbs : ℤ) = n := by omega
    rw [readNumber?_toDigits true hrest (fun _ => by omega) (fun h => nomatch h), if_pos rfl,
      hvalue]
  · rename_i hnonneg
    refine ⟨false, Nat.toDigits 10 n.natAbs, rfl, hhead, fun rest hrest => ?_⟩
    have hvalue : (n.natAbs : ℤ) = n := by omega
    rw [readNumber?_toDigits false hrest (fun h => nomatch h) (fun _ => by omega),
      if_neg (by decide), hvalue]

/-- The text of a finite double is read as what its digits become. -/
theorem exists_isNumberText_write {x : Float} (hx : x.isFinite = true) :
    ∃ negative t, Binary64.IsWritten numberLayout x negative t ∧
      ∀ numbers : NumberReader, IsNumberText numbers (numberLayout.write x).toList
        (decimal negative (numbers.magnitude? t.whole t.fraction (t.exponent.getD 0))) := by
  obtain ⟨negative, t, hwritten⟩ := Binary64.exists_isWritten numberLayout hx
  have hreal : (t.fraction.isEmpty && t.exponent.isNone) = false := by
    rw [Bool.and_eq_false_iff, List.isEmpty_eq_false_iff, Option.isNone_eq_false_iff,
      Option.isSome_iff_ne_none]
    exact hwritten.fractional rfl
  refine ⟨negative, t, hwritten, fun numbers => ⟨negative, t.text, hwritten.text,
    hwritten.number.exists_digit_head, fun rest hrest => ?_⟩⟩
  rw [readNumber?_text hwritten.number hrest, hreal, if_neg (by decide)]

end Number

/-! ## Quoted texts -/

section Quoted

variable {acc rest : List Char} {c : Char}

/-- The four digits of a control character. -/
theorem hexUnit?_hexDigit : ∀ n < 32, hexUnit? '0' '0' (hexDigit (n / 16)) (hexDigit (n % 16)) =
    some n := by
  decide

/-- An escaped character is read as this character. -/
theorem readQuoted?_escapeChar (c : Char) (acc rest : List Char) :
    readQuoted? acc none true (escapeChar c ++ rest) = readQuoted? (c :: acc) none true rest := by
  rw [escapeChar]
  split_ifs with hquote hslash hn hr ht hb hf hcontrol
  · subst hquote; rfl
  · subst hslash; rfl
  · subst hn; rfl
  · subst hr; rfl
  · subst ht; rfl
  · subst hb; rfl
  · subst hf; rfl
  · have hlow : isLowSurrogate c.toNat = false := by
      simp [isLowSurrogate]
      omega
    have hhigh : isHighSurrogate c.toNat = false := by
      simp [isHighSurrogate]
      omega
    simp [readQuoted?, hexUnit?_hexDigit c.toNat hcontrol, hlow, hhigh, Char.ofNat_toNat]
  · simp [readQuoted?, hslash, hcontrol]

/-- A text between its quotes is read as it was. -/
theorem readQuoted?_flatMap_escapeChar (cs acc rest : List Char) :
    readQuoted? acc none true (cs.flatMap escapeChar ++ '"' :: rest) =
      some (some (String.ofList (acc.reverse ++ cs)), rest) := by
  induction cs generalizing acc with
  | nil => simp [readQuoted?]
  | cons c cs ih =>
    rw [List.flatMap_cons, List.append_assoc, readQuoted?_escapeChar, ih]
    simp

end Quoted

end Backtest.Json
