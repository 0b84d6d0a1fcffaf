import Backtest.Params.Assignment
import Backtest.Proofs.Number.Plain
import Backtest.Proofs.Params.Canonical
import Backtest.Proofs.Text.Blank

/-!
# Assignments read back

An assignment of a name and a printed value is read as that name and the value that the text denotes
by itself. An integer, a truth value and a word are read as they were. A double without a fraction
can come back as an integer, but as a number it is still equal to what was printed.

## Main definitions

* `readAssignment?_append` — what stands before and after the equals sign.
* `ParamValue.ofText_display_int`, `ParamValue.ofText_display_bool` — values of these kinds are read
  as they were.
* `ParamValue.float?_ofText` — the number that a text denotes, whatever kind it is read as.
* `ParamValue.trimmed_display_float` — plain decimals have no blanks.
-/
namespace Backtest

open Binary64 (DecimalText)

/-- An assignment is split at the equals sign. -/
theorem readAssignment?_append {name : String} (hname : ∀ c ∈ name.toList, c ≠ '=')
    (value : String) : readAssignment? (name ++ "=" ++ value) =
      some (trimmed name, .ofText (trimmed value)) := by
  have htext : (name ++ "=" ++ value).toList = name.toList ++ '=' :: value.toList := by simp
  have hspan : (name.toList ++ '=' :: value.toList).span (· != '=') =
      (name.toList, '=' :: value.toList) := by
    have hall : ∀ c ∈ name.toList, (c != '=') = true := by simpa using hname
    rw [List.span_eq_takeWhile_dropWhile, List.takeWhile_append_of_pos hall,
      List.dropWhile_append_of_pos hall]
    simp
  simp only [readAssignment?, htext, hspan, String.ofList_toList]

/-- An entry as an assignment. -/
def assignmentText (e : String × ParamValue) : String := e.1 ++ "=" ++ e.2.display

namespace ParamValue

variable {s : String} {x : Float}

theorem ofText_of_readInt64? {n : ℤ} (h : readInt64? s = some n) :
    ofText s = .int (Int64.ofInt n) := by
  simp only [ofText, h]

theorem ofText_of_read? (hint : readInt64? s = none) (h : Binary64.read? s = some x) :
    ofText s = .float x := by
  simp only [ofText, hint, h]

/-! ## Values that are read as they were -/

theorem ofText_display_int (i : Int64) : ofText (display (.int i)) = .int i := by
  have hread : readInt64? (display (.int i)) = some i.toInt :=
    Binary64.readInt64?_repr ⟨i.le_toInt, i.toInt_lt⟩
  rw [ofText_of_readInt64? hread, Int64.ofInt_toInt]

theorem ofText_display_bool (b : Bool) : ofText (display (.bool b)) = .bool b := by
  cases b <;> rfl

/-! ## Doubles -/

/-- As a number, a text is equal to the double that it denotes, though it may be that of an
integer. -/
theorem float?_ofText (h : Binary64.read? s = some x) (hx : x.isNaN = false) :
    ∃ y, (ofText s).float? = some y ∧ (y == x) = true := by
  cases hint : readInt64? s with
  | none => exact ⟨x, by rw [ofText_of_read? hint h, float?], Binary64.beq_refl hx⟩
  | some n =>
    obtain ⟨z, hz, hequal⟩ := Binary64.read?_of_readInt64? hint
    obtain rfl : z = x := Option.some.inj (hz.symm.trans h)
    obtain ⟨-, -, -, -, -, hrange, -⟩ := Binary64.exists_digits_of_readInt64? hint
    have hword : (Int64.ofInt n).toInt = n := Int64.toInt_ofInt_of_le hrange.1 hrange.2
    exact ⟨Float.ofInt n, by rw [ofText_of_readInt64? hint, float?, hword], hequal⟩

/-- A decimal text without an exponent part is digits with a point. -/
theorem isBlank_of_mem_text {t : DecimalText} (ht : t.IsNumber) (hexponent : t.exponent = none) :
    ∀ c ∈ t.text, isBlank c = false := by
  intro c hc
  rw [DecimalText.text, hexponent, DecimalText.exponentPart, List.append_nil] at hc
  rcases List.mem_append.1 hc with hwhole | hrest
  · exact isBlank_of_isDigit (ht.whole c hwhole)
  · cases hfraction : t.fraction with
    | nil =>
      rw [hfraction] at hrest
      cases hrest
    | cons d ds =>
      rw [hfraction] at hrest
      rcases List.mem_cons.1 hrest with rfl | hdigit
      · decide
      · exact isBlank_of_isDigit (ht.fraction c (hfraction ▸ hdigit))

/-- Nor is the sign before a text a blank. -/
theorem isBlank_of_mem_signed {negative : Bool} {cs : List Char} {c : Char}
    (hcs : ∀ d ∈ cs, isBlank d = false) (hc : c ∈ (if negative then ['-'] else []) ++ cs) :
    isBlank c = false := by
  rcases List.mem_append.1 hc with hsign | hbody
  · cases negative with
    | false => cases hsign
    | true =>
      rw [List.mem_singleton.1 hsign]
      decide
  · exact hcs c hbody

theorem trimmed_display_float (hx : x.isFinite = true) :
    trimmed (display (.float x)) = display (.float x) := by
  obtain ⟨negative, t, hwritten⟩ := Binary64.exists_isWritten NumberLayout.plain hx
  refine trimmed_of_forall fun c hc => ?_
  rw [display, plainText, hwritten.text] at hc
  exact isBlank_of_mem_signed (isBlank_of_mem_text hwritten.number (hwritten.exponent rfl)) hc

theorem trimmed_display_int (i : Int64) : trimmed (display (.int i)) = display (.int i) := by
  have hdigits := Binary64.isDigits_toDigits i.toInt.natAbs
  refine trimmed_of_forall fun c hc => ?_
  change c ∈ i.toInt.repr.toList at hc
  rw [Binary64.toList_repr] at hc
  exact isBlank_of_mem_signed (fun d hd => isBlank_of_isDigit (hdigits d hd)) hc

/-- A printed value has no blanks around it, unless it is a text with blanks. -/
theorem trimmed_display {v : ParamValue} (hv : v.IsFinite)
    (htext : ∀ t, v = .text t → trimmed t = t) : trimmed v.display = v.display := by
  cases v with
  | bool b => cases b <;> rfl
  | int i => exact trimmed_display_int i
  | float x => exact trimmed_display_float hv
  | text t => exact htext t rfl

/-- A double in plain decimals is read as a number that is equal to it. -/
theorem float?_ofText_display (hx : x.isFinite = true) :
    ∃ y, (ofText (display (.float x))).float? = some y ∧ (y == x) = true :=
  float?_ofText (Binary64.read?_plainText hx) (Binary64.isNaN_of_isFinite hx)

/-- A negative zero is printed with its sign, and comes back as an integer without it. -/
example : display (.float (-0.0)) = "-0" ∧ ofText "-0" = .int 0 := ⟨rfl, rfl⟩

end ParamValue
end Backtest
