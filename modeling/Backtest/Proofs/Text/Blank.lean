import Backtest.Proofs.Number.Layout
import Backtest.Text.Blank

/-!
# Texts without blanks

Digits are no blanks, so a run of them stays when the blanks in front of it are dropped, and a text
that has no blank at either end stays when it is trimmed.

## Main definitions

* `dropBlanks_cons`, `dropBlanks_digits` — nothing is dropped where no blank stands in front.
* `trimmed_of_forall` — a text without blanks is trimmed already.
-/
namespace Backtest

variable {c : Char} {cs : List Char}

/-- A digit is no blank. -/
theorem isBlank_of_isDigit (hc : c.isDigit = true) : isBlank c = false := by
  rcases Binary64.digit_cases hc with rfl | rfl | rfl | rfl | rfl | rfl | rfl | rfl | rfl | rfl <;>
    decide

theorem dropBlanks_cons (hc : isBlank c = false) (cs : List Char) :
    dropBlanks (c :: cs) = c :: cs :=
  List.dropWhile_cons_of_neg (by rw [hc]; decide)

theorem dropBlanks_digits {ds : List Char} (hds : Binary64.IsDigits ds) (hne : ds ≠ [])
    (rest : List Char) : dropBlanks (ds ++ rest) = ds ++ rest := by
  cases ds with
  | nil => exact absurd rfl hne
  | cons d ds => exact dropBlanks_cons (isBlank_of_isDigit (hds d List.mem_cons_self)) _

theorem dropBlanks_of_forall (h : ∀ c ∈ cs, isBlank c = false) : dropBlanks cs = cs := by
  cases cs with
  | nil => rfl
  | cons c cs => exact dropBlanks_cons (h c List.mem_cons_self) cs

/-- A text without blanks has none at its ends. -/
theorem trimmed_of_forall {s : String} (h : ∀ c ∈ s.toList, isBlank c = false) : trimmed s = s := by
  have hreverse : ∀ c ∈ s.toList.reverse, isBlank c = false := by simpa using h
  rw [trimmed, trimBlanks, dropBlanks_of_forall h, dropBlanks_of_forall hreverse,
    List.reverse_reverse, String.ofList_toList]

end Backtest
