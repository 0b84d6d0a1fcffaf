/-!
# Ranges of words

Which integers a word of 64 bits holds, with a sign and without one.
-/
namespace Backtest

/-- The integers of 64 bits with a sign. -/
abbrev IsInt64 (n : Int) : Prop := -9223372036854775808 ≤ n ∧ n < 9223372036854775808

/-- The integers of 64 bits without a sign: what a count can be. -/
abbrev IsCount (n : Int) : Prop := 0 ≤ n ∧ n < 18446744073709551616

end Backtest
