import Backtest.Document.Basic
import Backtest.Json.Numbers
import Backtest.Text.Hex

/-!
# Reading JSON texts

A reader by recursive descent. Each call spends one unit of fuel and a text of `n` characters never
needs more than `2 * n + 2`, so running out of fuel is no outcome of `read?`. Blanks are the four of
the grammar. A number without point and exponent is an integer while it fits 64 bits, except `-0`;
any other is the double that the reader of numbers makes of it.
-/
namespace Backtest.Json

/-- How deep lists and tables may nest; what is deeper denotes nothing. -/
def maxDepth : Nat := 127

/-- Whether a character may stand between tokens. -/
def isBlank (c : Char) : Bool := c == ' ' || c == '\n' || c == '\t' || c == '\r'

/-- The text from its first token on. -/
def skipBlanks (cs : List Char) : List Char := cs.dropWhile isBlank

/-- The unit of sixteen bits that four hexadecimal digits denote. -/
def hexUnit? (a b c d : Char) : Option Nat := do
  let a ← hexValue? a
  let b ← hexValue? b
  let c ← hexValue? c
  let d ← hexValue? d
  some (((a * 16 + b) * 16 + c) * 16 + d)

/-- What a backslash and one more character stand for. -/
def shortEscape? : Char → Option Char
  | '"' => some '"'
  | '\\' => some '\\'
  | '/' => some '/'
  | 'b' => some '\x08'
  | 'f' => some '\x0c'
  | 'n' => some '\n'
  | 'r' => some '\r'
  | 't' => some '\t'
  | _ => none

/-- Whether a unit is the first half of a surrogate pair. -/
def isHighSurrogate (u : Nat) : Bool := 0xD800 ≤ u && u < 0xDC00

/-- Whether a unit is the second half of a surrogate pair. -/
def isLowSurrogate (u : Nat) : Bool := 0xDC00 ≤ u && u < 0xE000

/-- The character of a surrogate pair. -/
def pairedChar (high low : Nat) : Char :=
  Char.ofNat (0x10000 + (high - 0xD800) * 0x400 + (low - 0xDC00))

/-- The inside of a quoted text up to its closing quote, and the rest. The text is absent when it
holds half a surrogate pair. The characters read so far come in reverse, then the first half of a
pair that waits for its second, then whether every half before it found its other. -/
def readQuoted? : List Char → Option Nat → Bool → List Char → Option (Option String × List Char)
  | acc, high, sound, '"' :: rest =>
    some (if sound && high.isNone then some (String.ofList acc.reverse) else none, rest)
  | acc, high, sound, '\\' :: 'u' :: a :: b :: c :: d :: rest =>
    match hexUnit? a b c d with
    | none => none
    | some u =>
      match high with
      | some h =>
        if isLowSurrogate u then readQuoted? (pairedChar h u :: acc) none sound rest
        else readQuoted? acc none false rest
      | none =>
        if isLowSurrogate u then readQuoted? acc none false rest
        else if isHighSurrogate u then readQuoted? acc (some u) sound rest
        else readQuoted? (Char.ofNat u :: acc) none sound rest
  | acc, high, sound, '\\' :: c :: rest =>
    match shortEscape? c with
    | none => none
    | some e => readQuoted? (e :: acc) none (sound && high.isNone) rest
  | acc, high, sound, c :: rest =>
    if c == '\\' || c.toNat < 32 then none
    else readQuoted? (c :: acc) none (sound && high.isNone) rest
  | _, _, _, [] => none

/-- The document of a number that is no integer, from its magnitude; one beyond the doubles denotes
nothing. -/
def decimal (negative : Bool) : Option Float → Document
  | some x => .real (if negative then -x else x)
  | none => .unreadable

section

variable (numbers : NumberReader)

/-- The document of an integer literal, from its digits. -/
def integerLiteral (negative : Bool) (whole : List Char) : Document :=
  let n := Binary64.digitsValue whole
  if negative then
    if n = 0 ∨ 9223372036854775808 < n then decimal true (numbers.magnitude? whole [] 0)
    else .integer (-n)
  else if n < 18446744073709551616 then .integer n
  else decimal false (numbers.magnitude? whole [] 0)

/-- The exponent part of a number, if there is one: its value, and the rest. -/
def readExponentPart? : List Char → Option (Option Int × List Char)
  | c :: rest =>
    if c == 'e' || c == 'E' then
      let (negative, rest) := Binary64.splitSign rest
      let (digits, rest) := Binary64.splitDigits rest
      if digits.isEmpty then none
      else
        let n : Int := Binary64.digitsValue digits
        some (some (if negative then -n else n), rest)
    else some (none, c :: rest)
  | [] => some (none, [])

/-- The fraction part of a number, if there is one: its digits, and the rest. -/
def readFractionPart? : List Char → Option (List Char × List Char)
  | '.' :: rest =>
    let (digits, rest) := Binary64.splitDigits rest
    if digits.isEmpty then none else some (digits, rest)
  | rest => some ([], rest)

/-- A number after its sign. -/
def readNumber? (negative : Bool) (cs : List Char) : Option (Document × List Char) := do
  let (whole, rest) := Binary64.splitDigits cs
  if whole.isEmpty || (whole.length > 1 && whole.head? == some '0') then none
  let (fraction, rest) ← readFractionPart? rest
  let (exponent, rest) ← readExponentPart? rest
  if fraction.isEmpty && exponent.isNone then
    some (integerLiteral numbers negative whole, rest)
  else some (decimal negative (numbers.magnitude? whole fraction (exponent.getD 0)), rest)

/-- A list or table, unless it is nested too deep. -/
def nested (depth : Nat) (d : Document) : Document :=
  if depth ≤ maxDepth then d else .unreadable

mutual

/-- A document at the front of a text, and the rest. -/
def readValue? : Nat → Nat → List Char → Option (Document × List Char)
  | 0, _, _ => none
  | fuel + 1, depth, cs =>
    match skipBlanks cs with
    | 'n' :: 'u' :: 'l' :: 'l' :: rest => some (.null, rest)
    | 't' :: 'r' :: 'u' :: 'e' :: rest => some (.bool true, rest)
    | 'f' :: 'a' :: 'l' :: 's' :: 'e' :: rest => some (.bool false, rest)
    | '"' :: rest =>
      (readQuoted? [] none true rest).map fun (t, rest) =>
        (match t with
          | some t => .text t
          | none => .unreadable, rest)
    | '[' :: rest =>
      match skipBlanks rest with
      | ']' :: rest => some (nested (depth + 1) (.list []), rest)
      | rest => readItems? fuel (depth + 1) [] rest
    | '\x7b' :: rest =>
      match skipBlanks rest with
      | '\x7d' :: rest => some (nested (depth + 1) (.table []), rest)
      | rest => readEntries? fuel (depth + 1) [] rest
    | '-' :: rest => readNumber? numbers true rest
    | rest => readNumber? numbers false rest

/-- The items of a list up to its closing bracket. The items read so far come in reverse. -/
def readItems? : Nat → Nat → List Document → List Char → Option (Document × List Char)
  | 0, _, _, _ => none
  | fuel + 1, depth, acc, cs =>
    match readValue? fuel depth cs with
    | none => none
    | some (item, rest) =>
      match skipBlanks rest with
      | ',' :: rest => readItems? fuel depth (item :: acc) rest
      | ']' :: rest => some (nested depth (.list (item :: acc).reverse), rest)
      | _ => none

/-- The entries of a table up to its closing brace. The entries read so far come in reverse. -/
def readEntries? : Nat → Nat → List (String × Document) → List Char →
    Option (Document × List Char)
  | 0, _, _, _ => none
  | fuel + 1, depth, acc, cs =>
    match skipBlanks cs with
    | '"' :: rest =>
      match readQuoted? [] none true rest with
      | some (some key, rest) =>
        match skipBlanks rest with
        | ':' :: rest =>
          match readValue? fuel depth rest with
          | none => none
          | some (item, rest) =>
            match skipBlanks rest with
            | ',' :: rest => readEntries? fuel depth ((key, item) :: acc) rest
            | '\x7d' :: rest => some (nested depth (.table ((key, item) :: acc).reverse), rest)
            | _ => none
        | _ => none
      | _ => none
    | _ => none

end

end

/-- The document that a whole text denotes. -/
def read? (text : String) (numbers : NumberReader := .scaling) : Option Document :=
  let cs := text.toList
  match readValue? numbers (2 * cs.length + 2) 0 cs with
  | some (d, rest) => if (skipBlanks rest).isEmpty then some d else none
  | none => none

end Backtest.Json
