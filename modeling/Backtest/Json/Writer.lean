import Backtest.Document.Basic
import Backtest.Number.Layout

/-!
# JSON texts

The text of a document. Entries stay in their order; letters beyond ASCII stand for themselves;
a quote, a backslash and the control characters below the blank are escaped. A double has its
shortest digits, with an exponent part from `1e+16` up and below `1e-5`, and NaN and the infinities
are null.
-/
namespace Backtest.Json

/-- Doubles in JSON. -/
def numberLayout : NumberLayout :=
  ⟨.even, true, some (-5, 15), "null", "null", "null"⟩

/-- A lower-case hexadecimal digit. -/
def hexDigit (n : Nat) : Char := Nat.digitChar n

/-- The text of one character inside quotes. -/
def escapeChar (c : Char) : List Char :=
  if c = '"' then ['\\', '"']
  else if c = '\\' then ['\\', '\\']
  else if c = '\n' then ['\\', 'n']
  else if c = '\r' then ['\\', 'r']
  else if c = '\t' then ['\\', 't']
  else if c = '\x08' then ['\\', 'b']
  else if c = '\x0c' then ['\\', 'f']
  else if c.toNat < 32 then
    ['\\', 'u', '0', '0', hexDigit (c.toNat / 16), hexDigit (c.toNat % 16)]
  else [c]

/-- A text in quotes. -/
def quote (s : String) : List Char :=
  '"' :: s.toList.flatMap escapeChar ++ ['"']

/-- An integer in decimal digits. -/
def integerText (n : Int) : List Char :=
  if n < 0 then '-' :: Nat.toDigits 10 n.natAbs else Nat.toDigits 10 n.natAbs

/-- Where a text breaks lines: what goes before an item at a depth, and after a key. -/
structure Spacing where
  newline : Nat → List Char
  afterKey : List Char

namespace Spacing

/-- No blanks at all. -/
def compact : Spacing := ⟨fun _ => [], []⟩

/-- One item a line, two blanks for each depth. -/
def pretty : Spacing := ⟨fun depth => '\n' :: List.replicate (2 * depth) ' ', [' ']⟩

end Spacing

mutual

/-- The text of a document that stands at a depth. -/
def render (s : Spacing) (depth : Nat) : Document → List Char
  | .null => "null".toList
  | .bool true => "true".toList
  | .bool false => "false".toList
  | .integer n => integerText n
  | .real x => (numberLayout.write x).toList
  | .text t => quote t
  | .list [] => "[]".toList
  | .list (x :: xs) =>
    '[' :: s.newline (depth + 1) ++ render s (depth + 1) x ++ renderItems s (depth + 1) xs ++
      s.newline depth ++ [']']
  | .table [] => "\x7b\x7d".toList
  | .table ((k, v) :: rest) =>
    '\x7b' :: s.newline (depth + 1) ++ quote k ++ ':' :: s.afterKey ++ render s (depth + 1) v ++
      renderEntries s (depth + 1) rest ++ s.newline depth ++ ['\x7d']
  | .unreadable => "null".toList

/-- The items of a list after the first. -/
def renderItems (s : Spacing) (depth : Nat) : List Document → List Char
  | [] => []
  | x :: xs => ',' :: s.newline depth ++ render s depth x ++ renderItems s depth xs

/-- The entries of a table after the first. -/
def renderEntries (s : Spacing) (depth : Nat) : List (String × Document) → List Char
  | [] => []
  | (k, v) :: rest =>
    ',' :: s.newline depth ++ quote k ++ ':' :: s.afterKey ++ render s depth v ++
      renderEntries s depth rest

end

/-- The text of a document without blanks. -/
def compact (d : Document) : String := String.ofList (render .compact 0 d)

/-- The text of a document with one item a line. -/
def pretty (d : Document) : String := String.ofList (render .pretty 0 d)

end Backtest.Json
