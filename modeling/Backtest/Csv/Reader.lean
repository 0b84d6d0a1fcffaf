import Backtest.Text.Blank

/-!
# Comma-separated records

Splits bytes into records of fields. A record ends with a line feed, a carriage return, or both, and
lines without a character are no records. A field that starts with a quote goes on to the next
single quote, over commas and line breaks, and two quotes in it stand for one; what follows the
closing quote belongs to the field as it is.

The scanner is a step function on one byte, run from the left.
-/
namespace Backtest.Csv

/-- The byte around quoted fields. -/
def quote : UInt8 := 34

/-- The byte between fields. -/
def comma : UInt8 := 44

/-- The byte that ends a line. -/
def lineFeed : UInt8 := 10

/-- The other byte that ends a line, alone or before a line feed. -/
def carriageReturn : UInt8 := 13

/-- Whether a byte ends a record. -/
def endsRecord (b : UInt8) : Bool := b == lineFeed || b == carriageReturn

/-- One record. Its line counts the line feeds before the place where the reader began to look for
it, which is right behind the byte that ended the record before. -/
structure RawRecord where
  line : Nat
  fields : List (List UInt8)
deriving Repr, DecidableEq

/-- Where the scanner is. -/
inductive Place where
  /-- Between records. -/
  | between
  /-- Before the first byte of a field. -/
  | fieldStart
  /-- In a field without quotes, or behind its closing quote. -/
  | plain
  /-- Between quotes. -/
  | quoted
  /-- Behind a quote that closes the field unless another follows. -/
  | afterQuote
deriving Repr, DecidableEq

/-- The scanner: where it is, the line it is on, the line of the record, and the fields and bytes
read so far, last first. -/
structure Scanner where
  place : Place := .between
  current : Nat := 1
  line : Nat := 1
  fields : List (List UInt8) := []
  field : List UInt8 := []

namespace Scanner

/-- The record that the scanner has read. -/
def record (s : Scanner) : RawRecord := ⟨s.line, (s.field.reverse :: s.fields).reverse⟩

/-- One more byte in the field. -/
def take (s : Scanner) (place : Place) (b : UInt8) : Scanner :=
  { s with place, field := b :: s.field }

/-- A byte outside quotes, and the record it ends. -/
def plainStep (s : Scanner) (b : UInt8) : Scanner × Option RawRecord :=
  if b == comma then
    ({ s with place := .fieldStart, fields := s.field.reverse :: s.fields, field := [] }, none)
  else if endsRecord b then (⟨.between, s.current, s.current, [], []⟩, some s.record)
  else (s.take .plain b, none)

/-- One byte, and the record it ends. -/
def step (s : Scanner) (b : UInt8) : Scanner × Option RawRecord :=
  let s := if b == lineFeed then { s with current := s.current + 1 } else s
  match s.place with
  | .between =>
    if endsRecord b then (s, none)
    else if b == quote then ({ s with place := .quoted }, none)
    else s.plainStep b
  | .fieldStart => if b == quote then ({ s with place := .quoted }, none) else s.plainStep b
  | .plain => s.plainStep b
  | .quoted =>
    if b == quote then ({ s with place := .afterQuote }, none) else (s.take .quoted b, none)
  | .afterQuote => if b == quote then (s.take .quoted b, none) else s.plainStep b

/-- The records from the scanner's place on. The end of the text ends a record, even in quotes. -/
def records (s : Scanner) : List UInt8 → List RawRecord
  | [] =>
    match s.place with
    | .between => []
    | _ => [s.record]
  | b :: rest =>
    let (s, ended) := s.step b
    match ended with
    | some r => r :: records s rest
    | none => records s rest

end Scanner

/-- The bytes without a mark of the byte order in front. -/
def dropMark : List UInt8 → List UInt8
  | 0xEF :: 0xBB :: 0xBF :: rest => rest
  | bytes => bytes

/-- The records of a text. -/
def records (bytes : List UInt8) : List RawRecord := Scanner.records {} (dropMark bytes)

/-- The text of a field without blanks at its ends, if the bytes are UTF-8. -/
def fieldText? (bytes : List UInt8) : Option String :=
  (String.fromUTF8? ⟨bytes.toArray⟩).map trimmed

/-- The texts of the fields of a record. -/
def RawRecord.texts? (r : RawRecord) : Option (List String) := r.fields.mapM fieldText?

end Backtest.Csv
