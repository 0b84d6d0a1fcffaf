import Backtest.Number.Reader
import Backtest.Text.Blank
import Backtest.Time.Instant

/-!
# Reading instants

Three forms of a point in time. The strict form has padded fields, `T`, `t` or one blank between
date and time, and an offset. The relaxed form of data files also admits unpadded fields, blanks
between the fields, signed years, `UTC`, and offsets without a colon. The plain form of tables has
no offset and counts as UTC. In all of them the second may be `60`.
-/
namespace Backtest.Instant

open Binary64 (digitsValue)

/-- Up to `most` digits at the front, at least `least` of them: their value, and the rest. -/
def digits? (least most : Nat) (cs : List Char) : Option (Nat × List Char) :=
  let front := (cs.take most).takeWhile Char.isDigit
  if front.length < least then none
  else some (digitsValue front, cs.drop front.length)

/-- The text after an expected character. -/
def after? (c : Char) : List Char → Option (List Char)
  | d :: rest => if c = d then some rest else none
  | [] => none

/-- The fields of a date and time as they stand in a text, and their offset in seconds. -/
structure Fields where
  date : Date
  hour : Nat
  minute : Nat
  second : Nat
  nano : Nat
  offset : Int

/-- The instant that fields denote, if they are in range. -/
def Fields.toInstant? (f : Fields) : Option Instant :=
  if f.date.isValid ∧ f.hour < 24 ∧ f.minute < 60 ∧ f.second ≤ 60 ∧ f.offset.natAbs < 86400 then
    let whole := if f.second = 60 then 59 else f.second
    let leap := if f.second = 60 then 1000000000 else 0
    inCalendar?
      ⟨f.date.toDays * 86400 + ((f.hour * 3600 + f.minute * 60 + whole : Nat) : Int) - f.offset,
        leap + f.nano⟩
  else none

/-- A point and the digits behind it as nanoseconds; digits after the ninth are dropped. -/
def fraction? : List Char → Option (Nat × List Char)
  | '.' :: rest =>
    let run := rest.takeWhile Char.isDigit
    if run.isEmpty then none
    else
      let kept := run.take 9
      some (digitsValue kept * Nat.pow 10 (9 - kept.length), rest.drop run.length)
  | rest => some (0, rest)

/-- A sign of an offset. -/
def offsetSign? : List Char → Option (Bool × List Char)
  | '+' :: rest => some (false, rest)
  | '-' :: rest => some (true, rest)
  | '−' :: rest => some (true, rest)
  | _ => none

/-- An offset in seconds: `Z`, or hours and minutes with whatever `separator?` takes between. -/
def offset? (separator? : List Char → Option (List Char)) : List Char → Option (Int × List Char)
  | 'Z' :: rest => some (0, rest)
  | 'z' :: rest => some (0, rest)
  | cs => do
    let (negative, rest) ← offsetSign? cs
    let (hours, rest) ← digits? 2 2 rest
    let rest ← separator? rest
    let (minutes, rest) ← digits? 2 2 rest
    if 60 ≤ minutes then none
    let seconds : Int := hours * 3600 + minutes * 60
    some (if negative then -seconds else seconds, rest)

/-- The text after the mark between date and time. -/
def afterDateMark? : List Char → Option (List Char)
  | 'T' :: rest => some rest
  | 't' :: rest => some rest
  | ' ' :: rest => some rest
  | _ => none

/-- Reads the strict form. -/
def readStrict? (text : String) : Option Instant := do
  let (year, cs) ← digits? 4 4 text.toList
  let (month, cs) ← (after? '-' cs).bind (digits? 2 2)
  let (day, cs) ← (after? '-' cs).bind (digits? 2 2)
  let (hour, cs) ← (afterDateMark? cs).bind (digits? 2 2)
  let (minute, cs) ← (after? ':' cs).bind (digits? 2 2)
  let (second, cs) ← (after? ':' cs).bind (digits? 2 2)
  let (nano, cs) ← fraction? cs
  let (offset, cs) ← offset? (after? ':') cs
  if !cs.isEmpty then none
  Fields.toInstant? ⟨⟨year, month, day⟩, hour, minute, second, nano, offset⟩

/-- A year with an optional sign. Without one it has at most four digits. -/
def year? (cs : List Char) : Option (Int × List Char) :=
  match dropBlanks cs with
  | '-' :: rest => (digits? 1 rest.length rest).map fun (n, rest) => (-n, rest)
  | '+' :: rest => (digits? 1 rest.length rest).map fun (n, rest) => (n, rest)
  | rest => (digits? 1 4 rest).map fun (n, rest) => (n, rest)

/-- A field of one or two digits after any blanks. -/
def field? (cs : List Char) : Option (Nat × List Char) := digits? 1 2 (dropBlanks cs)

/-- The text after `UTC` in any case. -/
def afterUtc? : List Char → Option (List Char)
  | a :: b :: c :: rest =>
    if a.toUpper = 'U' ∧ b.toUpper = 'T' ∧ c.toUpper = 'C' then some rest else none
  | _ => none

/-- Colons and blanks between the parts of a relaxed offset. -/
def dropColons (cs : List Char) : List Char := cs.dropWhile fun c => c == ':' || isBlank c

/-- Reads the relaxed form. -/
def readRelaxed? (text : String) : Option Instant := do
  let (year, cs) ← year? text.toList
  let (month, cs) ← (after? '-' (dropBlanks cs)).bind field?
  let (day, cs) ← (after? '-' (dropBlanks cs)).bind field?
  let (hour, cs) ← (afterDateMark? cs).bind field?
  let (minute, cs) ← (after? ':' (dropBlanks cs)).bind field?
  let (second, cs) ← (after? ':' (dropBlanks cs)).bind field?
  let (nano, cs) ← fraction? cs
  let cs := dropBlanks cs
  let (offset, cs) ← match afterUtc? cs with
    | some rest => some (0, rest)
    | none => offset? (fun rest => some (dropColons rest)) cs
  if !(dropBlanks cs).isEmpty then none
  Fields.toInstant? ⟨⟨year, month, day⟩, hour, minute, second, nano, offset⟩

/-- Reads the plain form. -/
def readPlain? (text : String) : Option Instant := do
  let (year, cs) ← year? text.toList
  let (month, cs) ← (after? '-' cs).bind field?
  let (day, cs) ← (after? '-' cs).bind field?
  let (hour, cs) ← field? cs
  let (minute, cs) ← (after? ':' cs).bind field?
  let (second, cs) ← (after? ':' cs).bind field?
  if !cs.isEmpty then none
  Fields.toInstant? ⟨⟨year, month, day⟩, hour, minute, second, 0, 0⟩

end Backtest.Instant
