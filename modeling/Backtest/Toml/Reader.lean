import Backtest.Toml.Item
import Backtest.Toml.Moment
import Backtest.Toml.Number
import Backtest.Toml.Text

/-!
# Reading TOML texts

A text is a list of statements: headings of tables, headings of list elements, and keys with values.
Each call of a reader spends one unit of fuel, and no text needs more than twice its length and two,
so running out of fuel is no outcome of `read?`.
-/
namespace Backtest.Toml

/-- How deep values may nest, and how many parts a key may have. -/
def maxDepth : Nat := 79

/-- Whether a character may stand in a key without quotes. -/
def isKeyChar (c : Char) : Bool := c.isAlphanum || c == '_' || c == '-'

/-- One part of a key, and the rest. -/
def readKeyPart? (cs : List Char) : Option (String × List Char) :=
  match readLineText? cs with
  | some result => some result
  | none =>
    let part := cs.takeWhile isKeyChar
    if part.isEmpty then none else some (String.ofList part, cs.drop part.length)

/-- The parts of a key with dots between them, and the rest without spaces in front. -/
def readKeyParts? : Nat → List Char → Option (List String × List Char)
  | 0, _ => none
  | fuel + 1, cs => do
    let (part, rest) ← readKeyPart? (dropSpaces cs)
    match dropSpaces rest with
    | '.' :: rest =>
      let (parts, rest) ← readKeyParts? fuel rest
      some (part :: parts, rest)
    | rest => some ([part], rest)

/-- A key, and the rest. -/
def readKey? (cs : List Char) : Option (List String × List Char) := do
  let (parts, rest) ← readKeyParts? (cs.length + 1) cs
  if parts.length ≤ maxDepth then some (parts, rest) else none

/-- The text after a comment, which holds no control characters, up to the end of its line. -/
def afterComment (cs : List Char) : List Char :=
  match cs with
  | '#' :: rest => rest.dropWhile isPlain
  | rest => rest

/-- The text after the end of a line, which may be the end of all. -/
def afterLine? (cs : List Char) : Option (List Char) :=
  match afterComment (dropSpaces cs) with
  | [] => some []
  | rest => afterBreak? rest

/-- The text after spaces, line breaks and comments; a comment has to end in a line break. -/
def skipLines? : Nat → List Char → Option (List Char)
  | 0, _ => none
  | fuel + 1, cs =>
    match dropSpaces cs with
    | '#' :: rest =>
      match afterBreak? (rest.dropWhile isPlain) with
      | some rest => skipLines? fuel rest
      | none => none
    | rest =>
      match afterBreak? rest with
      | some rest => skipLines? fuel rest
      | none => some rest

/-- A value that holds no others. -/
def readScalar? (cs : List Char) : Option (Document × List Char) :=
  match cs with
  | 't' :: 'r' :: 'u' :: 'e' :: rest => some (.bool true, rest)
  | 'f' :: 'a' :: 'l' :: 's' :: 'e' :: rest => some (.bool false, rest)
  | cs =>
    match readText? cs with
    | some (s, rest) => some (.text s, rest)
    | none =>
      match readMoment? cs with
      | some result => some result
      | none => readNumber? cs

mutual

/-- A value at the front, and the rest. -/
def readValue? : Nat → Nat → List Char → Option (Document × List Char)
  | 0, _, _ => none
  | fuel + 1, depth, cs =>
    match cs with
    | '[' :: rest => if depth < maxDepth then readItems? fuel (depth + 1) [] rest else none
    | '\x7b' :: rest =>
      if depth < maxDepth then
        match dropSpaces rest with
        | '\x7d' :: rest => some (.table [], rest)
        | rest => readPairs? fuel (depth + 1) [] rest
      else none
    | cs => readScalar? cs

/-- The items of a list up to its closing bracket; a comma may follow the last. -/
def readItems? : Nat → Nat → List Document → List Char → Option (Document × List Char)
  | 0, _, _, _ => none
  | fuel + 1, depth, acc, cs =>
    match skipLines? (cs.length + 1) cs with
    | none => none
    | some (']' :: rest) => some (.list acc.reverse, rest)
    | some rest =>
      match readValue? fuel depth rest with
      | none => none
      | some (item, rest) =>
        match skipLines? (rest.length + 1) rest with
        | some (',' :: rest) => readItems? fuel depth (item :: acc) rest
        | some (']' :: rest) => some (.list (item :: acc).reverse, rest)
        | _ => none

/-- The entries of a table on one line up to its closing brace. -/
def readPairs? : Nat → Nat → Entries → List Char → Option (Document × List Char)
  | 0, _, _, _ => none
  | fuel + 1, depth, acc, cs =>
    match readKey? cs with
    | some (parts, '=' :: rest) =>
      match readValue? fuel depth (dropSpaces rest) with
      | none => none
      | some (value, rest) =>
        match acc.put (parts.getLastD "") value parts.dropLast with
        | none => none
        | some acc =>
          match dropSpaces rest with
          | ',' :: rest => readPairs? fuel depth acc rest
          | '\x7d' :: rest => some (.table (Item.entryDocuments acc), rest)
          | _ => none
    | _ => none

end

/-- What one or more lines of a text say. -/
inductive Statement where
  | table (path : List String)
  | element (path : List String)
  | entry (path : List String) (key : String) (value : Document)

/-- The statement that starts at the front, and the rest after its line. -/
def readStatement? (cs : List Char) : Option (Statement × List Char) :=
  match cs with
  | '[' :: '[' :: rest => do
    let (path, rest) ← readKey? rest
    match rest with
    | ']' :: ']' :: rest => some (.element path, ← afterLine? rest)
    | _ => none
  | '[' :: rest => do
    let (path, rest) ← readKey? rest
    match rest with
    | ']' :: rest => some (.table path, ← afterLine? rest)
    | _ => none
  | cs => do
    let (parts, rest) ← readKey? cs
    match rest with
    | '=' :: rest =>
      let (value, rest) ← readValue? (2 * rest.length + 2) 0 (dropSpaces rest)
      some (.entry parts.dropLast (parts.getLastD "") value, ← afterLine? rest)
    | _ => none

/-- All statements of a text. -/
def readStatements? : Nat → List Char → Option (List Statement)
  | 0, _ => none
  | fuel + 1, cs =>
    match afterLine? cs with
    | some [] => some []
    | some rest => readStatements? fuel rest
    | none =>
      match readStatement? (dropSpaces cs) with
      | none => none
      | some (s, rest) => (readStatements? fuel rest).map (s :: ·)

/-- A text while it is read: its entries, and the path of the table that is open. -/
structure Assembly where
  root : Entries := []
  current : List String := []

namespace Assembly

/-- Takes in one more statement. -/
def add? (a : Assembly) : Statement → Option Assembly
  | .table path => (Entries.edit Item.opened? path a.root).map fun root => ⟨root, path⟩
  | .element path => (Entries.edit Item.extended? path a.root).map fun root => ⟨root, path⟩
  | .entry path key value =>
    if a.current.isEmpty then
      (a.root.put key value path).map fun root => { a with root }
    else
      (Entries.edit (Item.withValue? path key value) a.current a.root).map fun root =>
        { a with root }

end Assembly

/-- The table that a whole text denotes. A mark of the byte order in front is skipped. -/
def read? (text : String) : Option Document := do
  let cs := match text.toList with
    | '\ufeff' :: rest => rest
    | cs => cs
  let statements ← readStatements? (cs.length + 1) cs
  let whole ← statements.foldlM Assembly.add? {}
  some (.table (Item.entryDocuments whole.root))

end Backtest.Toml
