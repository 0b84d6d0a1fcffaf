import Backtest.Text.Hex

/-!
# Texts in TOML

Characters, line breaks and the four kinds of quoted text. A basic text is quoted by `"` and knows
escapes, a literal one is quoted by an apostrophe and knows none; either may be a block with three
quotes that spans lines. A line break inside a block counts as a line feed, and the one right after
the opening quotes is dropped.
-/
namespace Backtest.Toml

/-- Whether a character may stand for itself: no control character but the tab. -/
def isPlain (c : Char) : Bool := c == '\t' || (0x20 ≤ c.toNat && c.toNat != 0x7F)

/-- Whether a character separates words of a line. -/
def isSpace (c : Char) : Bool := c == ' ' || c == '\t'

/-- The text without the spaces in front. -/
def dropSpaces (cs : List Char) : List Char := cs.dropWhile isSpace

/-- The text after a line break. -/
def afterBreak? : List Char → Option (List Char)
  | '\n' :: rest => some rest
  | '\r' :: '\n' :: rest => some rest
  | _ => none

/-- What a backslash and one more character stand for. -/
def shortEscape? : Char → Option Char
  | '"' => some '"'
  | '\\' => some '\\'
  | 'b' => some '\x08'
  | 'f' => some '\x0c'
  | 'n' => some '\n'
  | 'r' => some '\r'
  | 't' => some '\t'
  | _ => none

/-- The character whose code `count` hexadecimal digits give. -/
def codedChar? (count : Nat) (cs : List Char) : Option (Char × List Char) := do
  let values ← (cs.take count).mapM hexValue?
  let code := values.foldl (fun n d => 16 * n + d) 0
  if values.length = count ∧ code.isValidChar then some (Char.ofNat code, cs.drop count) else none

/-- The character that the text after a backslash stands for, and the rest. -/
def readEscape? : List Char → Option (Char × List Char)
  | 'u' :: rest => codedChar? 4 rest
  | 'U' :: rest => codedChar? 8 rest
  | c :: rest => (shortEscape? c).map fun e => (e, rest)
  | [] => none

/-- The inside of a basic text up to its closing quote, and the rest. The characters read so far
come in reverse. -/
def readBasic? : Nat → List Char → List Char → Option (String × List Char)
  | 0, _, _ => none
  | fuel + 1, acc, cs =>
    match cs with
    | '"' :: rest => some (String.ofList acc.reverse, rest)
    | '\\' :: rest =>
      match readEscape? rest with
      | some (c, rest) => readBasic? fuel (c :: acc) rest
      | none => none
    | c :: rest => if isPlain c then readBasic? fuel (c :: acc) rest else none
    | [] => none

/-- The text without the spaces and line breaks in front. -/
def dropSpacesAndBreaks : List Char → List Char
  | '\r' :: '\n' :: rest => dropSpacesAndBreaks rest
  | c :: rest => if isSpace c || c == '\n' then dropSpacesAndBreaks rest else c :: rest
  | [] => []

/-- The text that goes on after a backslash at the end of a line. -/
def afterContinuation? (cs : List Char) : Option (List Char) :=
  (afterBreak? (dropSpaces cs)).map dropSpacesAndBreaks

/-- The rest after closing quotes of a block, with the quotes before them that belong to the text:
at most two do. -/
def closeBlock (quote : Char) (acc : List Char) : List Char → String × List Char
  | a :: b :: rest =>
    if a = quote ∧ b = quote then (String.ofList (b :: a :: acc).reverse, rest)
    else if a = quote then (String.ofList (a :: acc).reverse, b :: rest)
    else (String.ofList acc.reverse, a :: b :: rest)
  | [a] =>
    if a = quote then (String.ofList (a :: acc).reverse, []) else (String.ofList acc.reverse, [a])
  | [] => (String.ofList acc.reverse, [])

/-- The inside of a basic block up to its closing quotes, and the rest. -/
def readBasicBlock? : Nat → List Char → List Char → Option (String × List Char)
  | 0, _, _ => none
  | fuel + 1, acc, cs =>
    match cs with
    | '"' :: '"' :: '"' :: rest => some (closeBlock '"' acc rest)
    | '\\' :: rest =>
      match afterContinuation? rest with
      | some rest => readBasicBlock? fuel acc rest
      | none =>
        match readEscape? rest with
        | some (c, rest) => readBasicBlock? fuel (c :: acc) rest
        | none => none
    | '\r' :: '\n' :: rest => readBasicBlock? fuel ('\n' :: acc) rest
    | c :: rest => if isPlain c || c == '\n' then readBasicBlock? fuel (c :: acc) rest else none
    | [] => none

/-- The inside of a literal text up to its closing quote, and the rest. -/
def readLiteral? (acc : List Char) : List Char → Option (String × List Char)
  | '\'' :: rest => some (String.ofList acc.reverse, rest)
  | c :: rest => if isPlain c then readLiteral? (c :: acc) rest else none
  | [] => none

/-- The inside of a literal block up to its closing quotes, and the rest. -/
def readLiteralBlock? (acc : List Char) : List Char → Option (String × List Char)
  | '\'' :: '\'' :: '\'' :: rest => some (closeBlock '\'' acc rest)
  | '\r' :: '\n' :: rest => readLiteralBlock? ('\n' :: acc) rest
  | c :: rest => if isPlain c || c == '\n' then readLiteralBlock? (c :: acc) rest else none
  | [] => none

/-- The text without the line break in front, if there is one. -/
def dropBreak (cs : List Char) : List Char := (afterBreak? cs).getD cs

/-- A quoted text on one line, and the rest. -/
def readLineText? : List Char → Option (String × List Char)
  | '"' :: rest => readBasic? (rest.length + 1) [] rest
  | '\'' :: rest => readLiteral? [] rest
  | _ => none

/-- A quoted text of any kind, and the rest. -/
def readText? : List Char → Option (String × List Char)
  | '"' :: '"' :: '"' :: rest => readBasicBlock? (rest.length + 1) [] (dropBreak rest)
  | '\'' :: '\'' :: '\'' :: rest => readLiteralBlock? [] (dropBreak rest)
  | cs => readLineText? cs

end Backtest.Toml
