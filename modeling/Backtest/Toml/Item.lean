import Backtest.Document.Basic

/-!
# Tables under construction

A TOML text names its tables in pieces: by headings, by the paths of headings, and by dotted keys.
What a piece may still be added to depends on how the table came to be, so each table keeps its
origin until the text is read. A heading opens a table once; a dotted key extends only tables that
dotted keys made.
-/
namespace Backtest.Toml

/-- How a table came to be. -/
inductive Origin where
  /-- By a heading of its own. -/
  | heading
  /-- As a part of the path of a heading. -/
  | path
  /-- By a dotted key. -/
  | dotted
deriving Repr, DecidableEq

/-- What stands under a key: a value, a table, or a list of tables that can grow. -/
inductive Item where
  | value (value : Document)
  | table (origin : Origin) (entries : List (String × Item))
  | tables (tables : List (List (String × Item)))

/-- The entries of a table. -/
abbrev Entries := List (String × Item)

namespace Entries

/-- What stands under a key. -/
def find? (es : Entries) (key : String) : Option Item := (List.find? (·.1 == key) es).map (·.2)

/-- The entries with another item under a key; a new key goes last. -/
def set (es : Entries) (key : String) (item : Item) : Entries :=
  if es.any (·.1 == key) then List.map (fun e => if e.1 == key then (key, item) else e) es
  else es ++ [(key, item)]

/-- Changes the last table of a list. -/
def updateLast (f : Entries → Option Entries) : List Entries → Option (List Entries)
  | [] => none
  | [t] => (f t).map fun t => [t]
  | t :: rest => (updateLast f rest).map (t :: ·)

/-- Puts a value under a dotted key. All but the last part of a path may lead through tables of
headings' paths; the last table has to be one that dotted keys made. -/
def put (es : Entries) (key : String) (value : Document) : List String → Option Entries
  | [] => if (es.find? key).isSome then none else some (es.set key (.value value))
  | [p] =>
    match es.find? p with
    | none => (put [] key value []).map fun sub => es.set p (.table .dotted sub)
    | some (.table .dotted sub) =>
      (put sub key value []).map fun sub => es.set p (.table .dotted sub)
    | _ => none
  | p :: q :: path =>
    match es.find? p with
    | none => (put [] key value (q :: path)).map fun sub => es.set p (.table .dotted sub)
    | some (.table .heading _) => none
    | some (.table origin sub) =>
      (put sub key value (q :: path)).map fun sub => es.set p (.table origin sub)
    | some (.tables ts) =>
      (updateLast (fun sub => put sub key value (q :: path)) ts).map fun ts => es.set p (.tables ts)
    | some (.value _) => none

/-- Changes what stands at the end of a heading's path. -/
def edit (f : Option Item → Option Item) : List String → Entries → Option Entries
  | [], _ => none
  | [key], es => (f (es.find? key)).map (es.set key)
  | p :: q :: path, es =>
    match es.find? p with
    | none => (edit f (q :: path) []).map fun sub => es.set p (.table .path sub)
    | some (.table origin sub) =>
      (edit f (q :: path) sub).map fun sub => es.set p (.table origin sub)
    | some (.tables ts) =>
      (updateLast (edit f (q :: path)) ts).map fun ts => es.set p (.tables ts)
    | some (.value _) => none

end Entries

namespace Item

/-- The table that a heading opens. -/
def opened? : Option Item → Option Item
  | none => some (.table .heading [])
  | some (.table .path es) => some (.table .heading es)
  | _ => none

/-- The list of tables with one more. -/
def extended? : Option Item → Option Item
  | none => some (.tables [[]])
  | some (.tables ts) => some (.tables (ts ++ [[]]))
  | _ => none

/-- The open table, or the last of a list, with one more value. -/
def withValue? (path : List String) (key : String) (value : Document) :
    Option Item → Option Item
  | some (.table origin es) => (Entries.put es key value path).map (.table origin)
  | some (.tables ts) =>
    (Entries.updateLast (fun es => Entries.put es key value path) ts).map .tables
  | _ => none

mutual

/-- The document of an item. -/
def toDocument : Item → Document
  | .value v => v
  | .table _ es => .table (entryDocuments es)
  | .tables ts => .list (tableDocuments ts)

/-- The documents of entries. -/
def entryDocuments : List (String × Item) → List (String × Document)
  | [] => []
  | (key, item) :: rest => (key, toDocument item) :: entryDocuments rest

/-- The documents of tables. -/
def tableDocuments : List (List (String × Item)) → List Document
  | [] => []
  | es :: rest => .table (entryDocuments es) :: tableDocuments rest

end

end Item
end Backtest.Toml
