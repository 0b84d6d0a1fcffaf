import Backtest.Document.Basic

/-!
# Records in documents

A record of named fields is written as a table, or as the list of its values in the order of the
fields. In a table unknown names are skipped and a known name may occur once; a list may stop early
where the missing fields have defaults.
-/
namespace Backtest

/-- The fields of a record as a document gives them. -/
structure Record where
  /-- Whether the values stood in a list. -/
  positional : Bool
  entries : List (String × Document)

namespace Record

/-- Reads a document as a record with these fields. -/
def ofDocument? (names : List String) : Document → Option Record
  | .table entries =>
    let known := entries.filter fun e => names.contains e.1
    if (known.map (·.1)).Pairwise (· ≠ ·) then some ⟨false, known⟩ else none
  | .list values =>
    if values.length ≤ names.length then some ⟨true, names.zip values⟩ else none
  | _ => none

/-- The value of a field, if the document has it. -/
def find? (r : Record) (name : String) : Option Document :=
  (r.entries.find? (·.1 == name)).map (·.2)

/-- A field that has to be present. -/
def required {α : Type} (r : Record) (name : String) (decode : Document → Option α) : Option α :=
  (r.find? name).bind decode

/-- A field that stands for its default when it is absent. -/
def defaulted {α : Type} (r : Record) (name : String) (default : α)
    (decode : Document → Option α) : Option α :=
  match r.find? name with
  | none => some default
  | some d => decode d

/-- A field that may be null, or absent from a table. -/
def optional {α : Type} (r : Record) (name : String) (decode : Document → Option α) :
    Option (Option α) :=
  match r.find? name with
  | none => if r.positional then none else some none
  | some d => Document.nullable? decode d

end Record
end Backtest
