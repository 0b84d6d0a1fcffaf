import Backtest.Toml.Reader
import Backtest.WalkForward.Request

/-!
# Requests as texts

Reads a request from a TOML text. There a choice may also be a table that maps its name to an empty
table, and a record that is written as a list may go on behind its last field.
-/
namespace Backtest.Request

/-- A choice that maps its name to an empty table, as one that maps it to nothing. -/
def bareChoice : Document → Document
  | .table [(name, .table [])] => .table [(name, .null)]
  | d => d

/-- The front of a list. -/
def frontOf (count : Nat) : Document → Document
  | .list items => .list (items.take count)
  | d => d

/-- The entry of a request as every reader takes it. -/
def plainEntry (name : String) (d : Document) : Document :=
  match name with
  | "strategy" => bareChoice d
  | "window_type" => bareChoice d
  | "metric" => bareChoice d
  | "method" => bareChoice d
  | "guardrails" => frontOf 3 d
  | "simulation" => frontOf 5 d
  | "robust_score" => frontOf 3 d
  | _ => d

/-- A request as every reader takes it. -/
def plainRequest : Document → Document
  | .table entries => .table (entries.map fun e => (e.1, plainEntry e.1 e.2))
  | d => d

/-- The request of a TOML text. -/
def ofToml (text : String) : Except RequestError Request :=
  match (Toml.read? text).bind fun d => ofDocument? (plainRequest d) with
  | some c => .ok c
  | none => .error .parse

/-- The request of a file's bytes, if there is a file and it is a text. -/
def load (path : String) (bytes : Option (List UInt8)) : Except RequestError Request :=
  match bytes.bind fun bs => String.fromUTF8? ⟨bs.toArray⟩ with
  | some text => ofToml text
  | none => .error (.read path)

end Backtest.Request
