import Backtest.Document.Basic

/-!
# Progress

The events of a run, in the order they happen, and what a watcher knows after each of them.
-/
namespace Backtest

/-- Where a run stands. -/
inductive RunStatus where
  | pending
  | running
  | completed
  | failed
  | cancelled
deriving Repr, DecidableEq

namespace RunStatus

/-- All states. -/
def all : List RunStatus := [pending, running, completed, failed, cancelled]

/-- The name of a state. -/
def name : RunStatus → String
  | pending => "pending"
  | running => "running"
  | completed => "completed"
  | failed => "failed"
  | cancelled => "cancelled"

/-- The state with a name. -/
def ofName? (s : String) : Option RunStatus := all.find? (·.name == s)

/-- Whether the run is over. -/
def isOver : RunStatus → Bool
  | completed => true
  | failed => true
  | cancelled => true
  | _ => false

end RunStatus

/-- What a run reports while it goes on. -/
inductive RunEvent where
  | started (totalWindows : Nat)
  | windowCompleted (index completed total : Nat) (disqualified : Bool)
  | finished (status : RunStatus)
deriving Repr, DecidableEq

/-- The event as a document. -/
def RunEvent.toDocument : RunEvent → Document
  | started total => .table [("event", .text "started"), ("total_windows", .integer total)]
  | windowCompleted index completed total disqualified =>
    .table [("event", .text "window_completed"), ("index", .integer index),
      ("completed", .integer completed), ("total", .integer total),
      ("disqualified", .bool disqualified)]
  | finished status => .table [("event", .text "finished"), ("status", .text status.name)]

/-- What a watcher knows of a run. -/
structure Progress where
  status : RunStatus
  totalWindows : Nat
  completedWindows : Nat
deriving Repr, DecidableEq

namespace Progress

/-- Before the first event. -/
def start : Progress := ⟨.pending, 0, 0⟩

/-- After one more event. -/
def apply (p : Progress) : RunEvent → Progress
  | .started total => { p with totalWindows := total, status := .running }
  | .windowCompleted _ completed _ _ => { p with completedWindows := completed }
  | .finished status => { p with status }

/-- After a list of events. -/
def applyAll (p : Progress) (events : List RunEvent) : Progress := events.foldl apply p

/-- The share of the windows that are done. A run without windows is done when it is completed. -/
def fraction (p : Progress) : Float :=
  if 0 < p.totalWindows then Float.ofNat p.completedWindows / Float.ofNat p.totalWindows
  else if p.status = .completed then 1
  else 0

end Progress
end Backtest
