import Backtest.Main
import Backtest.Proofs.Number.Order
import Backtest.Proofs.Simulation.Entries
import Backtest.Proofs.Simulation.Causality
import Backtest.Proofs.Simulation.Ledger
import Backtest.Proofs.Simulation.Exits
import Backtest.Proofs.Market.Slices
import Backtest.Proofs.Schedule.Windows
import Backtest.Proofs.WalkForward.Separation
import Backtest.Proofs.Simulation.Openings
import Backtest.Proofs.Simulation.Decisions
import Backtest.Proofs.WalkForward.Validation
import Backtest.Proofs.WalkForward.Failures
import Backtest.Proofs.WalkForward.Calendar
import Backtest.Proofs.Number.Rounding
import Backtest.Proofs.Number.Arithmetic
import Backtest.Proofs.Params.Order
import Backtest.Proofs.Search.Conservation
import Backtest.Proofs.Search.Ranking
import Backtest.Proofs.Performance.Objectives
import Backtest.Proofs.Search.Ties
import Backtest.Proofs.WalkForward.Limits
import Backtest.WalkForward.Interruption
import Backtest.Proofs.Params.Overlay
import Backtest.Proofs.Strategy.Fields
import Backtest.Proofs.Search.BaseCheck
import Backtest.Proofs.WalkForward.Records
import Backtest.Proofs.WalkForward.Spacing
import Backtest.Proofs.WalkForward.Chronology
import Backtest.Proofs.WalkForward.Scoring
import Backtest.Proofs.Number.Finite
import Backtest.Proofs.Search.Numbering
import Backtest.Proofs.Search.Enumeration
import Backtest.Proofs.Performance.Finiteness
import Backtest.Proofs.Schedule.ClosedForm
import Backtest.Proofs.WalkForward.Protocol
import Backtest.Proofs.Number.Nearest
import Backtest.Proofs.Number.Shortest
import Backtest.Proofs.Number.Layout
import Backtest.Proofs.Json.Tokens
import Backtest.Proofs.Json.RoundTrip
import Backtest.Proofs.Time.Dates
import Backtest.Proofs.Time.Text
import Backtest.Proofs.Document.Codec
import Backtest.Proofs.Params.Canonical
import Backtest.Proofs.Strategy.RoundTrip
import Backtest.Proofs.Strategy.Checks
import Backtest.Proofs.Market.RoundTrip
import Backtest.Proofs.WalkForward.Encoding
import Backtest.Proofs.Report.RoundTrip
import Backtest.Proofs.Random.Distinct
import Backtest.Proofs.Search.Trials
import Backtest.Proofs.Market.Faults
import Backtest.Proofs.Market.Bisection
import Backtest.Proofs.Search.IntRange
import Backtest.Proofs.Number.Exact
import Backtest.Proofs.Number.Whole
import Backtest.Proofs.Search.TenPlaces
import Backtest.Proofs.Search.FloatRange
import Backtest.Proofs.Simulation.Shortcut
import Backtest.Proofs.Report.Directory
import Backtest.Proofs.Market.Lines
import Backtest.Proofs.Command.Assignments
import Backtest.Proofs.Performance.Declines
import Backtest.Proofs.Indicator.Recurrence
import Backtest.Proofs.Strategy.Resampling
import Backtest.Proofs.Number.Sums
import Backtest.Proofs.Indicator.Drift
