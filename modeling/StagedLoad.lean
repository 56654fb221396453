import StagedLoad.CommandLine.Arguments
import StagedLoad.CommandLine.ExitCode
import StagedLoad.CommandLine.Program
import StagedLoad.Config
import StagedLoad.Decimal.Binary64
import StagedLoad.Decimal.Printer
import StagedLoad.Decimal.Reader
import StagedLoad.Decimal.Shortest
import StagedLoad.Duration.Basic
import StagedLoad.Duration.Instant
import StagedLoad.Duration.Printer
import StagedLoad.Duration.Reader
import StagedLoad.Files.Basic
import StagedLoad.Files.Tree
import StagedLoad.Http.Check
import StagedLoad.Http.Client
import StagedLoad.Http.Form
import StagedLoad.Http.FormReader
import StagedLoad.Http.Message
import StagedLoad.Http.RequestUri
import StagedLoad.Http.Workload
import StagedLoad.Json.Basic
import StagedLoad.Json.Number
import StagedLoad.Json.Path
import StagedLoad.Json.Reader
import StagedLoad.Json.Writer
import StagedLoad.Main
import StagedLoad.Metric.Aggregate
import StagedLoad.Metric.Histogram
import StagedLoad.Metric.Name
import StagedLoad.Metric.Percentile
import StagedLoad.Metric.Recorder
import StagedLoad.Metric.Sample
import StagedLoad.Metric.Scalar
import StagedLoad.Metric.Statistics
import StagedLoad.Metric.Trend
import StagedLoad.Pool.Basic
import StagedLoad.Pool.Clock
import StagedLoad.Profile.Basic
import StagedLoad.Profile.Draft
import StagedLoad.Report.Line
import StagedLoad.Report.Short
import StagedLoad.Report.Text
import StagedLoad.Run.Controller
import StagedLoad.Run.Launch
import StagedLoad.Run.Report
import StagedLoad.Schedule
import StagedLoad.Table
import StagedLoad.Target.Server
import StagedLoad.Target.Upload
import StagedLoad.Text.Blank
import StagedLoad.Text.Bytes
import StagedLoad.Threshold.Evaluation
import StagedLoad.Threshold.Expr
import StagedLoad.Threshold.Parser
import StagedLoad.Threshold.Rule
import StagedLoad.Url.Basic
import StagedLoad.Url.Host
import StagedLoad.Url.Percent
import StagedLoad.Url.Punycode
import StagedLoad.Url.Reader
import StagedLoad.Workload
import StagedLoad.Workload.Script
import StagedLoad.Yaml.Block
import StagedLoad.Yaml.Cursor
import StagedLoad.Yaml.Decode
import StagedLoad.Yaml.Lexer
import StagedLoad.Yaml.Node
import StagedLoad.Yaml.Scalar
import StagedLoad.Yaml.Schema
import StagedLoad.Yaml.Tag
import StagedLoad.Yaml.Token
import StagedLoad.Yaml.Value
import StagedLoad.Proofs.CommandLine.ExitStatus
import StagedLoad.Proofs.Decimal.Arithmetic
import StagedLoad.Proofs.Decimal.Digits
import StagedLoad.Proofs.Decimal.Literal
import StagedLoad.Proofs.Decimal.Magnitude
import StagedLoad.Proofs.Decimal.Nearest
import StagedLoad.Proofs.Decimal.Order
import StagedLoad.Proofs.Decimal.Rounding
import StagedLoad.Proofs.Decimal.Shortest
import StagedLoad.Proofs.Decimal.Value
import StagedLoad.Proofs.Duration.Crash
import StagedLoad.Proofs.Http.Accounting
import StagedLoad.Proofs.Http.Boundary
import StagedLoad.Proofs.Http.Configuration
import StagedLoad.Proofs.Http.Form
import StagedLoad.Proofs.Http.Iteration
import StagedLoad.Proofs.Http.RequestUri
import StagedLoad.Proofs.Json.Literal
import StagedLoad.Proofs.Json.Number
import StagedLoad.Proofs.Json.Path
import StagedLoad.Proofs.Json.RoundTrip
import StagedLoad.Proofs.Metric.Approximate
import StagedLoad.Proofs.Metric.CustomValues
import StagedLoad.Proofs.Metric.Exact
import StagedLoad.Proofs.Metric.Histogram
import StagedLoad.Proofs.Metric.Interleaving
import StagedLoad.Proofs.Metric.Interpolation
import StagedLoad.Proofs.Metric.Percentile
import StagedLoad.Proofs.Metric.Permutation
import StagedLoad.Proofs.Metric.Recorder
import StagedLoad.Proofs.Metric.Series
import StagedLoad.Proofs.Metric.Tolerance
import StagedLoad.Proofs.Metric.Totals
import StagedLoad.Proofs.Metric.Trend
import StagedLoad.Proofs.Pool.Command
import StagedLoad.Proofs.Pool.Crash
import StagedLoad.Proofs.Pool.Drain
import StagedLoad.Proofs.Pool.Fault
import StagedLoad.Proofs.Pool.Ledger
import StagedLoad.Proofs.Pool.Log
import StagedLoad.Proofs.Pool.Move
import StagedLoad.Proofs.Pool.Pending
import StagedLoad.Proofs.Pool.Remainder
import StagedLoad.Proofs.Pool.Resize
import StagedLoad.Proofs.Pool.Users
import StagedLoad.Proofs.Report.Line
import StagedLoad.Proofs.Run.Agenda
import StagedLoad.Proofs.Run.Curve
import StagedLoad.Proofs.Run.Events
import StagedLoad.Proofs.Run.History
import StagedLoad.Proofs.Run.Iterations
import StagedLoad.Proofs.Run.Launch
import StagedLoad.Proofs.Run.Log
import StagedLoad.Proofs.Run.Outcome
import StagedLoad.Proofs.Run.Report
import StagedLoad.Proofs.Run.Stall
import StagedLoad.Proofs.Run.Steps
import StagedLoad.Proofs.Run.Stopping
import StagedLoad.Proofs.Run.Termination
import StagedLoad.Proofs.Run.ThresholdAbort
import StagedLoad.Proofs.Run.Timely
import StagedLoad.Proofs.Run.TrackingError
import StagedLoad.Proofs.Run.Watching
import StagedLoad.Proofs.Schedule.Curve
import StagedLoad.Proofs.Schedule.Saturation
import StagedLoad.Proofs.Schedule.Snapshot
import StagedLoad.Proofs.Schedule.Step
import StagedLoad.Proofs.Schedule.Way
import StagedLoad.Proofs.Schedule.Window
import StagedLoad.Proofs.Table
import StagedLoad.Proofs.Target.Books
import StagedLoad.Proofs.Text.Utf8
import StagedLoad.Proofs.Threshold.Abort
import StagedLoad.Proofs.Threshold.Agreement
import StagedLoad.Proofs.Threshold.Grammar
import StagedLoad.Proofs.Threshold.Parser
import StagedLoad.Proofs.Threshold.PercentileText
import StagedLoad.Proofs.Threshold.Percentiles
import StagedLoad.Proofs.Threshold.Rule
import StagedLoad.Proofs.Threshold.Verdict
import StagedLoad.Proofs.Url.Address
import StagedLoad.Proofs.Url.Domain
import StagedLoad.Proofs.Url.Host
import StagedLoad.Proofs.Url.Percent
import StagedLoad.Proofs.Url.RoundTrip
import StagedLoad.Proofs.Url.WellFormed
