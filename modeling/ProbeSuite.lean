import ProbeSuite.CommandLine
import ProbeSuite.Main
import ProbeSuite.Proofs.Calendar
import ProbeSuite.Proofs.Config
import ProbeSuite.Proofs.Config.File
import ProbeSuite.Proofs.Files
import ProbeSuite.Proofs.Files.Apart
import ProbeSuite.Proofs.Files.Confined
import ProbeSuite.Proofs.Files.Grows
import ProbeSuite.Proofs.History
import ProbeSuite.Proofs.History.Confined
import ProbeSuite.Proofs.History.Layout
import ProbeSuite.Proofs.History.Refinement
import ProbeSuite.Proofs.Json.Flaw
import ProbeSuite.Proofs.Json.Grammar
import ProbeSuite.Proofs.Json.Layout
import ProbeSuite.Proofs.Json.Number
import ProbeSuite.Proofs.Json.Reader
import ProbeSuite.Proofs.Json.Record
import ProbeSuite.Proofs.Json.Skip
import ProbeSuite.Proofs.Json.Text
import ProbeSuite.Proofs.Json.Unambiguous
import ProbeSuite.Proofs.Probe.Workload
import ProbeSuite.Proofs.Report.Stored
import ProbeSuite.Proofs.Runner
import ProbeSuite.Proofs.Runner.Collecting
import ProbeSuite.Proofs.Runner.Recording
import ProbeSuite.Proofs.Runner.Streaming
import ProbeSuite.Proofs.Script.Collecting
import ProbeSuite.Proofs.Script.Ends
import ProbeSuite.Proofs.Script.Reaches
import ProbeSuite.Proofs.Script.Streaming
import ProbeSuite.Proofs.Sink
import ProbeSuite.Proofs.Timestamp
import ProbeSuite.Proofs.Toml.Document
import ProbeSuite.Proofs.Duration.Sum
import ProbeSuite.Proofs.CommandLine
import ProbeSuite.Proofs.Config.Loading
import ProbeSuite.Proofs.Duration.Units
import ProbeSuite.Proofs.Report.Total
import ProbeSuite.Proofs.History.Integers
import ProbeSuite.Proofs.History.Losses
import ProbeSuite.Proofs.Report.Lines
import ProbeSuite.Proofs.Report.Summary
import ProbeSuite.Proofs.Json.Printer
