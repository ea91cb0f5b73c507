import Fiff.Word
import Fiff.Hex
import Fiff.Float.Format
import Fiff.Float.Binary
import Fiff.Matrix
import Fiff.Tag.Code
import Fiff.Tag.Error
import Fiff.Tag.Data
import Fiff.Journal
import Fiff.Tree
import Fiff.Writer
import Fiff.Reader
import Fiff.Decimal.Round
import Fiff.Decimal.General
import Fiff.Decimal.Shortest
import Fiff.Decimal.Layout
import Fiff.Named.Basic
import Fiff.Named.Error
import Fiff.Named.Write
import Fiff.Named.Read
import Fiff.Session
import Fiff.Schema
import Fiff.Json.Value
import Fiff.Json.Read
import Fiff.Named.Json
import Fiff.Toml.Document
import Fiff.Toml.Parse
import Fiff.Toml.Report
import Fiff.Toml.Decode
import Fiff.Description
import Fiff.Summary
import Fiff.Cli.Spec
import Fiff.Cli.Help
import Fiff.Cli.Similar
import Fiff.Cli.Error
import Fiff.Cli.Args
import Fiff.Cli.Files
import Fiff.Cli.Run
import Fiff.Main
import Fiff.Proofs.Word
import Fiff.Proofs.Payload
import Fiff.Proofs.Stream
import Fiff.Proofs.Script
import Fiff.Proofs.WriterCall
import Fiff.Proofs.Nesting
import Fiff.Proofs.WriterRun
import Fiff.Proofs.WrittenTree
import Fiff.Proofs.NamedWrite
import Fiff.Proofs.NamedRead
import Fiff.Proofs.ReadTrace
import Fiff.Proofs.WriteOutcome
import Fiff.Proofs.WriteGate
import Fiff.Proofs.DirectoryScan
import Fiff.Proofs.HeaderChecks
import Fiff.Proofs.Transpose
import Fiff.Proofs.SummaryGate
import Fiff.Proofs.DecimalRounding
import Fiff.Proofs.DecimalText
import Fiff.Proofs.PercentG
import Fiff.Proofs.Rows
import Fiff.Proofs.Labels
import Fiff.Proofs.JsonScan
import Fiff.Proofs.JsonNumber
import Fiff.Proofs.QuotientRounding
import Fiff.Proofs.InterchangeText
import Fiff.Proofs.JsonRecord
import Fiff.Proofs.NamedJson
