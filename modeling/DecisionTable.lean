import DecisionTable.CommandLine.Arguments
import DecisionTable.CommandLine.Error
import DecisionTable.CommandLine.Inspection
import DecisionTable.CommandLine.KeyText
import DecisionTable.CommandLine.Load
import DecisionTable.CommandLine.Query
import DecisionTable.CommandLine.Run
import DecisionTable.CommandLine.Verification
import DecisionTable.Error
import DecisionTable.Event
import DecisionTable.Json.Basic
import DecisionTable.Json.Decode
import DecisionTable.Json.Magnitude
import DecisionTable.Json.Number
import DecisionTable.Json.Printer
import DecisionTable.Json.Reader
import DecisionTable.Json.Text
import DecisionTable.Key.Column
import DecisionTable.Key.Interval
import DecisionTable.Key.Json
import DecisionTable.Key.Path
import DecisionTable.Key.Value
import DecisionTable.Main
import DecisionTable.Ordered.Bisect
import DecisionTable.Ordered.Distinct
import DecisionTable.Ordered.Entries
import DecisionTable.Payload
import DecisionTable.Proofs.Key.Interval
import DecisionTable.Proofs.Ordered
import DecisionTable.Proofs.Tree.View
import DecisionTable.Sample.Bands
import DecisionTable.Sample.Rates
import DecisionTable.Schema.Basic
import DecisionTable.Schema.Check
import DecisionTable.Schema.Config
import DecisionTable.Schema.Json
import DecisionTable.Table.Basic
import DecisionTable.Table.Builder
import DecisionTable.Table.Published
import DecisionTable.Table.Stats
import DecisionTable.TableFile
import DecisionTable.Text.Decimal
import DecisionTable.Text.GraphemeExtend
import DecisionTable.Text.Printable
import DecisionTable.Text.Quoted
import DecisionTable.Text.Record
import DecisionTable.Tree.Basic
import DecisionTable.Tree.Chain
import DecisionTable.Tree.ExactLevel
import DecisionTable.Tree.Lookup
import DecisionTable.Tree.Merge
import DecisionTable.Tree.Merging
import DecisionTable.Tree.RangeLevel
import DecisionTable.Tree.Shape
import DecisionTable.Proofs.Tree.RangeLevel
import DecisionTable.Proofs.Tree.Sound
import DecisionTable.Proofs.Tree.Agreement
import DecisionTable.Proofs.Tree.Putting
import DecisionTable.Proofs.Tree.Merge
import DecisionTable.Proofs.Tree.Clash
import DecisionTable.Proofs.Tree.MergeLaws
import DecisionTable.Proofs.Tree.Overlay
import DecisionTable.Proofs.Tree.Strand
import DecisionTable.Proofs.Tree.Chain
import DecisionTable.Proofs.Table.Build
import DecisionTable.Proofs.Table.Conflict
import DecisionTable.Proofs.Table.Rejection
import DecisionTable.Proofs.Tree.Payloads
import DecisionTable.Proofs.Table.Query
import DecisionTable.Proofs.Table.Unique
import DecisionTable.Proofs.Table.Follows
import DecisionTable.Proofs.Tree.Congruence
import DecisionTable.Proofs.Table.Permutation
import DecisionTable.Proofs.Tree.Shape
import DecisionTable.Proofs.Tree.Joined
import DecisionTable.Proofs.Table.Parts
import DecisionTable.Proofs.Table.Calls
import DecisionTable.Proofs.Table.Statistics
import DecisionTable.Proofs.Table.Events
import DecisionTable.Proofs.Key.Members
import DecisionTable.Proofs.Tree.Readings
import DecisionTable.Proofs.Table.Published
import DecisionTable.Proofs.CommandLine.Query
import DecisionTable.Proofs.Json.Tokens
import DecisionTable.Proofs.Json.Reader
import DecisionTable.Proofs.Text.Decimal
import DecisionTable.Proofs.TableFile
import DecisionTable.Proofs.Tree.Walk
import DecisionTable.Proofs.Tree.Node
import DecisionTable.Proofs.Tree.Insertion
import DecisionTable.Proofs.Tree.Leftover
import DecisionTable.Proofs.Tree.Trace
import DecisionTable.Proofs.Table.Config
import DecisionTable.Proofs.CommandLine.KeyText
import DecisionTable.Proofs.CommandLine.Arguments
import DecisionTable.Proofs.Text.Quoted
import DecisionTable.Proofs.Key.Display
import DecisionTable.Proofs.Key.Path
import DecisionTable.Proofs.Sample.Bands

