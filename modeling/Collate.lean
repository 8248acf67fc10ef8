import Collate.Buffer
import Collate.Command.Arguments
import Collate.Command.FileTree
import Collate.Command.Help
import Collate.Command.Outcome
import Collate.Comparer.Equality
import Collate.Comparer.Order
import Collate.Config
import Collate.Digest
import Collate.Document.Basic
import Collate.Document.Fields
import Collate.Document.Settings
import Collate.Error
import Collate.Floating.Basic
import Collate.Floating.Rounding
import Collate.Floating.Shortest
import Collate.Floating.Text
import Collate.Join.Grouped
import Collate.Join.Index
import Collate.Join.Inner
import Collate.Json.Basic
import Collate.Json.Comparer
import Collate.Json.Literal
import Collate.Json.Numeral
import Collate.Json.Printer
import Collate.Json.Reader
import Collate.Lookup.Basic
import Collate.Lookup.Build
import Collate.Lookup.Chains
import Collate.Lookup.Id
import Collate.Main
import Collate.Proofs.Buffer
import Collate.Proofs.Comparer.Folded
import Collate.Proofs.Comparer.Preorder
import Collate.Proofs.Comparer.Stock
import Collate.Proofs.Comparer.Tolerance
import Collate.Proofs.Floating.Nearest
import Collate.Proofs.Floating.Rounding
import Collate.Proofs.Floating.Shortest
import Collate.Proofs.Floating.Text
import Collate.Proofs.Floating.Value
import Collate.Proofs.Join.Agreement
import Collate.Proofs.Join.Emission
import Collate.Proofs.Join.Index
import Collate.Proofs.Join.Nested
import Collate.Proofs.Join.Streaming
import Collate.Proofs.Json.Equality
import Collate.Proofs.Json.Lawful
import Collate.Proofs.Json.Number
import Collate.Proofs.Json.Numeral
import Collate.Proofs.Json.Order
import Collate.Proofs.Json.Preorder
import Collate.Proofs.Json.Reading
import Collate.Proofs.Json.Roundtrip
import Collate.Proofs.Json.Text
import Collate.Proofs.Json.Ties
import Collate.Proofs.Json.Value
import Collate.Proofs.Lookup.Chains
import Collate.Proofs.Lookup.Filling
import Collate.Proofs.Lookup.Grouping
import Collate.Proofs.Lookup.Growth
import Collate.Proofs.Lookup.Listing
import Collate.Proofs.Lookup.Occurring
import Collate.Proofs.Lookup.Partition
import Collate.Proofs.Lookup.Reachable
import Collate.Proofs.Lookup.Schedule
import Collate.Proofs.Lookup.Sorted
import Collate.Proofs.Pull
import Collate.Proofs.Query.Attached
import Collate.Proofs.Query.Explained
import Collate.Proofs.Query.Nested
import Collate.Proofs.Query.Ordering
import Collate.Proofs.Query.Partition
import Collate.Proofs.Query.Path
import Collate.Proofs.Query.Plain
import Collate.Proofs.Query.Record
import Collate.Proofs.Query.Tuning
import Collate.Proofs.Query.Validation
import Collate.Proofs.Query.WellFormed
import Collate.Proofs.Sort.Arrangement
import Collate.Proofs.Sort.Emission
import Collate.Proofs.Sort.Halving
import Collate.Proofs.Sort.Locality
import Collate.Proofs.Sort.Mirror
import Collate.Proofs.Sort.Ordered
import Collate.Proofs.Sort.Partition
import Collate.Proofs.Sort.Quick
import Collate.Proofs.Sort.Rearrangement
import Collate.Proofs.Sort.Stable
import Collate.Proofs.Sort.Succession
import Collate.Proofs.Text.Blank
import Collate.Proofs.Text.Lines
import Collate.Pull
import Collate.Query.Basic
import Collate.Query.Decode
import Collate.Query.Encode
import Collate.Query.Error
import Collate.Query.Executor
import Collate.Query.Path
import Collate.Query.Read
import Collate.Query.Record
import Collate.Reverse
import Collate.Sort.Execution
import Collate.Sort.Level
import Collate.Sort.Ordered
import Collate.Sort.Partition
import Collate.Sort.Quick
import Collate.Source
import Collate.Text.Blank
import Collate.Text.Bytes
import Collate.Text.Lines
import Collate.Text.Numeral
import Collate.Yaml.Anchor
import Collate.Yaml.Cursor
import Collate.Yaml.Document
import Collate.Yaml.Node
import Collate.Yaml.Scalar
import Collate.Yaml.Tag
import Collate.Yaml.Token
