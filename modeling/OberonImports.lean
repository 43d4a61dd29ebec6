import OberonImports.Analysis
import OberonImports.CommandLine.Arguments
import OberonImports.CommandLine.Outcome
import OberonImports.Config.Basic
import OberonImports.Config.Load
import OberonImports.Config.OfYaml
import OberonImports.Config.Policy
import OberonImports.Config.Problem
import OberonImports.Config.Setting
import OberonImports.FileSystem.Basic
import OberonImports.FileSystem.OsError
import OberonImports.FileSystem.Resolve
import OberonImports.FileSystem.Walk
import OberonImports.FileSystem.Write
import OberonImports.Graph.Basic
import OberonImports.Graph.Component
import OberonImports.Graph.Dot
import OberonImports.Graph.Rank
import OberonImports.Json
import OberonImports.Log.Event
import OberonImports.Log.Logged
import OberonImports.Main
import OberonImports.Module
import OberonImports.Number.Binary64
import OberonImports.Number.Decimal
import OberonImports.Path
import OberonImports.Proofs.Analysis
import OberonImports.Proofs.Ascending
import OberonImports.Proofs.CommandLine.Effects
import OberonImports.Proofs.CommandLine.Validate
import OberonImports.Proofs.Config.Base
import OberonImports.Proofs.Config.Draft
import OberonImports.Proofs.Config.Entries
import OberonImports.Proofs.Config.RoundTrip
import OberonImports.Proofs.FileSystem.Denotes
import OberonImports.Proofs.FileSystem.Entries
import OberonImports.Proofs.FileSystem.Leads
import OberonImports.Proofs.FileSystem.Nesting
import OberonImports.Proofs.FileSystem.Obstacle
import OberonImports.Proofs.FileSystem.Parent
import OberonImports.Proofs.FileSystem.Reach
import OberonImports.Proofs.FileSystem.Removal
import OberonImports.Proofs.FileSystem.Tree
import OberonImports.Proofs.FileSystem.Write
import OberonImports.Proofs.Graph.BrokenEdges
import OberonImports.Proofs.Graph.ConsistentTables
import OberonImports.Proofs.Graph.Cycles
import OberonImports.Proofs.Graph.Descent
import OberonImports.Proofs.Graph.DotGroups
import OberonImports.Proofs.Graph.DotHeader
import OberonImports.Proofs.Graph.DotReading
import OberonImports.Proofs.Graph.Drain
import OberonImports.Proofs.Graph.Leaves
import OberonImports.Proofs.Graph.LongestWalk
import OberonImports.Proofs.Graph.OfRegistry
import OberonImports.Proofs.Graph.RankDocument
import OberonImports.Proofs.Graph.RankTable
import OberonImports.Proofs.Graph.RankWalk
import OberonImports.Proofs.Graph.Reachability
import OberonImports.Proofs.Graph.SameEdges
import OberonImports.Proofs.Graph.SameSuccessors
import OberonImports.Proofs.Graph.Search
import OberonImports.Proofs.Graph.Settled
import OberonImports.Proofs.Graph.Statement
import OberonImports.Proofs.Graph.UnresolvedPolicy
import OberonImports.Proofs.Graph.WalkSteps
import OberonImports.Proofs.Json.Leaf
import OberonImports.Proofs.Json.Value
import OberonImports.Proofs.Lookup
import OberonImports.Proofs.Path
import OberonImports.Proofs.Registry.Arrival
import OberonImports.Proofs.Registry.Imports
import OberonImports.Proofs.Registry.Insertion
import OberonImports.Proofs.Registry.Policies
import OberonImports.Proofs.Registry.ReportReading
import OberonImports.Proofs.Scan.BadFiles
import OberonImports.Proofs.Scan.Candidates
import OberonImports.Proofs.Scan.CommentBytes
import OberonImports.Proofs.Scan.ErrorPolicy
import OberonImports.Proofs.Scan.Loop
import OberonImports.Proofs.Scan.Termination
import OberonImports.Proofs.Source.Clause
import OberonImports.Proofs.Source.Comment
import OberonImports.Proofs.Source.Declaration
import OberonImports.Proofs.Source.Dissection
import OberonImports.Proofs.Source.Header
import OberonImports.Proofs.Source.ImportList
import OberonImports.Proofs.Source.ImportedNames
import OberonImports.Proofs.Source.LeftmostClause
import OberonImports.Proofs.Source.Name
import OberonImports.Proofs.Source.Rejoined
import OberonImports.Proofs.Source.WrittenList
import OberonImports.Proofs.Terminal.Findings
import OberonImports.Proofs.Text.Blank
import OberonImports.Proofs.Text.ClosingQuote
import OberonImports.Proofs.Text.Cut
import OberonImports.Proofs.Text.DotId
import OberonImports.Proofs.Text.Encoding
import OberonImports.Proofs.Text.LossyUtf8
import OberonImports.Proofs.Text.Pattern
import OberonImports.Proofs.Text.Pieces
import OberonImports.Proofs.Text.QuotedLine
import OberonImports.Proofs.Text.Removal
import OberonImports.Proofs.TidyNames
import OberonImports.Proofs.Yaml.BlockMapping
import OberonImports.Proofs.Yaml.Fetch
import OberonImports.Proofs.Yaml.NestedMapping
import OberonImports.Proofs.Yaml.Scalar
import OberonImports.Registry.Basic
import OberonImports.Report
import OberonImports.Scan.Extract
import OberonImports.Scan.Summary
import OberonImports.Source.Clause
import OberonImports.Source.Comment
import OberonImports.Source.ImportList
import OberonImports.Terminal.Message
import OberonImports.Terminal.Style
import OberonImports.Text.Blank
import OberonImports.Text.CodeRange
import OberonImports.Text.DotId
import OberonImports.Text.Lines
import OberonImports.Text.Literal
import OberonImports.Text.Split
import OberonImports.Text.Utf8
import OberonImports.Text.WordChar
import OberonImports.Yaml.Cursor
import OberonImports.Yaml.Document
import OberonImports.Yaml.Event.Basic
import OberonImports.Yaml.Event.Stream
import OberonImports.Yaml.Meaning
import OberonImports.Yaml.Scalar.Block
import OberonImports.Yaml.Scalar.Folding
import OberonImports.Yaml.Scalar.Plain
import OberonImports.Yaml.Scalar.Quoted
import OberonImports.Yaml.Token.Basic
import OberonImports.Yaml.Token.Property
import OberonImports.Yaml.Token.Stream
