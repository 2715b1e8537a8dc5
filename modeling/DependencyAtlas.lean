import DependencyAtlas.Analysis.Bridges
import DependencyAtlas.Analysis.Cycle
import DependencyAtlas.Analysis.Cycles
import DependencyAtlas.Analysis.Diagnostics
import DependencyAtlas.Analysis.PageRank
import DependencyAtlas.Analysis.Ranking
import DependencyAtlas.Analysis.Report
import DependencyAtlas.Analysis.Topology
import DependencyAtlas.CommandLine.Invocation
import DependencyAtlas.CommandLine.Options
import DependencyAtlas.CommandLine.Run
import DependencyAtlas.Config
import DependencyAtlas.Config.Resolve
import DependencyAtlas.Decimal.Binary
import DependencyAtlas.Decimal.Shortest
import DependencyAtlas.Decimal.Style
import DependencyAtlas.Decoding.Json
import DependencyAtlas.Decoding.Mismatch
import DependencyAtlas.Digest.Blake3
import DependencyAtlas.Digest.Words
import DependencyAtlas.Error
import DependencyAtlas.Files
import DependencyAtlas.Graph.Building
import DependencyAtlas.Graph.Edge
import DependencyAtlas.Graph.Impact
import DependencyAtlas.Graph.Query
import DependencyAtlas.Graph.Snapshot
import DependencyAtlas.Graph.SnapshotJson
import DependencyAtlas.Graph.Store
import DependencyAtlas.Json.Printer
import DependencyAtlas.Json.Reader
import DependencyAtlas.Json.Value
import DependencyAtlas.Loading
import DependencyAtlas.Loading.Workers
import DependencyAtlas.Main
import DependencyAtlas.Output.Analysis
import DependencyAtlas.Output.Export
import DependencyAtlas.Output.Impact
import DependencyAtlas.Output.Page
import DependencyAtlas.Output.Problem
import DependencyAtlas.Proofs.Analysis.Betweenness
import DependencyAtlas.Proofs.Analysis.CanonicalCycle
import DependencyAtlas.Proofs.Analysis.CompleteRanking
import DependencyAtlas.Proofs.Analysis.CycleCap
import DependencyAtlas.Proofs.Analysis.Cycles
import DependencyAtlas.Proofs.Analysis.Dangling
import DependencyAtlas.Proofs.Analysis.Degrees
import DependencyAtlas.Proofs.Analysis.DepthFirst
import DependencyAtlas.Proofs.Analysis.EdgeCounts
import DependencyAtlas.Proofs.Analysis.ExactRanks
import DependencyAtlas.Proofs.Analysis.Histories
import DependencyAtlas.Proofs.Analysis.PowerIteration
import DependencyAtlas.Proofs.Analysis.Ranking
import DependencyAtlas.Proofs.Analysis.Routes
import DependencyAtlas.Proofs.Analysis.SearchStates
import DependencyAtlas.Proofs.Analysis.Sections
import DependencyAtlas.Proofs.Analysis.Tally
import DependencyAtlas.Proofs.Analysis.TopRanked
import DependencyAtlas.Proofs.Analysis.Topology
import DependencyAtlas.Proofs.Decimal.TotalOrder
import DependencyAtlas.Proofs.Graph.Agreement
import DependencyAtlas.Proofs.Graph.Arena
import DependencyAtlas.Proofs.Graph.ChainOrder
import DependencyAtlas.Proofs.Graph.ContentHash
import DependencyAtlas.Proofs.Graph.Contents
import DependencyAtlas.Proofs.Graph.DeclarationOrder
import DependencyAtlas.Proofs.Graph.Dependents
import DependencyAtlas.Proofs.Graph.Distances
import DependencyAtlas.Proofs.Graph.EdgeOrder
import DependencyAtlas.Proofs.Graph.History
import DependencyAtlas.Proofs.Graph.ImpactClosure
import DependencyAtlas.Proofs.Graph.Import
import DependencyAtlas.Proofs.Graph.LastUnits
import DependencyAtlas.Proofs.Graph.ParallelEdges
import DependencyAtlas.Proofs.Graph.Pruning
import DependencyAtlas.Proofs.Graph.Registration
import DependencyAtlas.Proofs.Graph.Relocation
import DependencyAtlas.Proofs.Graph.RoundTrip
import DependencyAtlas.Proofs.Graph.Shape
import DependencyAtlas.Proofs.Graph.SnapshotJson
import DependencyAtlas.Proofs.Graph.SwapRemoval
import DependencyAtlas.Proofs.Json.Records
import DependencyAtlas.Proofs.Json.RoundTrip
import DependencyAtlas.Proofs.Json.Texts
import DependencyAtlas.Proofs.Loading.Inputs
import DependencyAtlas.Proofs.Loading.Interleaving
import DependencyAtlas.Proofs.Loading.Rejection
import DependencyAtlas.Proofs.Loading.Reload
import DependencyAtlas.Proofs.Loading.Workers
import DependencyAtlas.Proofs.Output.Lines
import DependencyAtlas.Proofs.Output.TextRows
import DependencyAtlas.Proofs.Search.BreadthFirst
import DependencyAtlas.Proofs.Search.ClosedWalk
import DependencyAtlas.Proofs.Search.Levels
import DependencyAtlas.Proofs.Search.Paths
import DependencyAtlas.Proofs.Sorting
import DependencyAtlas.Proofs.Text.Ascending
import DependencyAtlas.Proofs.Text.Bytes
import DependencyAtlas.Proofs.Unit.RoundTrip
import DependencyAtlas.Proofs.Unit.Spelling
import DependencyAtlas.Random.ChaCha
import DependencyAtlas.Random.Generator
import DependencyAtlas.Search.BreadthFirst
import DependencyAtlas.Text.Ascending
import DependencyAtlas.Text.Blank
import DependencyAtlas.Text.Keyed
import DependencyAtlas.Text.Quoted
import DependencyAtlas.Text.Unprintable
import DependencyAtlas.Text.Unsigned
import DependencyAtlas.Toml.Digits
import DependencyAtlas.Toml.Document
import DependencyAtlas.Toml.Error
import DependencyAtlas.Toml.Fault
import DependencyAtlas.Toml.Key
import DependencyAtlas.Toml.Literal
import DependencyAtlas.Toml.Moment
import DependencyAtlas.Toml.Number
import DependencyAtlas.Toml.Reader
import DependencyAtlas.Toml.Table
import DependencyAtlas.Toml.Text
import DependencyAtlas.Unit.Kind
import DependencyAtlas.Unit.Record
