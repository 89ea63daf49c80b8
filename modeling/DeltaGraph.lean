import DeltaGraph.Binary64
import DeltaGraph.Binary64.Layout
import DeltaGraph.Binary64.Shortest
import DeltaGraph.Catalog
import DeltaGraph.Catalog.Call
import DeltaGraph.Catalog.Indexed
import DeltaGraph.Config
import DeltaGraph.Config.Document
import DeltaGraph.Engine
import DeltaGraph.Engine.Change
import DeltaGraph.Error
import DeltaGraph.Execution
import DeltaGraph.Execution.Pipeline
import DeltaGraph.FileLocation
import DeltaGraph.Graph
import DeltaGraph.Graph.Batch
import DeltaGraph.Graph.Incident
import DeltaGraph.Graph.Reads
import DeltaGraph.Graph.Version
import DeltaGraph.Hash.Xxh64
import DeltaGraph.Id
import DeltaGraph.Pattern
import DeltaGraph.Pattern.Declaration
import DeltaGraph.Pattern.Draft
import DeltaGraph.Pattern.Incidence
import DeltaGraph.Pattern.Order
import DeltaGraph.Plan
import DeltaGraph.Plan.Explain
import DeltaGraph.Plan.Fingerprint
import DeltaGraph.Plan.OfPattern
import DeltaGraph.Plan.Standing
import DeltaGraph.Proofs.Binary64.Integers
import DeltaGraph.Proofs.Catalog
import DeltaGraph.Proofs.Catalog.Calls
import DeltaGraph.Proofs.Catalog.Indexed
import DeltaGraph.Proofs.Comparison
import DeltaGraph.Proofs.Config
import DeltaGraph.Proofs.DeclaredTypes
import DeltaGraph.Proofs.Effects
import DeltaGraph.Proofs.Engine.Acceptance
import DeltaGraph.Proofs.Engine.Atomicity
import DeltaGraph.Proofs.Engine.Batch
import DeltaGraph.Proofs.Engine.Naming
import DeltaGraph.Proofs.Engine.Resolving
import DeltaGraph.Proofs.Engine.Sending
import DeltaGraph.Proofs.Engine.Session
import DeltaGraph.Proofs.Engine.Spelling
import DeltaGraph.Proofs.Engine.Splitting
import DeltaGraph.Proofs.Engine.Steps
import DeltaGraph.Proofs.Engine.Subscription
import DeltaGraph.Proofs.Execution.Ascending
import DeltaGraph.Proofs.Execution.Bindings
import DeltaGraph.Proofs.Execution.Choices
import DeltaGraph.Proofs.Execution.Counting
import DeltaGraph.Proofs.Execution.Delivery
import DeltaGraph.Proofs.Execution.Enumeration
import DeltaGraph.Proofs.Execution.Intersection
import DeltaGraph.Proofs.Execution.NestedLoops
import DeltaGraph.Proofs.Execution.PartialTuples
import DeltaGraph.Proofs.Execution.Pulling
import DeltaGraph.Proofs.Execution.Rejection
import DeltaGraph.Proofs.Execution.Safety
import DeltaGraph.Proofs.Execution.Streams
import DeltaGraph.Proofs.Execution.Supply
import DeltaGraph.Proofs.Execution.WellFormed
import DeltaGraph.Proofs.Graph.Acceptance
import DeltaGraph.Proofs.Graph.Answers
import DeltaGraph.Proofs.Graph.Attempt
import DeltaGraph.Proofs.Graph.Commit
import DeltaGraph.Proofs.Graph.Continuation
import DeltaGraph.Proofs.Graph.Frozen
import DeltaGraph.Proofs.Graph.Links
import DeltaGraph.Proofs.Graph.Naming
import DeltaGraph.Proofs.Graph.Numbering
import DeltaGraph.Proofs.Graph.Quiet
import DeltaGraph.Proofs.Graph.Renaming
import DeltaGraph.Proofs.Graph.Rollback
import DeltaGraph.Proofs.Graph.Run
import DeltaGraph.Proofs.Graph.Sound
import DeltaGraph.Proofs.Graph.Spelling
import DeltaGraph.Proofs.Graph.Table
import DeltaGraph.Proofs.Graph.Walk
import DeltaGraph.Proofs.Graph.Written
import DeltaGraph.Proofs.Homomorphism
import DeltaGraph.Proofs.Isolation
import DeltaGraph.Proofs.Lists
import DeltaGraph.Proofs.Maintenance.Exact
import DeltaGraph.Proofs.Maintenance.Independence
import DeltaGraph.Proofs.Maintenance.Mixture
import DeltaGraph.Proofs.Maintenance.Replay
import DeltaGraph.Proofs.Maintenance.Safe
import DeltaGraph.Proofs.Maintenance.Sent
import DeltaGraph.Proofs.Maintenance.Stream
import DeltaGraph.Proofs.Maintenance.View
import DeltaGraph.Proofs.Match
import DeltaGraph.Proofs.Pattern.Components
import DeltaGraph.Proofs.Pattern.Drafting
import DeltaGraph.Proofs.Pattern.Greedy
import DeltaGraph.Proofs.Pattern.Incidence
import DeltaGraph.Proofs.Pattern.Multigraph
import DeltaGraph.Proofs.Pattern.Names
import DeltaGraph.Proofs.Pattern.Order
import DeltaGraph.Proofs.Pattern.Valid
import DeltaGraph.Proofs.Plan.Accepted
import DeltaGraph.Proofs.Plan.CrossProducts
import DeltaGraph.Proofs.Plan.Encoding
import DeltaGraph.Proofs.Plan.Fingerprint
import DeltaGraph.Proofs.Plan.Implements
import DeltaGraph.Proofs.Plan.Masking
import DeltaGraph.Proofs.Plan.OfPattern
import DeltaGraph.Proofs.Plan.Placement
import DeltaGraph.Proofs.Plan.Planning
import DeltaGraph.Proofs.Plan.References
import DeltaGraph.Proofs.Plan.Replanning
import DeltaGraph.Proofs.Plan.RowOrder
import DeltaGraph.Proofs.Plan.Stages
import DeltaGraph.Proofs.Sink
import DeltaGraph.Proofs.Sink.Files
import DeltaGraph.Proofs.Store.Adjacency
import DeltaGraph.Proofs.Store.Commit
import DeltaGraph.Proofs.Store.Endings
import DeltaGraph.Proofs.Store.Reads
import DeltaGraph.Proofs.Store.Represents
import DeltaGraph.Proofs.Store.Run
import DeltaGraph.Proofs.Store.Tables
import DeltaGraph.Proofs.Store.Views
import DeltaGraph.Proofs.Text.ByteOrder
import DeltaGraph.Proofs.Toml.Decimal
import DeltaGraph.Proofs.Toml.Lines
import DeltaGraph.Proofs.Toml.Tables
import DeltaGraph.Proofs.Value
import DeltaGraph.Query
import DeltaGraph.Row
import DeltaGraph.Services
import DeltaGraph.Sink
import DeltaGraph.Sink.Lines
import DeltaGraph.Store
import DeltaGraph.Store.Adjacency
import DeltaGraph.Store.Batch
import DeltaGraph.Text.Quoted
import DeltaGraph.Text.Shapeless
import DeltaGraph.Toml.Document
import DeltaGraph.Toml.Moment
import DeltaGraph.Toml.Number
import DeltaGraph.Toml.Statement
import DeltaGraph.Toml.Text
import DeltaGraph.Toml.Value
import DeltaGraph.Value
