import WindowAlign.Main
import WindowAlign.Proofs.Store.Records
import WindowAlign.Proofs.Store.Operations
import WindowAlign.Proofs.Store.Series
import WindowAlign.Proofs.Store.Effects
import WindowAlign.Proofs.Event.Header
import WindowAlign.Proofs.Event.Rows
import WindowAlign.Proofs.Ingest.Pass
import WindowAlign.Proofs.Reader.Cycle
import WindowAlign.Proofs.Reader.History
import WindowAlign.Proofs.Reader.Placement
import WindowAlign.Proofs.Reader.Selection
import WindowAlign.Proofs.Reader.Growth
import WindowAlign.Proofs.Reader.InFlight
import WindowAlign.Proofs.Reader.Handover
import WindowAlign.Proofs.Reader.Accounting
import WindowAlign.Proofs.Store.Sums
import WindowAlign.Proofs.Reader.Emission
import WindowAlign.Proofs.Reader.Retry
import WindowAlign.Proofs.Reader.Depth
import WindowAlign.Proofs.Reader.Offers
import WindowAlign.Proofs.Reader.Lifetime
import WindowAlign.Proofs.Cell.Order
import WindowAlign.Proofs.Store.Calls
import WindowAlign.Proofs.Ingest.Tally
import WindowAlign.Proofs.Ingest.Replay
import WindowAlign.Proofs.Ingest.Batches
import WindowAlign.Proofs.Store.Regrouping
import WindowAlign.Proofs.Ingest.Fates
import WindowAlign.Proofs.Ingest.Listing
import WindowAlign.Proofs.Ingest.Grid
import WindowAlign.Proofs.Reader.Reports
import WindowAlign.Proofs.Reader.Advance
import WindowAlign.Proofs.Reader.Lockstep
import WindowAlign.Proofs.Reader.Weights
import WindowAlign.Proofs.Sink.Groups
import WindowAlign.Proofs.Sink.Tables
import WindowAlign.Proofs.Sink.Calls
import WindowAlign.Proofs.Sink.Reading
import WindowAlign.Proofs.Sink.Refinement
import WindowAlign.Proofs.Reader.Pace
import WindowAlign.Proofs.Store.Coalescing
import WindowAlign.Proofs.Topology.Views
import WindowAlign.Proofs.Number.Positive
import WindowAlign.Proofs.Number.Quotients
import WindowAlign.Proofs.Store.Blending
import WindowAlign.Proofs.Store.Samples
import WindowAlign.Proofs.Store.Rollovers
import WindowAlign.Proofs.Store.Tabulating
import WindowAlign.Proofs.Reader.Alignment
import WindowAlign.Proofs.Reader.Writes
import WindowAlign.Proofs.Reader.Retention
import WindowAlign.Proofs.Store.Refusals
import WindowAlign.Proofs.Store.Trimming
import WindowAlign.Proofs.Number.Order
import WindowAlign.Proofs.Sink.Statistics
import WindowAlign.Proofs.Sink.Partition
import WindowAlign.Proofs.Ingest.Stages
import WindowAlign.Proofs.Ingest.Routing
import WindowAlign.Proofs.Ingest.Contents
import WindowAlign.Proofs.Ingest.Layout
import WindowAlign.Proofs.Reader.Limit
import WindowAlign.Proofs.Reader.Trace
import WindowAlign.Proofs.Reader.Pauses
import WindowAlign.Proofs.Reader.Shutdown
import WindowAlign.Proofs.Reader.Picking
import WindowAlign.Proofs.FileTree.Leaves
import WindowAlign.Proofs.FileTree.Listing
