import DataForge.ReadCommitted.Table
import DataForge.ReadCommitted.System
import DataForge.ReadCommitted.Logic
import DataForge.Runtime.Work
import DataForge.Runtime.Coverage
import DataForge.Compute.Model
import DataForge.Compute.Service
import DataForge.Compute.Protocol
import DataForge.Compute.Settle
import DataForge.Compute.Claim
import DataForge.Compute.Stage
import DataForge.Compute.Safety
import DataForge.Compute.SingleFlight
import DataForge.Compute.Progress
import DataForge.Compute.Retry
import DataForge.Builds.Model
import DataForge.Builds.Service
import DataForge.Builds.Rows
import DataForge.Builds.EventLog
import DataForge.Builds.FanOut
import DataForge.Builds.Marking
import DataForge.Builds.Reconcile
import DataForge.Runtime.NoLostWake
import DataForge.Analyses.Cycles
import DataForge.Analyses.Duplicate
import DataForge.Analyses.Import
import DataForge.Analyses.Kept
import DataForge.Analyses.Revised
import DataForge.Compute.Identity
import DataForge.Datasources.CompareAndSet
import DataForge.Dispatch.Attempts
import DataForge.Editor.Answers
import DataForge.Editor.Move
import DataForge.Effects.Related
import DataForge.Engines.Accounts
import DataForge.Engines.Events
import DataForge.Engines.Hosts
import DataForge.Engines.Ownership
import DataForge.Engines.Scheduling
import DataForge.Engines.Warm
import DataForge.Forest.Order
import DataForge.Locks.Safety
import DataForge.Responses.Waiting
import DataForge.Pipeline.Applied
import DataForge.Pipeline.CacheFree
import DataForge.Pipeline.Inlined
import DataForge.Pipeline.InlinedChain
import DataForge.Pipeline.InlinedTab
import DataForge.Pipeline.Preview
import DataForge.Pipeline.Target
import DataForge.Pipeline.Download
import DataForge.Pipeline.SelfReference
import DataForge.Operations.Complement
import DataForge.Exports.ClaimTable
import DataForge.Editor.Removal
import DataForge.Editor.Applied
import DataForge.Editor.Preview
import DataForge.Storage.Catalog
import DataForge.Codec.RoundTrip
import DataForge.Ingest.Drift
import DataForge.Ingest.Selection
import DataForge.Runs.Pages
import DataForge.Runs.Settle
import DataForge.Datasources.Upstream
import DataForge.Builds.Capture
import DataForge.Wakes.Turns
import DataForge.Wakes.NoWakeLost
import DataForge.Status.Stream
import DataForge.Ingest.References
import DataForge.Operations.Integers
import DataForge.Admission.Safety
import DataForge.Outbox.Safety
import DataForge.Coordinator.Safety
import DataForge.CodeExport.Selection
import DataForge.CodeExport.Literals
