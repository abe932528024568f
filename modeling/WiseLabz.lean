import WiseLabz.Lib.Machine
import WiseLabz.Lib.Bytes
import WiseLabz.Lib.Fallible
import WiseLabz.Lib.InOrder
import WiseLabz.Lib.Sorting
import WiseLabz.Lib.Closure
import WiseLabz.Lib.Cursor
import WiseLabz.Lib.History
import WiseLabz.Lib.Table
import WiseLabz.Lib.Joined
import WiseLabz.Lib.Split
import WiseLabz.Lib.FixedWidth
import WiseLabz.Lib.Calendar
import WiseLabz.Lib.Forest
import WiseLabz.Lib.Rebuild
import WiseLabz.Lib.JsonText
import WiseLabz.Lib.Json
import WiseLabz.Lib.Sha1
import WiseLabz.Lib.BreadthFirst
import WiseLabz.Lib.Batches
import WiseLabz.Lib.Keyset
import WiseLabz.Doc.Blocks
import WiseLabz.Doc.Lines
import WiseLabz.Doc.Layout
import WiseLabz.Doc.RoundTrip
import WiseLabz.Doc.Merge
import WiseLabz.Doc.Markers
import WiseLabz.Doc.MergeLayout
import WiseLabz.Doc.GenMarkers
import WiseLabz.Doc.Placement
import WiseLabz.Doc.SyncRuns
import WiseLabz.Store.Docs
import WiseLabz.Store.Hierarchy
import WiseLabz.Store.DocTree
import WiseLabz.Store.Visibility
import WiseLabz.Store.Trash
import WiseLabz.Store.ConnectorAccess
import WiseLabz.Store.UserStatus
import WiseLabz.Store.Uptime
import WiseLabz.Store.UptimeExact
import WiseLabz.Store.UptimeReads
import WiseLabz.Store.Blobs
import WiseLabz.Store.Timeline
import WiseLabz.Store.Retention
import WiseLabz.Doc.ImportStage
import WiseLabz.Doc.Ownership
import WiseLabz.Doc.Locks
import WiseLabz.Doc.Engine
import WiseLabz.Doc.DeletedSections
import WiseLabz.Doc.Changes
import WiseLabz.Doc.LabTopology
import WiseLabz.Doc.Versions
import WiseLabz.Doc.SavesKept
import WiseLabz.Doc.Resolutions
import WiseLabz.Doc.SlugKeys
import WiseLabz.Doc.LineDiff
import WiseLabz.Identity.Store
import WiseLabz.Identity.Choice
import WiseLabz.Identity.Reconcile
import WiseLabz.Identity.Lifecycle
import WiseLabz.Identity.SeenTimes
import WiseLabz.Identity.Stable
import WiseLabz.Identity.Clusters
import WiseLabz.Topology.Edges
import WiseLabz.Topology.Store
import WiseLabz.Topology.Links
import WiseLabz.Topology.Derived
import WiseLabz.Topology.Converge
import WiseLabz.Topology.Path
import WiseLabz.Backup.Import
import WiseLabz.Backup.Forest
import WiseLabz.Sync.Snapshot
import WiseLabz.Sync.Persist
import WiseLabz.Sync.TransientFailure
import WiseLabz.Sync.EntityDiff
import WiseLabz.Sync.EntityChanges
import WiseLabz.Sync.EntityDiffExact
import WiseLabz.Sync.Hunks
import WiseLabz.Sync.Engine
import WiseLabz.Quality.Compliance
import WiseLabz.Quality.RuleEngine
import WiseLabz.Discovery.Targets
import WiseLabz.Discovery.Manager
import WiseLabz.DocExport.Git
import WiseLabz.DocExport.Revisions
import WiseLabz.DocExport.Mirror
import WiseLabz.Auth.Lockout
import WiseLabz.Auth.Elevation
import WiseLabz.Auth.Enrolment
import WiseLabz.Auth.Sessions
import WiseLabz.Connector.Update
import WiseLabz.Connector.Reconcile
import WiseLabz.Connector.Migration
import WiseLabz.Connector.HostRule
import WiseLabz.Notify.Digest
import WiseLabz.Notify.RetryFile
import WiseLabz.Notify.Unsnooze
import WiseLabz.Recipe.Format
import WiseLabz.Recipe.Actions
import WiseLabz.Recipe.ActionTarget
import WiseLabz.Recipe.ActionDiff
import WiseLabz.Recipe.Attributes
import WiseLabz.Recipe.Fetch
import WiseLabz.Recipe.FetchRuns
import WiseLabz.Recipe.StaticValues
import WiseLabz.Recipe.RedactURLs
import WiseLabz.Runbook.Store
import WiseLabz.Runbook.Moves
import WiseLabz.Runbook.Calls
import WiseLabz.Runbook.Executor
import WiseLabz.Runbook.Sequential
import WiseLabz.Runbook.Histories
import WiseLabz.Runbook.AtMostOnce
import WiseLabz.Runbook.Revisions
import WiseLabz.Runbook.ApprovalBoundary
import WiseLabz.Server.Leader
