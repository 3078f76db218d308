import Byom.Scan.Coverage
import Byom.Scan.Sync
import Byom.Sqlite.ScanSchema
import Byom.Transition.Run
import Byom.Relational.Table
import Byom.Scan.DiscMerging
import Byom.Scan.Sync
import Byom.Scan.EmittedNames
import Byom.Sqlite.DirView
import Byom.Scan.Reconcile
import Byom.Scan.Scanner
import Byom.Scan.Tracking
import Byom.Metadata.Pipeline
import Byom.Metadata.Steps
import Byom.Scan.Convergence
import Byom.Transition.Leases
import Byom.Metadata.Claims
import Byom.Metadata.Freshness
import Byom.Metadata.Wakeup
import Byom.Library.Catalog
import Byom.Relational.Reference
import Byom.Sqlite.Tables
import Byom.Sqlite.LibraryStore
import Byom.Sqlite.CatalogWrites
import Byom.Sqlite.PrimaryVersion
import Byom.Sqlite.History
import Byom.Sqlite.AlbumListing
import Byom.Sqlite.TrackView
import Byom.Sqlite.RowIdentity
import Byom.Metadata.Importer
import Byom.Metadata.Covers
import Byom.Sqlite.Sightings
import Byom.Scan.Generations
import Byom.Scan.Sweeping
import Byom.Scan.CleanSync
import Byom.Scan.Rescan
import Byom.Metadata.Fencing
import Byom.Metadata.Ingest
import Byom.Metadata.Ghosts
import Byom.Paging.Keyset
import Byom.Encoding.Json
import Byom.Library.UUIDText
import Byom.Page.Token
import Byom.Sqlite.Cursors
import Byom.Sqlite.AlbumPages
import Byom.Sqlite.ForeignTokens
import Byom.Concurrency.WorkGroup
import Byom.Scan.SyncGroup
import Byom.Scan.DrainBarrier
import Byom.Scan.Process
import Byom.Scan.Exclusion
import Byom.Scan.Records
import Byom.Scan.Outcomes
import Byom.Metadata.PipelineRun
import Byom.Metadata.RunRecord
import Byom.Sqlite.ScanLifecycle
import Byom.Metadata.ClaimedWork
import Byom.Metadata.Shutdown
import Byom.Metadata.Retries
import Byom.Metadata.BoundedRetries
import Byom.Scan.Roots
import Byom.Metadata.Interning
import Byom.Sqlite.Artists
import Byom.Files.StagedWrite
import Byom.Images.Paths
import Byom.Images.Store
import Byom.Images.Safety
import Byom.Scan.WalkSoundness
import Byom.Relational.Constraint
import Byom.Sqlite.ImportConstraints
import Byom.Metadata.SafeImports
import Byom.Relational.Selection
import Byom.Sqlite.AlbumContents
import Byom.Sqlite.PayloadRows
import Byom.Sqlite.DirReplacement
import Byom.Ui.ScanMonitor
import Byom.Ui.InfiniteList
import Byom.Ui.ListPages
import Byom.Ui.ListSignals
import Byom.Ui.LoadingFlag
import Byom.Metadata.Tags
import Byom.Rpc.Convert
import Byom.Sqlite.AlbumVersions
import Byom.Paging.Newest
import Byom.Scan.Listing
import Byom.Scan.CancellingList
import Byom.Scan.Entries
import Byom.Scan.StartRequests
import Byom.Encoding.Base64
import Byom.Encoding.Utf8
import Byom.Encoding.JsonText
import Byom.Page.TokenText
import Byom.Sqlite.CursorBytes
import Byom.Scan.MissingCounts
import Byom.Rpc.ListTracks
import Byom.Metadata.NormTags
import Byom.Metadata.Credits
import Byom.Metadata.ParsedGroups
import Byom.Library.ArtistNames
import Byom.Library.GroupKeys
import Byom.Scan.ChangeSets
import Byom.Page.PagedQuery
import Byom.Page.TokenString
import Byom.Relational.SortedSet
import Byom.Rpc.Coherence
import Byom.Rpc.SharedTokens
import Byom.Ui.ArtistSections
import Byom.Ui.ListCacheRefinement
import Byom.Images.Handler
import Byom.Metadata.Catalog
import Byom.Relational.Registry
import Byom.Rpc.ManagementServer
import Byom.Scan.LiveFiles
import Byom.Server
import Byom.Scan.Reports
import Byom.Ui.TrackSections
import Byom.Metadata.KeptWork
