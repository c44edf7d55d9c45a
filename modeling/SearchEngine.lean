import SearchEngine.Archive.ArgumentQuoting
import SearchEngine.Archive.CleanupCondition
import SearchEngine.Archive.DirectToRewrite
import SearchEngine.Archive.ImagePathTokens
import SearchEngine.Archive.MergeProgress
import SearchEngine.Archive.PathRebase
import SearchEngine.Archive.RepeatedMerge
import SearchEngine.Archive.RestoreMerge
import SearchEngine.Archive.ServiceCommandLine
import SearchEngine.Archive.ServiceRoundTrip
import SearchEngine.Archive.YearCleanup
import SearchEngine.Archive.YearMove
import SearchEngine.Archive.YearMoveCopies
import SearchEngine.Archive.YearPublication
import SearchEngine.Archive.YearSafety
import SearchEngine.Auth.Authenticate
import SearchEngine.Auth.AuthorityRecovery
import SearchEngine.Auth.AuthorityState
import SearchEngine.Auth.Base64
import SearchEngine.Auth.Base64Decoders
import SearchEngine.Auth.ClientStore
import SearchEngine.Auth.CrashSafety
import SearchEngine.Auth.DeviceIdentity
import SearchEngine.Auth.InstallTrust
import SearchEngine.Auth.RecoveryPhases
import SearchEngine.Auth.RecoveryRuns
import SearchEngine.Auth.TokenDocument
import SearchEngine.Backup.FileHash
import SearchEngine.Backup.MirrorExact
import SearchEngine.Backup.MirrorFilesystem
import SearchEngine.Backup.MirrorRestorable
import SearchEngine.Backup.MirrorRestore
import SearchEngine.Backup.MirrorStore
import SearchEngine.Backup.MirrorUpdate
import SearchEngine.Backup.PathFilter
import SearchEngine.Backup.PathFilterMeaning
import SearchEngine.Backup.PointRetention
import SearchEngine.Backup.RestorePoints
import SearchEngine.Backup.SecureHash
import SearchEngine.Backup.Sha256Exact
import SearchEngine.Backup.SnapshotNames
import SearchEngine.Backup.SnapshotRetention
import SearchEngine.Backup.Snapshots
import SearchEngine.Batch.BoundedByteQueue
import SearchEngine.Batch.BuildAgreement
import SearchEngine.Batch.ByteChannel
import SearchEngine.Batch.Document
import SearchEngine.Batch.Merge
import SearchEngine.Batch.Pipeline
import SearchEngine.Batch.PipelineInvariant
import SearchEngine.Batch.PipelineMoves
import SearchEngine.Batch.PipelineProgress
import SearchEngine.Batch.PipelineResult
import SearchEngine.Batch.PipelineRuns
import SearchEngine.Batch.ReferenceFrequencies
import SearchEngine.Batch.ScheduleIndependence
import SearchEngine.Commands.AttachmentDelivery
import SearchEngine.Commands.GetAttachments
import SearchEngine.Commands.PathParts
import SearchEngine.Commands.TelegramContainment
import SearchEngine.Commands.TelegramDownloads
import SearchEngine.Commands.TelegramFiles
import SearchEngine.Files.FileScanner
import SearchEngine.Files.IndexedTree
import SearchEngine.Files.LexicalPath
import SearchEngine.Files.PathText
import SearchEngine.Files.WindowsPath
import SearchEngine.Index.BatchInstall
import SearchEngine.Index.CatalogNumbers
import SearchEngine.Index.CatalogPaths
import SearchEngine.Index.CatalogScan
import SearchEngine.Index.Compact
import SearchEngine.Index.CompactionRace
import SearchEngine.Index.DeferredReplay
import SearchEngine.Index.DictionaryChunks
import SearchEngine.Index.DocPathsHistory
import SearchEngine.Index.DocPathsRows
import SearchEngine.Index.DocumentCatalog
import SearchEngine.Index.DurabilityBarrier
import SearchEngine.Index.Engine
import SearchEngine.Index.FirstUpdate
import SearchEngine.Index.InvertedIndex
import SearchEngine.Index.KeptNumbers
import SearchEngine.Index.LiveCatalog
import SearchEngine.Index.LiveScanAgreement
import SearchEngine.Index.LiveWriter
import SearchEngine.Index.MirrorConsistency
import SearchEngine.Index.MirrorDatabase
import SearchEngine.Index.MirrorInvariant
import SearchEngine.Index.MirrorLoad
import SearchEngine.Index.MirrorRuns
import SearchEngine.Index.MirrorSave
import SearchEngine.Index.NumberedSystem
import SearchEngine.Index.OverlappingRoots
import SearchEngine.Index.PartialScan
import SearchEngine.Index.PointConvergence
import SearchEngine.Index.PointDeferral
import SearchEngine.Index.PointUpdates
import SearchEngine.Index.PostingInvariant
import SearchEngine.Index.PostingList
import SearchEngine.Index.ReferenceTokens
import SearchEngine.Index.SimdTokenizer
import SearchEngine.Index.SystemInvariant
import SearchEngine.Index.Tokenizer
import SearchEngine.Index.UpdateRescan
import SearchEngine.Index.UpdateRuns
import SearchEngine.Index.WordId
import SearchEngine.Index.WriteBatch
import SearchEngine.Lib.BlockFold
import SearchEngine.Lib.CallTrace
import SearchEngine.Lib.Coalescing
import SearchEngine.Lib.ConditionVariable
import SearchEngine.Lib.Coroutine
import SearchEngine.Lib.DoubleRounding
import SearchEngine.Lib.FileTree
import SearchEngine.Lib.Glob
import SearchEngine.Lib.Invocations
import SearchEngine.Lib.Lines
import SearchEngine.Lib.Machine
import SearchEngine.Lib.Ownership
import SearchEngine.Lib.QuotedText
import SearchEngine.Lib.Separated
import SearchEngine.Lib.Sharing
import SearchEngine.Lib.SlotTable
import SearchEngine.Lib.SortedMap
import SearchEngine.Lib.Statements
import SearchEngine.Lib.Words
import SearchEngine.Runtime.Disk
import SearchEngine.Runtime.DiskRules
import SearchEngine.Runtime.Files
import SearchEngine.Runtime.QuietCalls
import SearchEngine.Runtime.SettingsRecovery
import SearchEngine.Runtime.SettingsTransaction
import SearchEngine.Runtime.SmoothRuns
import SearchEngine.Runtime.UpdateCompletion
import SearchEngine.Runtime.UpdateInvariant
import SearchEngine.Runtime.UpdateRecovery
import SearchEngine.Runtime.UpdateTransaction
import SearchEngine.Scheduler.DelayedEvents
import SearchEngine.Scheduler.TickRuns
import SearchEngine.Search.AnswerContents
import SearchEngine.Search.ConcurrentSearch
import SearchEngine.Search.Query
import SearchEngine.Search.UpdateStep
import SearchEngine.Server.AuthenticationGate
import SearchEngine.Server.Framing
import SearchEngine.Server.Protocol
import SearchEngine.Server.Session
import SearchEngine.Server.SessionGate
import SearchEngine.Server.SessionSystem
import SearchEngine.Server.TerminalError
import SearchEngine.Sqlite.DatabaseCommands
import SearchEngine.Sqlite.OpisUpsert
import SearchEngine.Sqlite.RowIsolation
import SearchEngine.Sqlite.SharedConnection
import SearchEngine.Upload.FileNames
import SearchEngine.Upload.SafeNames
import SearchEngine.Upload.SinkPrograms
import SearchEngine.Upload.SinkPublication
import SearchEngine.Upload.UploadContainment
import SearchEngine.Upload.UploadPlaces
import SearchEngine.Upload.UploadTarget
import SearchEngine.Watcher.FileEventDispatcher
import SearchEngine.Watcher.LastEvent
import SearchEngine.Watcher.MultiDirWatcher
import SearchEngine.Watcher.NeverDeaf
import SearchEngine.Watcher.StrandedEvents
import SearchEngine.Zag.HeaderRewrite
import SearchEngine.Zag.KpodiChanger
