import PagedHeap.Config.Json
import PagedHeap.Workspace
import PagedHeap.FileTree
import PagedHeap.Proofs.Accounts
import PagedHeap.Proofs.ChainIntegrity
import PagedHeap.Proofs.PinBalance
import PagedHeap.Proofs.RecordMap
import PagedHeap.Proofs.ScanProgress
import PagedHeap.Proofs.ScanRuns
import PagedHeap.Proofs.InsertionOrder
import PagedHeap.Proofs.FileGrowth
import PagedHeap.Proofs.ClockSweeps
import PagedHeap.Proofs.PoolRuns
import PagedHeap.Proofs.OpenPages
import PagedHeap.Proofs.PoolRoom
import PagedHeap.Proofs.SlotTable
import PagedHeap.Proofs.PageSafety
import PagedHeap.Proofs.SpaceAccounting
import PagedHeap.Proofs.CacheMirror
import PagedHeap.Proofs.CacheTransparency
import PagedHeap.Proofs.DirtyMarks
import PagedHeap.Proofs.Granted
import PagedHeap.Proofs.Durability
import PagedHeap.Proofs.PoolWrites
import PagedHeap.Proofs.FrameClaims
import PagedHeap.Proofs.SortedFlushes
import PagedHeap.Proofs.WriteBacks
import PagedHeap.Proofs.PinnedPages
import PagedHeap.Proofs.DiskRuns
import PagedHeap.Proofs.FileIds
import PagedHeap.Proofs.ForgottenIds
import PagedHeap.Proofs.Provenance
import PagedHeap.Proofs.Recreation
import PagedHeap.Proofs.FieldComparisons
import PagedHeap.Proofs.ScanCursors
import PagedHeap.Proofs.ScanMarks
import PagedHeap.Proofs.RandomAccess
import PagedHeap.Proofs.HeaderRoundTrip
import PagedHeap.Proofs.ScanTermination
import PagedHeap.Proofs.ArrayRuns
