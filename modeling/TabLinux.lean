import TabLinux.UserIsolation
import TabLinux.Confinement
import TabLinux.FsGating
import TabLinux.DecodeCache
import TabLinux.BlockLookup
import TabLinux.Interrupts
import TabLinux.FpStatus
import TabLinux.PageCrossing
import TabLinux.WalkExact
import TabLinux.CompletionRuns
import TabLinux.LazyFile
import TabLinux.TlbPermissions
import TabLinux.CodeFreshness
import TabLinux.CompiledServices
import TabLinux.Library.Directories
import TabLinux.Library.Paths
import TabLinux.P9Edits
import TabLinux.P9Tree
import TabLinux.P9Calls
import TabLinux.P9Share
import TabLinux.Library.SortedAssoc
import TabLinux.P9Paths
import TabLinux.P9Deletes
import TabLinux.P9Flush
import TabLinux.HostTree
import TabLinux.P9Rmdir
import TabLinux.HostReplay
import TabLinux.P9Replay
import TabLinux.BusMap
import TabLinux.DeviceBus
import TabLinux.DeviceLines
import TabLinux.PendingBits
import TabLinux.StaleInterrupts
import TabLinux.BusTotality
import TabLinux.Library.Cells
import TabLinux.ScatterLists
import TabLinux.VirtioBlk
import TabLinux.BlkSectors
import TabLinux.GenerationRuns
import TabLinux.InstretCount
import TabLinux.RunAccounting
import TabLinux.Library.Readers
import TabLinux.Peripherals
import TabLinux.Snapshot
import TabLinux.SnapshotRoundTrip
import TabLinux.SnapshotSafety
import TabLinux.SnapshotContinuation
import TabLinux.CompiledMultiply
import TabLinux.StatusView
import TabLinux.WarlFields
import TabLinux.Encodings
import TabLinux.Encode
import TabLinux.DecodeExact
import TabLinux.Library.Checked
import TabLinux.PanicFree
import TabLinux.CompressedTable
import TabLinux.CompressedExact
import TabLinux.LookupKeys
import TabLinux.TrapReturn
import TabLinux.CompletionOrder
import TabLinux.KeyPages
import TabLinux.TickBatches
import TabLinux.P9Replies
import TabLinux.LoadImmediate
import TabLinux.WispEgress
import TabLinux.ChainGrammar
import TabLinux.FpFields
