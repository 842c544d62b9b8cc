import Nomalloc.Utils.Bitmap
import Nomalloc.Utils.HashTable
import Nomalloc.Core.SizeClass
import Nomalloc.Memory.ChunkShelves
import Nomalloc.Memory.ChunkFrees
import Nomalloc.Cache.LirsInvariant
import Nomalloc.Cache.LirsCapacity
import Nomalloc.Cache.LirsContents
import Nomalloc.Cache.LirsBudget
import Nomalloc.Cache.LirsCustody
import Nomalloc.Cache.LirsBottom
import Nomalloc.Cache.LirsResize
import Nomalloc.Cache.LirsClear
import Nomalloc.Gc.RegionLists
import Nomalloc.Gc.CollectLoops
import Nomalloc.Gc.Reclaim
import Nomalloc.Gc.Objects
import Nomalloc.Gc.Barrier
import Nomalloc.Gc.Generations
import Nomalloc.Gc.RegionBits
import Nomalloc.Gc.ReclaimLoop
import Nomalloc.Memory.ArenaLists
import Nomalloc.Memory.ArenaManager
import Nomalloc.Memory.ArenaBytes
import Nomalloc.Memory.ArenaCycles
import Nomalloc.Memory.ArenaRealloc
import Nomalloc.Utils.TicketLock
import Nomalloc.Utils.McsLock
import Nomalloc.Cache.TcacheCustody
import Nomalloc.Lib.Bins
import Nomalloc.Debug.LeakHistory
import Nomalloc.Core.AlignedAlloc
import Nomalloc.Core.ReallocChain
import Nomalloc.Core.AllocatorCustody
import Nomalloc.Api.PosixApi
import Nomalloc.Api.PosixHeap
import Nomalloc.Core.Lifecycle
import Nomalloc.Core.TcacheRegistry
import Nomalloc.Cache.LirsGhosts
import Nomalloc.Cache.LirsQueue
import Nomalloc.Cache.LirsManager
import Nomalloc.Cache.LirsPool
import Nomalloc.Cache.LirsGrowth
import Nomalloc.Utils.Hlist
import Nomalloc.Memory.ChunkMeta
import Nomalloc.Memory.ChunkLarge
import Nomalloc.Cache.TcacheClasses
import Nomalloc.Gc.Promote
import Nomalloc.Gc.Available
import Nomalloc.Lib.Pages
import Nomalloc.Utils.Memory
import Nomalloc.Os.Hugepages
import Nomalloc.Os.HugepageStats
import Nomalloc.Debug.LeakStats
import Nomalloc.Debug.LeakReport
import Nomalloc.Utils.HashLoad
import Nomalloc.Gc.ReclaimBytes
import Nomalloc.Lib.Ranges
import Nomalloc.Gc.Register
import Nomalloc.Lib.Hops
import Nomalloc.Os.Numa
import Nomalloc.Lib.LeastAbove
import Nomalloc.Core.SizeClassMaps
import Nomalloc.Lib.Doubling
import Nomalloc.Utils.NextPower
import Nomalloc.Utils.BitmapSearch
import Nomalloc.Utils.BitmapCounts
import Nomalloc.Lib.Ranks
import Nomalloc.Debug.LatencyHistogram
import Nomalloc.Debug.LatencyPercentiles
import Nomalloc.Lib.Window
import Nomalloc.Debug.StatsCollector
import Nomalloc.Debug.StatsHistory
import Nomalloc.Debug.StatsPeaks
import Nomalloc.Lib.HashChains
import Nomalloc.Utils.HlistOps
import Nomalloc.Lib.Powers
import Nomalloc.Utils.BitScan
import Nomalloc.Lib.ExchangeSort
import Nomalloc.Utils.LatencyStats
import Nomalloc.Gc.Ageing
import Nomalloc.Utils.ListOps
import Nomalloc.Utils.SpinLock
import Nomalloc.Utils.TicketProgress
import Nomalloc.Cache.LirsMachine
import Nomalloc.Core.AllocatorHeap
import Nomalloc.Core.Locks
import Nomalloc.Cache.LirsRecency
import Nomalloc.Lib.Adders
import Nomalloc.Debug.StatsThreads
import Nomalloc.Lib.Mixers
import Nomalloc.Utils.HashMixers
import Nomalloc.Cache.TcacheThreads
import Nomalloc.Gc.Books
import Nomalloc.Gc.RegionMemory
