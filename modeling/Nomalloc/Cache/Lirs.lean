import Nomalloc.Utils.Hash
import Nomalloc.Utils.Math

/-!
# `cache/lirs/lirs.c`

The LIRS cache.  A block is libc memory named by its address: `block p` is what the block at `p`
holds and `heap` are the blocks that have been allocated and not freed.  The stack S, the queue Q
and the buckets of the hash table are lists of addresses, S from its top, Q from its head, a bucket
from its first node; `list_del` and `hlist_del` take an address off its list.

* `lirsCreate`, `lirsFindBlock`, `lirsInsertHash`, `lirsRemoveHash`
* `lirsPruneSStack`, `lirsEvictHir`, `lirsDemoteLir`, `lirsPromoteHir`
* `lirsGet`, `lirsPut`, `lirsRemove`, `lirsContains`, `lirsSize`

The loops that prune S and evict from Q take a block off their list each time round, and run here
on the length of the list.  Sizes of lists and counts of blocks are natural numbers; `total_size`,
which the source lets wrap, is a 64-bit word.  The spinlock is left out.
-/

namespace Nomalloc

def LIRS_MIN_HIR_BLOCKS : ℕ := 2

/-- `lirs_block_type_t` -/
inductive LirsBlockType where
  | lir
  | hirResident
  | hirNonResident
deriving DecidableEq, Repr

/-- `struct lirs_block`, its list nodes apart. -/
structure LirsBlock where
  key : ℕ
  value : ℕ
  size : ℕ
  type : LirsBlockType
  accessTime : ℕ
  inSStack : Bool
  inQQueue : Bool

/-- `struct lirs_stats` -/
structure LirsStats where
  hits : ℕ
  misses : ℕ
  evictions : ℕ
  promotions : ℕ
  demotions : ℕ
  lirCount : ℕ
  hirResidentCount : ℕ
  hirNonResidentCount : ℕ
  totalSize : ℕ

/-- `struct lirs_cache`, with the memory it points into.  `evictCallback` says whether a callback
is set, and `evicted` lists the calls made to it. -/
structure LirsCache where
  capacity : ℕ
  hirCapacity : ℕ
  maxSize : ℕ
  sStack : List ℕ
  qQueue : List ℕ
  sStackSize : ℕ
  qQueueSize : ℕ
  hashTable : ℕ → List ℕ
  hashTableMask : ℕ
  stats : LirsStats
  currentTime : ℕ
  evictCallback : Bool
  evicted : List (ℕ × ℕ × ℕ)
  block : ℕ → LirsBlock
  heap : List ℕ

/-- `(size_t)(capacity * LIRS_HIR_RATIO)`: the double nearest to 0.01 is
`5764607523034235 / 2^59`. -/
def hirShare (capacity : ℕ) : ℕ := round53 (round53 capacity * 5764607523034235) / 2 ^ 59

/-- The loop of `lirs_create` that doubles `hash_size`; it has reached its end or zero after 64
rounds, and never leaves zero. -/
def hashSizeLoop : ℕ → ℕ → ℕ → Option ℕ
  | 0, _, _ => none
  | n + 1, hashSize, bound =>
    if hashSize < bound then hashSizeLoop n (hashSize * 2 % wordSize) bound else some hashSize

/-- `lirs_create`, with whether its two allocations succeed. -/
def lirsCreate (capacity maxSize : ℕ) (cacheOk tableOk : Bool) : Option LirsCache :=
  if !cacheOk then none
  else
    match hashSizeLoop 65 1 (capacity * 2 % wordSize) with
    | none => none
    | some hashSize =>
      if !tableOk then none
      else some
        { capacity := capacity
          hirCapacity := max (hirShare capacity) LIRS_MIN_HIR_BLOCKS
          maxSize := maxSize
          sStack := []
          qQueue := []
          sStackSize := 0
          qQueueSize := 0
          hashTable := fun _ => []
          hashTableMask := hashSize - 1
          stats := ⟨0, 0, 0, 0, 0, 0, 0, 0, 0⟩
          currentTime := 0
          evictCallback := false
          evicted := []
          block := fun _ => ⟨0, 0, 0, .hirResident, 0, false, false⟩
          heap := [] }

/-- `lirs_set_evict_callback` -/
def lirsSetEvictCallback (cache : LirsCache) (callback : Bool) : LirsCache :=
  { cache with evictCallback := callback }

/-- `lirs_hash_index` -/
def lirsHashIndex (key mask : ℕ) : ℕ := (hash32Ptr key).toNat &&& mask

namespace LirsCache

/-- A store to the block at `p`. -/
def setBlock (cache : LirsCache) (p : ℕ) (b : LirsBlock) : LirsCache :=
  { cache with block := Function.update cache.block p b }

/-- `list_del(&block->s_list); block->in_s_stack = false; cache->s_stack_size--;` -/
def delS (cache : LirsCache) (p : ℕ) : LirsCache :=
  { cache with
    sStack := cache.sStack.erase p
    sStackSize := cache.sStackSize - 1
    block := Function.update cache.block p { cache.block p with inSStack := false } }

/-- `list_add(&block->s_list, &cache->s_stack); block->in_s_stack = true; cache->s_stack_size++;` -/
def addS (cache : LirsCache) (p : ℕ) : LirsCache :=
  { cache with
    sStack := p :: cache.sStack
    sStackSize := cache.sStackSize + 1
    block := Function.update cache.block p { cache.block p with inSStack := true } }

/-- `list_del(&block->s_list); list_add(&block->s_list, &cache->s_stack);` -/
def moveS (cache : LirsCache) (p : ℕ) : LirsCache :=
  { cache with sStack := p :: cache.sStack.erase p }

/-- `list_del(&block->q_list); block->in_q_queue = false; cache->q_queue_size--;` -/
def delQ (cache : LirsCache) (p : ℕ) : LirsCache :=
  { cache with
    qQueue := cache.qQueue.erase p
    qQueueSize := cache.qQueueSize - 1
    block := Function.update cache.block p { cache.block p with inQQueue := false } }

/-- `list_add_tail(&block->q_list, &cache->q_queue); block->in_q_queue = true;
cache->q_queue_size++;` -/
def addQ (cache : LirsCache) (p : ℕ) : LirsCache :=
  { cache with
    qQueue := cache.qQueue ++ [p]
    qQueueSize := cache.qQueueSize + 1
    block := Function.update cache.block p { cache.block p with inQQueue := true } }

/-- `block->type = type` -/
def setType (cache : LirsCache) (p : ℕ) (type : LirsBlockType) : LirsCache :=
  cache.setBlock p { cache.block p with type := type }

/-- The index of the bucket of `key`. -/
def bucket (cache : LirsCache) (key : ℕ) : ℕ := lirsHashIndex key cache.hashTableMask

/-- `total_size + size > max_size` -/
def full (cache : LirsCache) (size : ℕ) : Bool := cache.maxSize < addW cache.stats.totalSize size

end LirsCache

/-- `lirs_block_create`, where `malloc` answers `p`. -/
def lirsBlockCreate (cache : LirsCache) (p key value size : ℕ) : LirsCache :=
  { cache with heap := p :: cache.heap }.setBlock p
    ⟨key, value, size, .hirResident, 0, false, false⟩

/-- `lirs_block_destroy` -/
def lirsBlockDestroy (cache : LirsCache) (p : ℕ) : LirsCache :=
  let b := cache.block p
  { cache with
    evicted :=
      if cache.evictCallback && b.value != 0 then cache.evicted ++ [(b.key, b.value, b.size)]
      else cache.evicted
    heap := cache.heap.erase p }

/-- `lirs_find_block`, as it is meant: the first block of the bucket that has the key, or none.  As
written, its loop runs off the end of a bucket without one (`Utils.Hlist`). -/
def lirsFindBlock (cache : LirsCache) (key : ℕ) : Option ℕ :=
  (cache.hashTable (cache.bucket key)).find? fun p => (cache.block p).key = key

/-- `lirs_insert_hash` -/
def lirsInsertHash (cache : LirsCache) (p : ℕ) : LirsCache :=
  let idx := cache.bucket (cache.block p).key
  { cache with hashTable := Function.update cache.hashTable idx (p :: cache.hashTable idx) }

/-- `lirs_remove_hash`: `hlist_del` takes the block off the bucket that it is on. -/
def lirsRemoveHash (cache : LirsCache) (p : ℕ) : LirsCache :=
  { cache with hashTable := fun i => (cache.hashTable i).erase p }

/-- One round of `lirs_prune_s_stack`. -/
def lirsPruneBottom (cache : LirsCache) (bottom : ℕ) : LirsCache :=
  let cache := cache.delS bottom
  if (cache.block bottom).type = .hirNonResident then
    lirsBlockDestroy (lirsRemoveHash cache bottom) bottom
  else cache

def lirsPruneLoop : ℕ → LirsCache → LirsCache
  | 0, cache => cache
  | n + 1, cache =>
    match cache.sStack.getLast? with
    | none => cache
    | some bottom =>
      if (cache.block bottom).type = .lir ∧ (cache.block bottom).inSStack then cache
      else lirsPruneLoop n (lirsPruneBottom cache bottom)

/-- `lirs_prune_s_stack` -/
def lirsPruneSStack (cache : LirsCache) : LirsCache := lirsPruneLoop cache.sStack.length cache

/-- One round of `lirs_evict_hir`. -/
def lirsEvictHead (cache : LirsCache) (hirBlock : ℕ) : LirsCache :=
  let cache := (cache.delQ hirBlock).setType hirBlock .hirNonResident
  let cache := { cache with stats := { cache.stats with
    hirResidentCount := cache.stats.hirResidentCount - 1
    hirNonResidentCount := cache.stats.hirNonResidentCount + 1
    totalSize := subW cache.stats.totalSize (cache.block hirBlock).size
    evictions := cache.stats.evictions + 1 } }
  if !(cache.block hirBlock).inSStack then
    lirsBlockDestroy (lirsRemoveHash cache hirBlock) hirBlock
  else cache

def lirsEvictLoop : ℕ → LirsCache → LirsCache
  | 0, cache => cache
  | n + 1, cache =>
    match cache.qQueue.head? with
    | none => cache
    | some hirBlock =>
      if cache.hirCapacity < cache.qQueueSize then lirsEvictLoop n (lirsEvictHead cache hirBlock)
      else cache

/-- `lirs_evict_hir` -/
def lirsEvictHir (cache : LirsCache) : LirsCache := lirsEvictLoop cache.qQueue.length cache

/-- `lirs_demote_lir` -/
def lirsDemoteLir (cache : LirsCache) (lirBlock : ℕ) : LirsCache :=
  let cache := cache.setType lirBlock .hirResident
  let cache := { cache with stats := { cache.stats with
    lirCount := cache.stats.lirCount - 1
    hirResidentCount := cache.stats.hirResidentCount + 1
    demotions := cache.stats.demotions + 1 } }
  if !(cache.block lirBlock).inQQueue then cache.addQ lirBlock else cache

/-- The first half of `lirs_promote_hir`: the block becomes LIR and leaves Q. -/
def lirsPromoteBlock (cache : LirsCache) (hirBlock : ℕ) : LirsCache :=
  let cache := cache.setType hirBlock .lir
  let cache := { cache with stats := { cache.stats with
    lirCount := cache.stats.lirCount + 1
    hirResidentCount := cache.stats.hirResidentCount - 1
    promotions := cache.stats.promotions + 1 } }
  if (cache.block hirBlock).inQQueue then cache.delQ hirBlock else cache

/-- Its second half: a LIR block at the bottom of S is demoted and leaves S. -/
def lirsDemoteBottom (cache : LirsCache) : LirsCache :=
  match cache.sStack.getLast? with
  | none => cache
  | some bottom =>
    if (cache.block bottom).type = .lir then (lirsDemoteLir cache bottom).delS bottom else cache

/-- `lirs_promote_hir` -/
def lirsPromoteHir (cache : LirsCache) (hirBlock : ℕ) : LirsCache :=
  lirsEvictHir (lirsPruneSStack (lirsDemoteBottom (lirsPromoteBlock cache hirBlock)))

/-- `lirs_get`, case `LIRS_BLOCK_LIR` -/
def lirsGetLir (cache : LirsCache) (p : ℕ) : LirsCache :=
  let cache := { cache with stats := { cache.stats with hits := cache.stats.hits + 1 } }
  lirsPruneSStack (if (cache.block p).inSStack then cache.moveS p else cache.addS p)

/-- `lirs_get`, case `LIRS_BLOCK_HIR_RESIDENT` -/
def lirsGetHirResident (cache : LirsCache) (p : ℕ) : LirsCache :=
  let cache := { cache with stats := { cache.stats with hits := cache.stats.hits + 1 } }
  let cache := if (cache.block p).inSStack then lirsPromoteHir cache p else cache
  let cache := if (cache.block p).inSStack then cache.moveS p else cache.addS p
  lirsEvictHir
    (if (cache.block p).type = .hirResident ∧ !(cache.block p).inQQueue then cache.addQ p
    else cache)

/-- `lirs_get`, case `LIRS_BLOCK_HIR_NON_RESIDENT` -/
def lirsGetHirNonResident (cache : LirsCache) (p : ℕ) : LirsCache :=
  let cache := { cache with stats := { cache.stats with misses := cache.stats.misses + 1 } }
  if (cache.block p).inSStack then
    lirsPruneSStack (lirsBlockDestroy ((lirsRemoveHash cache p).delS p) p)
  else cache

/-- `lirs_get`: the cache it leaves and the value it returns, `NULL` being zero. -/
def lirsGet (cache : LirsCache) (key : ℕ) : LirsCache × ℕ :=
  if key = 0 then (cache, 0)
  else
    match lirsFindBlock cache key with
    | none =>
      ({ cache with stats := { cache.stats with misses := cache.stats.misses + 1 } }, 0)
    | some p =>
      let time := cache.currentTime + 1
      let cache := { cache.setBlock p { cache.block p with accessTime := time } with
        currentTime := time }
      match (cache.block p).type with
      | .lir =>
        let cache := lirsGetLir cache p
        (cache, (cache.block p).value)
      | .hirResident =>
        let cache := lirsGetHirResident cache p
        (cache, (cache.block p).value)
      | .hirNonResident => (lirsGetHirNonResident cache p, 0)

/-- The case of `lirs_put` where the key is in the table already. -/
def lirsPutExisting (cache : LirsCache) (existing value size : ℕ) : LirsCache :=
  let b := cache.block existing
  if b.value ≠ value then
    let cache := { cache with
      evicted :=
        if cache.evictCallback && b.value != 0 then cache.evicted ++ [(b.key, b.value, b.size)]
        else cache.evicted
      stats := { cache.stats with
        totalSize := addW (subW cache.stats.totalSize b.size) size } }
    cache.setBlock existing { b with value := value, size := size }
  else cache

/-- The loop of `lirs_put` that makes room.  It ends with its first round: it leaves the function
when the space does not suffice by then, and otherwise its condition is false. -/
def lirsMakeRoom (cache : LirsCache) (size : ℕ) : LirsCache :=
  if cache.full size then
    let cache := lirsEvictHir cache
    if cache.full size && !cache.sStack.isEmpty then lirsPruneSStack cache else cache
  else cache

/-- The branch of `lirs_put` that chooses the type of the new block. -/
def lirsPutType (cache : LirsCache) (p : ℕ) : LirsCache :=
  if cache.sStackSize < subW cache.capacity cache.hirCapacity then
    { cache.setType p .lir with stats := { cache.stats with
      lirCount := cache.stats.lirCount + 1 } }
  else
    { cache.setType p .hirResident with stats := { cache.stats with
      hirResidentCount := cache.stats.hirResidentCount + 1 } }.addQ p

/-- `lirs_put` from the use of the new block at `p` up to the pruning. -/
def lirsPutEntry (cache : LirsCache) (p size : ℕ) : LirsCache :=
  let time := cache.currentTime + 1
  let cache := { cache.setBlock p { cache.block p with accessTime := time } with
    currentTime := time }
  let cache := lirsInsertHash ((lirsPutType cache p).addS p) p
  { cache with stats := { cache.stats with totalSize := addW cache.stats.totalSize size } }

/-- `lirs_put`; `mem` is the answer of the `malloc` in `lirs_block_create`. -/
def lirsPut (cache : LirsCache) (key value size : ℕ) (mem : Option ℕ) : LirsCache × Int :=
  if key = 0 then (cache, -1)
  else
    match lirsFindBlock cache key with
    | some existing => (lirsPutExisting cache existing value size, 0)
    | none =>
      let cache := lirsMakeRoom cache size
      if cache.full size then (cache, -2)
      else
        match mem with
        | none => (cache, -3)
        | some p =>
          let cache := lirsPutEntry (lirsBlockCreate cache p key value size) p size
          (lirsEvictHir (lirsPruneSStack cache), 0)

/-- The statistics of `lirs_remove`, its switch over the type of the block included. -/
def lirsStatsRemoved (stats : LirsStats) (b : LirsBlock) : LirsStats :=
  let totalSize := subW stats.totalSize b.size
  match b.type with
  | .lir => { stats with totalSize := totalSize, lirCount := stats.lirCount - 1 }
  | .hirResident =>
    { stats with totalSize := totalSize, hirResidentCount := stats.hirResidentCount - 1 }
  | .hirNonResident =>
    { stats with totalSize := totalSize, hirNonResidentCount := stats.hirNonResidentCount - 1 }

/-- `lirs_remove` from the unlinking of the block on. -/
def lirsRemoveBlock (cache : LirsCache) (p : ℕ) : LirsCache :=
  let cache := if (cache.block p).inSStack then cache.delS p else cache
  let cache := if (cache.block p).inQQueue then cache.delQ p else cache
  let cache := lirsRemoveHash cache p
  let cache := { cache with stats := lirsStatsRemoved cache.stats (cache.block p) }
  lirsPruneSStack (lirsBlockDestroy cache p)

/-- `lirs_remove` -/
def lirsRemove (cache : LirsCache) (key : ℕ) : LirsCache × Int :=
  if key = 0 then (cache, -1)
  else
    match lirsFindBlock cache key with
    | none => (cache, -2)
    | some p => (lirsRemoveBlock cache p, 0)

/-- `lirs_contains` -/
def lirsContains (cache : LirsCache) (key : ℕ) : Bool :=
  if key = 0 then false
  else
    match lirsFindBlock cache key with
    | none => false
    | some p => (cache.block p).type ≠ .hirNonResident

/-- `lirs_size` -/
def lirsSize (cache : LirsCache) : ℕ := cache.stats.lirCount + cache.stats.hirResidentCount

end Nomalloc
