import Nomalloc.Cache.LirsInvariant
import Nomalloc.Utils.HlistOps
import Nomalloc.Utils.ListOps

/-!
# `cache/lirs/lirs.c`, pointer by pointer

The cache as it lies in memory: the stack S and the queue Q are circular lists through the `s_list`
and `q_list` nodes of the blocks, a bucket is a chain through the `hash_node`s, and every function
works on the pointers alone.  `list_entry` turns the node of a block into the block; the head of a
list is in no block, and a loop or a function that takes it for one ends with `none`, as one does
that is not over after the given number of rounds.  `lirs_find_block` has its intended meaning: the
walk along a chain ends at NULL.

The names are those of the functions of `Lirs`, in the namespace `LirsMem`.
-/

namespace Nomalloc

/-- The two lists of the cache. -/
inductive LirsList where
  | sStack
  | qQueue
deriving DecidableEq, Repr

/-- `struct list_head`: the heads in the cache, and `s_list` and `q_list` of the blocks. -/
inductive LirsNode where
  | head (list : LirsList)
  | item (list : LirsList) (p : ℕ)
deriving DecidableEq, Repr

/-- `list_entry` -/
def LirsNode.entry : LirsNode → Option ℕ
  | .head _ => none
  | .item _ p => some p

/-- `struct lirs_cache` and the nodes of its lists and chains; the other fields as in `LirsCache`. -/
structure LirsMem where
  capacity : ℕ
  hirCapacity : ℕ
  maxSize : ℕ
  sStackSize : ℕ
  qQueueSize : ℕ
  hashTableMask : ℕ
  stats : LirsStats
  currentTime : ℕ
  evictCallback : Bool
  evicted : List (ℕ × ℕ × ℕ)
  block : ℕ → LirsBlock
  heap : List ℕ
  links : Links LirsNode
  chains : ChainMem ℕ ℕ

/-- `lirs_create`, with whether its two allocations succeed and what the memory of the nodes holds. -/
def LirsMem.create (capacity maxSize : ℕ) (cacheOk tableOk : Bool) (links : Links LirsNode) :
    Option LirsMem :=
  (lirsCreate capacity maxSize cacheOk tableOk).map fun c =>
    { capacity := c.capacity
      hirCapacity := c.hirCapacity
      maxSize := c.maxSize
      sStackSize := 0
      qQueueSize := 0
      hashTableMask := c.hashTableMask
      stats := c.stats
      currentTime := 0
      evictCallback := false
      evicted := []
      block := c.block
      heap := []
      links := listInit (listInit { links with fault := false } (.head .sStack)) (.head .qQueue)
      chains := hlistInit }

namespace LirsMem

variable (m : LirsMem) (p key value size rounds : ℕ)

/-- A store to the block at `p`. -/
def setBlock (b : LirsBlock) : LirsMem := { m with block := Function.update m.block p b }

/-- `list_del(&block->s_list); block->in_s_stack = false; cache->s_stack_size--;` -/
def delS : LirsMem :=
  { m with
    links := listDel m.links (.item .sStack p)
    sStackSize := m.sStackSize - 1
    block := Function.update m.block p { m.block p with inSStack := false } }

/-- `list_add(&block->s_list, &cache->s_stack); block->in_s_stack = true; cache->s_stack_size++;` -/
def addS : LirsMem :=
  { m with
    links := listAdd m.links (.item .sStack p) (.head .sStack)
    sStackSize := m.sStackSize + 1
    block := Function.update m.block p { m.block p with inSStack := true } }

/-- `list_del(&block->s_list); list_add(&block->s_list, &cache->s_stack);` -/
def moveS : LirsMem :=
  { m with links := listAdd (listDel m.links (.item .sStack p)) (.item .sStack p) (.head .sStack) }

/-- `list_del(&block->q_list); block->in_q_queue = false; cache->q_queue_size--;` -/
def delQ : LirsMem :=
  { m with
    links := listDel m.links (.item .qQueue p)
    qQueueSize := m.qQueueSize - 1
    block := Function.update m.block p { m.block p with inQQueue := false } }

/-- `list_add_tail(&block->q_list, &cache->q_queue); block->in_q_queue = true;
cache->q_queue_size++;` -/
def addQ : LirsMem :=
  { m with
    links := listAddTail m.links (.item .qQueue p) (.head .qQueue)
    qQueueSize := m.qQueueSize + 1
    block := Function.update m.block p { m.block p with inQQueue := true } }

/-- `block->type = type` -/
def setType (type : LirsBlockType) : LirsMem := m.setBlock p { m.block p with type := type }

def bucket : ℕ := lirsHashIndex key m.hashTableMask

/-- `total_size + size > max_size` -/
def full : Bool := m.maxSize < addW m.stats.totalSize size

/-- `lirs_block_create`, where `malloc` answers `p`. -/
def blockCreate : LirsMem :=
  { m with
    heap := p :: m.heap
    block := Function.update m.block p ⟨key, value, size, .hirResident, 0, false, false⟩
    links := listInit (listInit m.links (.item .sStack p)) (.item .qQueue p)
    chains := initHlistNode m.chains p }

/-- `lirs_block_destroy` -/
def blockDestroy : LirsMem :=
  let b := m.block p
  { m with
    evicted :=
      if m.evictCallback && b.value != 0 then m.evicted ++ [(b.key, b.value, b.size)] else m.evicted
    heap := m.heap.erase p }

/-- The walk along a chain, from the pointer `pos` on.  It is taken to stop at the end of the chain,
as it is meant to; `Utils.Hlist` has the loop as written, which does not. -/
def findLoop (m : LirsMem) (key : ℕ) : ℕ → Option ℕ → Option (Option ℕ)
  | 0, _ => none
  | _ + 1, none => some none
  | n + 1, some pos =>
    if (m.block pos).key = key then some (some pos)
    else findLoop m key n (m.chains.ptr (.next pos))

/-- `lirs_find_block` -/
def findBlock : Option (Option ℕ) := m.findLoop key rounds (m.chains.ptr (.first (m.bucket key)))

/-- `lirs_insert_hash` -/
def insertHash : LirsMem :=
  { m with chains := hlistAddHead m.chains p (m.bucket (m.block p).key) }

/-- `lirs_remove_hash` -/
def removeHash : LirsMem := { m with chains := hlistDel m.chains p }

/-- One round of `lirs_prune_s_stack`. -/
def pruneBottom : LirsMem :=
  let m := m.delS p
  if (m.block p).type = .hirNonResident then (m.removeHash p).blockDestroy p else m

/-- `lirs_prune_s_stack` -/
def pruneSStack : ℕ → LirsMem → Option LirsMem
  | 0, _ => none
  | n + 1, m =>
    if listEmpty m.links (.head .sStack) then some m
    else
      -- `list_last_entry`
      match (m.links.prev (.head .sStack)).bind LirsNode.entry with
      | none => none
      | some bottom =>
        if (m.block bottom).type = .lir ∧ (m.block bottom).inSStack then some m
        else pruneSStack n (m.pruneBottom bottom)

/-- One round of `lirs_evict_hir`. -/
def evictHead : LirsMem :=
  let m := (m.delQ p).setType p .hirNonResident
  let m := { m with stats := { m.stats with
    hirResidentCount := m.stats.hirResidentCount - 1
    hirNonResidentCount := m.stats.hirNonResidentCount + 1
    totalSize := subW m.stats.totalSize (m.block p).size
    evictions := m.stats.evictions + 1 } }
  if !(m.block p).inSStack then (m.removeHash p).blockDestroy p else m

/-- `lirs_evict_hir` -/
def evictHir : ℕ → LirsMem → Option LirsMem
  | 0, _ => none
  | n + 1, m =>
    if !listEmpty m.links (.head .qQueue) && decide (m.hirCapacity < m.qQueueSize) then
      -- `list_first_entry`
      match (m.links.next (.head .qQueue)).bind LirsNode.entry with
      | none => none
      | some hirBlock => evictHir n (m.evictHead hirBlock)
    else some m

/-- `lirs_demote_lir` -/
def demoteLir : LirsMem :=
  let m := m.setType p .hirResident
  let m := { m with stats := { m.stats with
    lirCount := m.stats.lirCount - 1
    hirResidentCount := m.stats.hirResidentCount + 1
    demotions := m.stats.demotions + 1 } }
  if !(m.block p).inQQueue then m.addQ p else m

/-- The first half of `lirs_promote_hir`. -/
def promoteBlock : LirsMem :=
  let m := m.setType p .lir
  let m := { m with stats := { m.stats with
    lirCount := m.stats.lirCount + 1
    hirResidentCount := m.stats.hirResidentCount - 1
    promotions := m.stats.promotions + 1 } }
  if (m.block p).inQQueue then m.delQ p else m

/-- The demotion in `lirs_promote_hir`, which does not ask whether S is empty. -/
def demoteBottom : Option LirsMem :=
  ((m.links.prev (.head .sStack)).bind LirsNode.entry).map fun bottom =>
    if (m.block bottom).type = .lir then (m.demoteLir bottom).delS bottom else m

/-- `lirs_promote_hir` -/
def promoteHir : Option LirsMem :=
  (m.promoteBlock p).demoteBottom.bind fun m => (m.pruneSStack rounds).bind (evictHir rounds)

/-- `lirs_get`, case `LIRS_BLOCK_LIR` -/
def getLir : Option LirsMem :=
  let m := { m with stats := { m.stats with hits := m.stats.hits + 1 } }
  pruneSStack rounds (if (m.block p).inSStack then m.moveS p else m.addS p)

/-- `lirs_get`, case `LIRS_BLOCK_HIR_RESIDENT` -/
def getHirResident : Option LirsMem :=
  let m := { m with stats := { m.stats with hits := m.stats.hits + 1 } }
  (if (m.block p).inSStack then m.promoteHir p rounds else some m).bind fun m =>
    let m := if (m.block p).inSStack then m.moveS p else m.addS p
    evictHir rounds
      (if (m.block p).type = .hirResident ∧ !(m.block p).inQQueue then m.addQ p else m)

/-- `lirs_get`, case `LIRS_BLOCK_HIR_NON_RESIDENT` -/
def getHirNonResident : Option LirsMem :=
  let m := { m with stats := { m.stats with misses := m.stats.misses + 1 } }
  if (m.block p).inSStack then pruneSStack rounds (((m.removeHash p).delS p).blockDestroy p)
  else some m

/-- `cache->current_time++; block->access_time = cache->current_time;` -/
def touched : LirsMem :=
  { m.setBlock p { m.block p with accessTime := m.currentTime + 1 } with
    currentTime := m.currentTime + 1 }

/-- The switch of `lirs_get` over the type of the block. -/
def getFound : Option (LirsMem × ℕ) :=
  match (m.block p).type with
  | .lir => (m.getLir p rounds).map fun m => (m, (m.block p).value)
  | .hirResident => (m.getHirResident p rounds).map fun m => (m, (m.block p).value)
  | .hirNonResident => (m.getHirNonResident p rounds).map fun m => (m, 0)

/-- `lirs_get` -/
def get : Option (LirsMem × ℕ) :=
  if key = 0 then some (m, 0)
  else
    (m.findBlock key rounds).bind fun found =>
      match found with
      | none => some ({ m with stats := { m.stats with misses := m.stats.misses + 1 } }, 0)
      | some p => (m.touched p).getFound p rounds

/-- The case of `lirs_put` where the key is in the table already. -/
def putExisting : LirsMem :=
  let b := m.block p
  if b.value ≠ value then
    let m := { m with
      evicted :=
        if m.evictCallback && b.value != 0 then m.evicted ++ [(b.key, b.value, b.size)]
        else m.evicted
      stats := { m.stats with totalSize := addW (subW m.stats.totalSize b.size) size } }
    m.setBlock p { b with value := value, size := size }
  else m

/-- The loop of `lirs_put` that makes room, in rounds of its own; the flag is the `return -2`. -/
def makeRoom (size rounds : ℕ) : ℕ → LirsMem → Option (LirsMem × Bool)
  | 0, _ => none
  | n + 1, m =>
    if m.full size then
      (m.evictHir rounds).bind fun m =>
        (if m.full size && !listEmpty m.links (.head .sStack) then m.pruneSStack rounds
        else some m).bind fun m =>
          if m.full size then some (m, true) else makeRoom size rounds n m
    else some (m, false)

/-- The branch of `lirs_put` that chooses the type of the new block. -/
def putType : LirsMem :=
  if m.sStackSize < subW m.capacity m.hirCapacity then
    { m.setType p .lir with stats := { m.stats with lirCount := m.stats.lirCount + 1 } }
  else
    { m.setType p .hirResident with stats := { m.stats with
      hirResidentCount := m.stats.hirResidentCount + 1 } }.addQ p

/-- `lirs_put` from the use of the new block at `p` up to the pruning. -/
def putEntry : LirsMem :=
  let m := (((m.touched p).putType p).addS p).insertHash p
  { m with stats := { m.stats with totalSize := addW m.stats.totalSize size } }

/-- `lirs_put`; `mem` is the answer of the `malloc` in `lirs_block_create`. -/
def put (mem : Option ℕ) : Option (LirsMem × Int) :=
  if key = 0 then some (m, -1)
  else
    (m.findBlock key rounds).bind fun found =>
      match found with
      | some existing => some (m.putExisting existing value size, 0)
      | none =>
        (makeRoom size rounds rounds m).bind fun r =>
          if r.2 then some (r.1, -2)
          else
            match mem with
            | none => some (r.1, -3)
            | some p =>
              (pruneSStack rounds ((r.1.blockCreate p key value size).putEntry p size)).bind fun m =>
                (m.evictHir rounds).map fun m => (m, 0)

/-- `lirs_remove` from the unlinking of the block on. -/
def removeBlock : Option LirsMem :=
  let m := if (m.block p).inSStack then m.delS p else m
  let m := if (m.block p).inQQueue then m.delQ p else m
  let m := m.removeHash p
  let m := { m with stats := lirsStatsRemoved m.stats (m.block p) }
  pruneSStack rounds (m.blockDestroy p)

/-- `lirs_remove` -/
def remove : Option (LirsMem × Int) :=
  if key = 0 then some (m, -1)
  else
    (m.findBlock key rounds).bind fun found =>
      match found with
      | none => some (m, -2)
      | some p => (m.removeBlock p rounds).map fun m => (m, 0)

/-- `lirs_contains` -/
def contains : Option Bool :=
  if key = 0 then some false
  else
    (m.findBlock key rounds).map fun found =>
      match found with
      | none => false
      | some p => (m.block p).type ≠ .hirNonResident

end LirsMem

/-! ## runs -/

/-- What a call returns. -/
inductive LirsReply where
  | value (value : ℕ)
  | code (code : Int)
deriving DecidableEq, Repr

namespace LirsMem

def step (m : LirsMem) (rounds : ℕ) : LirsOp → Option (LirsMem × LirsReply)
  | .get key => (m.get key rounds).map fun r => (r.1, .value r.2)
  | .put key value size mem =>
    (m.put key value size rounds mem).map fun r => (r.1, .code r.2)
  | .remove key => (m.remove key rounds).map fun r => (r.1, .code r.2)

/-- The replies to a run of calls, and the cache behind it. -/
def run (rounds : ℕ) : LirsMem → List LirsOp → Option (LirsMem × List LirsReply)
  | m, [] => some (m, [])
  | m, op :: ops =>
    (m.step rounds op).bind fun r =>
      (run rounds r.1 ops).map fun rest => (rest.1, r.2 :: rest.2)

end LirsMem

/-- The reply of the cache on lists. -/
def LirsCache.reply (c : LirsCache) : LirsOp → LirsReply
  | .get key => .value (lirsGet c key).2
  | .put key value size mem => .code (lirsPut c key value size mem).2
  | .remove key => .code (lirsRemove c key).2

def LirsCache.replies : LirsCache → List LirsOp → List LirsReply
  | _, [] => []
  | c, op :: ops => c.reply op :: (c.step op).replies ops

end Nomalloc
