import Nomalloc.Utils.Hash
import Nomalloc.Utils.Math

/-!
# `debug/leak_detector.c`: the table of live allocations

A record is libc memory, named by its address.  It is on `allocation_list` and in a bucket of the
hash table, or on `free_list`, ready to be used again.

* `leakDetectorInit`, `leakDetectorEnable`, `leakDetectorDisable`
* `leakDetectorRecordAlloc`, `leakDetectorRecordDealloc`
* `leakDetectorClear`

Lists and buckets are lists of addresses; linking their nodes is what `list_add_tail`, `list_del`,
`hlist_add_head` and `hlist_del` do to these lists.  The search in a bucket stops at the end of the
bucket.  The answer of libc and what the system tells about the caller are an argument (`LeakEnv`).
The lock, the array `records`, which nothing is stored in, and the log are left out.
-/

namespace Nomalloc

def LEAK_DETECTOR_MAX_ALLOCATIONS : ℕ := 100000
def LEAK_DETECTOR_HASH_SIZE : ℕ := 8192
def LEAK_DETECTOR_STACK_DEPTH : ℕ := 16

/-- `struct allocation_record` -/
structure AllocationRecord where
  ptr : ℕ
  size : ℕ
  classIdx : ℕ
  arenaId : Int
  threadId : ℕ
  timestamp : ℕ
  stackTrace : List ℕ
deriving DecidableEq, Repr

/-- `struct leak_detector_stats` -/
structure LeakDetectorStats where
  totalAllocations : ℕ
  totalDeallocations : ℕ
  leakedAllocations : ℕ
  leakedBytes : ℕ
  peakAllocations : ℕ
  peakBytes : ℕ
  trackingActive : Bool
deriving DecidableEq, Repr

/-- `struct leak_detector`, and the records. -/
structure LeakDetector where
  enabled : Bool
  tracking : Bool
  numRecords : ℕ
  maxRecords : ℕ
  hashTable : ℕ → List ℕ
  allocationList : List ℕ
  freeList : List ℕ
  record : ℕ → AllocationRecord
  stats : LeakDetectorStats

/-- What a call is answered: `malloc(sizeof(struct allocation_record))`, and where the call comes
from. -/
structure LeakEnv where
  malloc : Option ℕ
  threadId : ℕ
  timestamp : ℕ
  backtrace : List ℕ

/-- `leak_hash_index` -/
def leakHashIndex (ptr : ℕ) : ℕ := (hash32Ptr ptr).toNat &&& (LEAK_DETECTOR_HASH_SIZE - 1)

/-- Memory that no record has been written to. -/
def AllocationRecord.zero : AllocationRecord := ⟨0, 0, 0, 0, 0, 0, []⟩

/-- The detector after `memset`. -/
def LeakDetector.zero : LeakDetector where
  enabled := false
  tracking := false
  numRecords := 0
  maxRecords := 0
  hashTable := fun _ => []
  allocationList := []
  freeList := []
  record := fun _ => AllocationRecord.zero
  stats := ⟨0, 0, 0, 0, 0, 0, false⟩

/-- `leak_detector_init`; `ok` says whether libc has memory for the array of records. -/
def leakDetectorInit (d : LeakDetector) (ok : Bool) : LeakDetector × Int :=
  if d.enabled then (d, 0)
  else
    let d := { LeakDetector.zero with maxRecords := LEAK_DETECTOR_MAX_ALLOCATIONS }
    if !ok then (d, -1) else ({ d with enabled := true }, 0)

/-- `leak_detector_enable` -/
def leakDetectorEnable (d : LeakDetector) (ok : Bool) : LeakDetector × Int :=
  if !d.enabled then leakDetectorInit d ok
  else ({ d with tracking := true, stats := { d.stats with trackingActive := true } }, 0)

/-- `leak_detector_disable` -/
def leakDetectorDisable (d : LeakDetector) : LeakDetector × Int :=
  if !d.enabled then (d, -1)
  else ({ d with tracking := false, stats := { d.stats with trackingActive := false } }, 0)

/-- The first half of `leak_detector_record_alloc`: a record to write to, taken off the free list or
new. -/
def leakTakeRecord (d : LeakDetector) (malloc : Option ℕ) : Option (ℕ × LeakDetector) :=
  match d.freeList with
  | a :: rest => some (a, { d with freeList := rest })
  | [] => if d.numRecords < d.maxRecords then malloc.map fun a => (a, d) else none

/-- The second half: the record at `a` is written and linked. -/
def leakAddRecord (d : LeakDetector) (a : ℕ) (r : AllocationRecord) : LeakDetector :=
  let i := leakHashIndex r.ptr
  let current := addW d.numRecords 1
  { d with
    record := Function.update d.record a r
    hashTable := Function.update d.hashTable i (a :: d.hashTable i)
    allocationList := d.allocationList ++ [a]
    numRecords := current
    stats := { d.stats with
      totalAllocations := addW d.stats.totalAllocations 1
      peakAllocations :=
        if d.stats.peakAllocations < current then current else d.stats.peakAllocations
      peakBytes :=
        if d.stats.peakAllocations < current then addW d.stats.peakBytes r.size
        else d.stats.peakBytes } }

/-- `leak_detector_record_alloc` -/
def leakDetectorRecordAlloc (d : LeakDetector) (ptr size classIdx : ℕ) (arenaId : Int)
    (env : LeakEnv) : LeakDetector :=
  if !d.enabled ∨ !d.tracking ∨ ptr = 0 then d
  else
    match leakTakeRecord d env.malloc with
    | none => d
    | some (a, d) =>
      leakAddRecord d a
        { ptr := ptr
          size := size
          classIdx := classIdx
          arenaId := arenaId
          threadId := env.threadId
          timestamp := env.timestamp
          stackTrace := env.backtrace.take LEAK_DETECTOR_STACK_DEPTH }

/-- The search of `leak_detector_record_dealloc`, as it is meant: the first record of the pointer in its
bucket, or none.  As written, its loop runs off the end of a bucket without one (`Utils.Hlist`). -/
def leakFindRecord (d : LeakDetector) (ptr : ℕ) : Option ℕ :=
  (d.hashTable (leakHashIndex ptr)).find? fun a => (d.record a).ptr = ptr

/-- `hlist_del` of a record's node, whichever bucket it is in. -/
def LeakDetector.unhash (d : LeakDetector) (a : ℕ) : LeakDetector :=
  { d with hashTable := fun i => (d.hashTable i).erase a }

/-- `list_del` of a record on the allocation list, and `list_add_tail` to the free list. -/
def LeakDetector.retire (d : LeakDetector) (a : ℕ) : LeakDetector :=
  { d with allocationList := d.allocationList.erase a, freeList := d.freeList ++ [a] }

/-- `record->ptr = NULL; record->size = 0;` -/
def LeakDetector.blank (d : LeakDetector) (a : ℕ) : LeakDetector :=
  { d with record := Function.update d.record a { d.record a with ptr := 0, size := 0 } }

/-- Stores to `num_records` and `stats.total_deallocations`. -/
def LeakDetector.setCounts (d : LeakDetector) (numRecords totalDeallocations : ℕ) : LeakDetector :=
  { d with
    numRecords := numRecords
    stats := { d.stats with totalDeallocations := totalDeallocations } }

/-- `num_records--; atomic64_inc(&stats.total_deallocations);` -/
def LeakDetector.countDealloc (d : LeakDetector) : LeakDetector :=
  d.setCounts (subW d.numRecords 1) (addW d.stats.totalDeallocations 1)

/-- `leak_detector_record_dealloc` -/
def leakDetectorRecordDealloc (d : LeakDetector) (ptr : ℕ) : LeakDetector :=
  if !d.enabled ∨ !d.tracking ∨ ptr = 0 then d
  else
    match leakFindRecord d ptr with
    | none => d
    | some a => (((d.unhash a).blank a).retire a).countDealloc

/-- `leak_detector_clear`: the loop runs over the list as it was, reading the next node before the
body. -/
def leakDetectorClear (d : LeakDetector) : LeakDetector :=
  let d := d.allocationList.foldl (fun d a => (d.unhash a).retire a) d
  { d with
    numRecords := 0
    stats := { d.stats with leakedAllocations := 0, leakedBytes := 0 } }

end Nomalloc
