import Nomalloc.Memory.Chunk

/-!
# `cache/tcache.c`: the cache of a thread

A tcache has one bin for every size class: an array of pointers, of which the first `count` are in
use, here a list with the newest pointer last.

* `tcacheCreate`
* `tcacheAlloc`, `tcacheFree`
* `tcacheFill`, `tcacheFlush`

`tcache_free` reads the record of the chunk that the pointer points into; that record is an
argument, and so are the answers of `arena_malloc`.  The pointers passed to `arena_free` are part of
the result.  `arena_get_current` answers with an arena here.  The capacity in bytes and the list node
of a tcache are read by no function here and are left out.
-/

namespace Nomalloc

def TCACHE_BIN_CAPACITY_SMALL : ℕ := 32
def TCACHE_BIN_CAPACITY_MEDIUM : ℕ := 16
def TCACHE_BIN_CAPACITY_LARGE : ℕ := 4

/-- `struct tcache_bin`; `count` is the length of the list. -/
structure TcacheBin where
  objects : List ℕ
  capacity : ℕ
deriving DecidableEq, Repr

/-- `struct tcache` -/
structure Tcache where
  bins : ℕ → TcacheBin
  allocCount : ℕ
  freeCount : ℕ
  cacheHits : ℕ
  cacheMisses : ℕ
  active : Bool

/-- The capacity that `tcache_create` gives to a bin. -/
def tcacheCapacity (c : ℕ) : ℕ :=
  if isSmallClassIdx c then TCACHE_BIN_CAPACITY_SMALL
  else if isMediumClassIdx c then TCACHE_BIN_CAPACITY_MEDIUM
  else TCACHE_BIN_CAPACITY_LARGE

/-- `tcache_create`, where libc has the memory. -/
def tcacheCreate : Tcache where
  bins := fun c => ⟨[], tcacheCapacity c⟩
  allocCount := 0
  freeCount := 0
  cacheHits := 0
  cacheMisses := 0
  active := true

namespace Tcache

/-- The pointers of a bin change. -/
def setObjects (t : Tcache) (c : ℕ) (objects : List ℕ) : Tcache :=
  { t with bins := Function.update t.bins c { t.bins c with objects := objects } }

/-- `atomic64_inc(&tcache->cache_misses)` -/
def countMiss (t : Tcache) : Tcache := { t with cacheMisses := addW t.cacheMisses 1 }

/-- `atomic64_inc(&tcache->cache_hits)` -/
def countHit (t : Tcache) : Tcache := { t with cacheHits := addW t.cacheHits 1 }

/-- `atomic64_inc(&tcache->alloc_count)` -/
def countAlloc (t : Tcache) : Tcache := { t with allocCount := addW t.allocCount 1 }

/-- `atomic64_inc(&tcache->free_count)` -/
def countFree (t : Tcache) : Tcache := { t with freeCount := addW t.freeCount 1 }

end Tcache

/-- `tcache_alloc` -/
def tcacheAlloc (t : Tcache) (size : ℕ) : Tcache × Option ℕ :=
  if !t.active ∨ size = 0 then (t, none)
  else
    let c := sizeToClass size
    if isLargeClassIdx c then (t.countMiss, none)
    else
      match (t.bins c).objects.getLast? with
      | some ptr => ((t.setObjects c (t.bins c).objects.dropLast).countAlloc.countHit, some ptr)
      | none => (t.countAlloc.countMiss, none)

/-- The loop of `tcache_free` over the size classes: the first that the offset in the chunk is a
multiple of. -/
def tcacheFreeClass (chunk : Chunk) (ptr : ℕ) : ℕ :=
  let offset := subW ptr chunk.baseAddr
  ((List.range NUM_SIZE_CLASSES).find? fun i =>
    classToSize i ≠ 0 ∧ offset % classToSize i = 0 ∧ offset < chunk.size).getD 0

/-- `tcache_free`; `chunk` is the record at `ptr_to_chunk(ptr)`. -/
def tcacheFree (t : Tcache) (ptr : ℕ) (chunk : Chunk) : Tcache × Bool :=
  if ptr = 0 ∨ !t.active then (t, false)
  else if chunk.isLarge then (t, false)
  else
    let c := tcacheFreeClass chunk ptr
    let bin := t.bins c
    if bin.objects.length < bin.capacity then
      ((t.setObjects c (bin.objects ++ [ptr])).countFree, true)
    else (t, false)

/-- The loop of `tcache_fill`: `n` rounds from the `i`-th answer of `arena_malloc` on. -/
def tcacheFillLoop (answer : ℕ → Option ℕ) : ℕ → ℕ → List ℕ
  | _, 0 => []
  | i, n + 1 =>
    match answer i with
    | some ptr => ptr :: tcacheFillLoop answer (i + 1) n
    | none => []

/-- `tcache_fill`, with the pointers it got from the arena. -/
def tcacheFill (t : Tcache) (size : ℕ) (answer : ℕ → Option ℕ) : Tcache × List ℕ :=
  if size = 0 then (t, [])
  else
    let c := sizeToClass size
    if isLargeClassIdx c then (t, [])
    else
      let bin := t.bins c
      let fillCount := min (subW bin.capacity bin.objects.length) (TCACHE_BIN_CAPACITY_SMALL / 2)
      let got := tcacheFillLoop answer 0 fillCount
      (t.setObjects c (bin.objects ++ got), got)

/-- The loop of `tcache_flush`: `n` rounds, with the pointers that are left and the calls of
`arena_free`. -/
def tcacheFlushLoop : ℕ → List ℕ → List ℕ × List ℕ
  | 0, objects => (objects, [])
  | n + 1, objects =>
    match objects.getLast? with
    | none => tcacheFlushLoop n objects
    | some ptr =>
      let r := tcacheFlushLoop n objects.dropLast
      (r.1, ptr :: r.2)

/-- `tcache_flush`, with the calls of `arena_free`. -/
def tcacheFlush (t : Tcache) (size : ℕ) : Tcache × List ℕ :=
  if size = 0 then (t, [])
  else
    let c := sizeToClass size
    if isLargeClassIdx c then (t, [])
    else
      let r := tcacheFlushLoop ((t.bins c).objects.length / 2) (t.bins c).objects
      (t.setObjects c r.1, r.2)

end Nomalloc
