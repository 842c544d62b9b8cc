import Nomalloc.Utils.Bitmap
import Nomalloc.Core.SizeClass

/-!
# `memory/chunk.c`: chunks and their runs

A chunk is a 2 MiB-aligned mapping that starts with its own `struct chunk`; small blocks are
carved out of runs of 4096 bytes, and every size class has two lists of runs, `runs_free` and
`runs_full`.  A run record is libc memory, named here by its address, so that the pointer
comparison `r == run` of the source is a comparison of addresses.  A run does not record where
its 4096 bytes lie: the source recomputes the place from the position of the run in its list.

* `chunkCreate`, `chunkDestroy`
* `chunkFindAvailableRun`, `chunkAllocSmall`, `chunkFreeSmall`
* `chunkGetAvailable`, `chunkAllocLarge`, `chunkFreeLarge`
* `ptrToChunk`, `ptrIsInChunk`

What libc and the kernel answer is an argument (`MetaEnv`, the base address of a mapping); the
calls a function makes to libc are part of its result.  The spinlock of a chunk is left out: the
functions are modelled one call after another.  The lists of runs are lists; linking them by
`list_head` nodes is what `list_add_tail` and `list_del` do to these lists.
-/

namespace Nomalloc

def CHUNK_DEFAULT_SIZE : ℕ := 2 * 1024 * 1024
def CHUNK_ALIGN : ℕ := CHUNK_DEFAULT_SIZE
def CHUNK_MIN_SIZE : ℕ := 4 * 1024
def CHUNK_MAX_SIZE : ℕ := 256 * 1024 * 1024
def CHUNK_RUN_SIZE : ℕ := 4 * 1024

/-- `sizeof(struct chunk)`: seven words, two arrays of list heads, the lock, the list node and
the two counters. -/
def SIZEOF_CHUNK : ℕ := 7 * 8 + 2 * (16 * NUM_SIZE_CLASSES) + 8 + 16 + 8 + 8

/-- `struct chunk_run`.  `addr` is the address of the record, `bitmapAddr` that of its bitmap. -/
structure ChunkRun where
  addr : ℕ
  sizeClass : ℕ
  blockSize : ℕ
  numBlocks : ℕ
  bitmapAddr : ℕ
  allocBitmap : Bitmap
  bitmapSize : ℕ
  freeBlocksCount : ℕ

/-- `struct chunk`; `runs` is the array that `chunk_destroy` walks (`NULL` is `none`). -/
structure Chunk where
  baseAddr : ℕ
  size : ℕ
  usableOffset : ℕ
  isLarge : Bool
  runs : Option (List ChunkRun)
  numRuns : ℕ
  runsFree : ℕ → List ChunkRun
  runsFull : ℕ → List ChunkRun
  allocatedBytes : ℕ
  freedBytes : ℕ

/-- A call to libc made for metadata. -/
inductive LibcCall where
  | malloc (addr : ℕ)
  | calloc (addr : ℕ)
  | free (addr : ℕ)
deriving DecidableEq, Repr

/-- What libc answers to the two requests of `chunk_alloc_small`: the run record and its bitmap. -/
structure MetaEnv where
  run : Option ℕ
  bitmap : Option ℕ

/-- `chunk_create`: `base` is the answer of `memory_alloc_aligned(aligned_size, CHUNK_ALIGN)`. -/
def chunkCreate (size : ℕ) (base : Option ℕ) : Option Chunk :=
  let alignedSize := alignUp size CHUNK_ALIGN
  base.map fun base =>
    let usableOffset := alignUp SIZEOF_CHUNK 16
    { baseAddr := base
      size := alignedSize
      usableOffset := usableOffset
      isLarge := false
      runs := none
      numRuns := 0
      runsFree := fun _ => []
      runsFull := fun _ => []
      allocatedBytes := usableOffset
      freedBytes := 0 }

/-- `chunk_destroy`, before it gives the mapping back: the metadata it releases. -/
def chunkDestroy (chunk : Chunk) : List LibcCall :=
  match chunk.runs with
  | none => []
  | some runs =>
    ((runs.take chunk.numRuns).map fun r => LibcCall.free r.bitmapAddr) ++
      (runs.head?.map fun r => LibcCall.free r.addr).toList

/-- `chunk_find_available_run` -/
def chunkFindAvailableRun (chunk : Chunk) (c : ℕ) : Option ChunkRun := (chunk.runsFree c).head?

/-- A store through a run pointer: the record at that address changes, wherever it is linked. -/
def storeRun (run : ChunkRun) (l : List ChunkRun) : List ChunkRun :=
  l.map fun r => if r.addr = run.addr then run else r

/-- `list_del` of a run's node -/
def unlinkRun (run : ChunkRun) (l : List ChunkRun) : List ChunkRun :=
  l.filter fun r => r.addr ≠ run.addr

/-- The state a function of `chunk.c` leaves, the pointer it returns and its calls to libc. -/
structure ChunkResult where
  chunk : Chunk
  ptr : Option ℕ
  calls : List LibcCall

/-- The second half of `chunk_alloc_small`: take the first free block of `run`. -/
def chunkTakeBlock (chunk : Chunk) (c : ℕ) (run : ChunkRun) (calls : List LibcCall) :
    ChunkResult :=
  let blockIdx := bitmapFindFirstClear run.allocBitmap run.numBlocks
  if run.numBlocks ≤ blockIdx then ⟨chunk, none, calls⟩
  else
    let run' := { run with
      allocBitmap := bitmapSet run.allocBitmap blockIdx
      freeBlocksCount := subW run.freeBlocksCount 1 }
    -- the loop counts the runs before `run` on the list
    let runIdx := (chunk.runsFree c).findIdx fun r => r.addr = run.addr
    let usableBase := addW chunk.baseAddr chunk.usableOffset
    let runBase := addW usableBase (runIdx * CHUNK_RUN_SIZE)
    let ptr := addW runBase (blockIdx * run.blockSize)
    let allocated := addW chunk.allocatedBytes run.blockSize
    if run'.freeBlocksCount = 0 then
      ⟨{ chunk with
          allocatedBytes := allocated
          runsFree := Function.update chunk.runsFree c (unlinkRun run' (chunk.runsFree c))
          runsFull := Function.update chunk.runsFull c (chunk.runsFull c ++ [run']) },
        some ptr, calls⟩
    else
      ⟨{ chunk with
          allocatedBytes := allocated
          runsFree := Function.update chunk.runsFree c (storeRun run' (chunk.runsFree c)) },
        some ptr, calls⟩

/-- `chunk_alloc_small` -/
def chunkAllocSmall (chunk : Chunk) (c : ℕ) (env : MetaEnv) : ChunkResult :=
  match chunkFindAvailableRun chunk c with
  | some run => chunkTakeBlock chunk c run []
  | none =>
    match env.run with
    | none => ⟨chunk, none, []⟩
    | some addr =>
      let blockSize := classToSize c
      if blockSize = 0 then ⟨chunk, none, [.malloc addr, .free addr]⟩
      else
        let numBlocks := CHUNK_RUN_SIZE / blockSize
        match env.bitmap with
        | none => ⟨chunk, none, [.malloc addr, .free addr]⟩
        | some bitmapAddr =>
          let run : ChunkRun :=
            { addr := addr
              sizeClass := c
              blockSize := blockSize
              numBlocks := numBlocks
              bitmapAddr := bitmapAddr
              allocBitmap := bitmapInit numBlocks false
              bitmapSize := bitmapSize numBlocks
              freeBlocksCount := numBlocks }
          let chunk' := { chunk with
            runsFree := Function.update chunk.runsFree c (chunk.runsFree c ++ [run])
            numRuns := addW chunk.numRuns 1 }
          chunkTakeBlock chunk' c run [.malloc addr, .calloc bitmapAddr]

/-- The two search loops of `chunk_free_small`; `count` runs on from the first into the second. -/
def chunkFindRun (chunk : Chunk) (c runIdx : ℕ) : Option ChunkRun :=
  match (chunk.runsFree c)[runIdx]? with
  | some run => some run
  | none => (chunk.runsFull c)[runIdx - (chunk.runsFree c).length]?

/-- `list_empty(&run->list)`: the node points to itself, which a node on a list never does. -/
def runUnlinked (chunk : Chunk) (c : ℕ) (run : ChunkRun) : Bool :=
  !(chunk.runsFree c ++ chunk.runsFull c).any fun r => r.addr = run.addr

/-- `chunk_free_small` -/
def chunkFreeSmall (chunk : Chunk) (ptr c : ℕ) : Chunk × List LibcCall :=
  if ptr = 0 then (chunk, [])
  else
    let usableBase := addW chunk.baseAddr chunk.usableOffset
    let offset := subW ptr usableBase
    let runIdx := offset / CHUNK_RUN_SIZE
    match chunkFindRun chunk c runIdx with
    | none => (chunk, [])
    | some run =>
      if run.blockSize = 0 then (chunk, [])
      else
        let blockOffset := offset - runIdx * CHUNK_RUN_SIZE
        let blockIdx := blockOffset / run.blockSize
        if run.numBlocks ≤ blockIdx then (chunk, [])
        else if !bitmapGet run.allocBitmap blockIdx then (chunk, [])
        else
          let run' := { run with
            allocBitmap := bitmapClearBit run.allocBitmap blockIdx
            freeBlocksCount := addW run.freeBlocksCount 1 }
          let freed := addW chunk.freedBytes run.blockSize
          if run'.freeBlocksCount = run'.numBlocks then
            ({ chunk with
                freedBytes := freed
                runsFree := Function.update chunk.runsFree c (unlinkRun run' (chunk.runsFree c))
                runsFull := Function.update chunk.runsFull c (unlinkRun run' (chunk.runsFull c))
                numRuns := subW chunk.numRuns 1 },
              [.free run'.bitmapAddr, .free run'.addr])
          else
            let runsFree := storeRun run' (chunk.runsFree c)
            ({ chunk with
                freedBytes := freed
                runsFree := Function.update chunk.runsFree c
                  (if run'.freeBlocksCount = 1 ∧ runUnlinked chunk c run then runsFree ++ [run']
                   else runsFree)
                runsFull := Function.update chunk.runsFull c (storeRun run' (chunk.runsFull c)) },
              [])

/-- `chunk_get_available` -/
def chunkGetAvailable (chunk : Chunk) : ℕ := subW chunk.size chunk.allocatedBytes

/-- `chunk_alloc_large` -/
def chunkAllocLarge (chunk : Chunk) (size : ℕ) : Chunk × Option ℕ :=
  let alignedSize := alignUp size CHUNK_RUN_SIZE
  if chunkGetAvailable chunk < alignedSize then (chunk, none)
  else
    ({ chunk with
        allocatedBytes := addW chunk.allocatedBytes alignedSize
        isLarge := true },
      some (addW chunk.baseAddr chunk.allocatedBytes))

/-- `chunk_free_large` -/
def chunkFreeLarge (chunk : Chunk) (ptr size : ℕ) : Chunk :=
  if ptr = 0 then chunk
  else { chunk with freedBytes := addW chunk.freedBytes (alignUp size CHUNK_RUN_SIZE) }

/-- `ptr_to_chunk`: clear the low bits of the address. -/
def ptrToChunk (ptr : ℕ) : ℕ := ptr / CHUNK_ALIGN * CHUNK_ALIGN

/-- `ptr_is_in_chunk` -/
def ptrIsInChunk (chunk : Chunk) (ptr : ℕ) : Bool :=
  decide (chunk.baseAddr ≤ ptr ∧ ptr < addW chunk.baseAddr chunk.size)

end Nomalloc
