import Nomalloc.Lib.Double
import Nomalloc.Lib.ForEach
import Nomalloc.Memory.Chunk

/-!
# `memory/arena.c`: an arena and its chunks

An arena keeps its chunks on circular lists: `list` for all of them and, for every size class,
`chunks_free`, `chunks_full` and `chunks_partial`.  A chunk has one `list` node, and is named by
the address of its mapping.

* `arenaCreate`, `arenaDestroy`
* `arenaFindAvailableChunk`, `arenaMalloc`
* `arenaFree`, `arenaRealloc`

`chunk p` is what the chunk at `p` holds and `live` are the chunks that are mapped.  What the kernel
and libc answer is an argument (`ArenaEnv`).  The totals of the arena manager are fields of the
arena here; the locks, the table of arenas and the counters that no function here reads are left
out.
-/

namespace Nomalloc

def MAX_ARENA_CHUNKS : ℕ := 1024

/-- The `list` nodes: the heads in the arena and the nodes in the chunks. -/
inductive ArenaNode where
  | list
  | chunksFree (c : ℕ)
  | chunksFull (c : ℕ)
  | chunksPartial (c : ℕ)
  | chunk (p : ℕ)
deriving DecidableEq, Repr

/-- `struct arena`, with the memory it points into and the totals of `g_arena_manager`. -/
structure Arena where
  numChunks : ℕ
  maxChunks : ℕ
  links : Links ArenaNode
  allocatedBytes : ℕ
  freedBytes : ℕ
  allocOps : ℕ
  freeOps : ℕ
  active : Bool
  totalAllocated : ℕ
  totalFreed : ℕ
  chunk : ℕ → Chunk
  live : List ℕ

/-- What a call is answered: the mapping of a new chunk, and the metadata of a new run. -/
structure ArenaEnv where
  base : Option ℕ
  run : MetaEnv

/-- Memory that holds no chunk. -/
def Chunk.zero : Chunk where
  baseAddr := 0
  size := 0
  usableOffset := 0
  isLarge := false
  runs := none
  numRuns := 0
  runsFree := fun _ => []
  runsFull := fun _ => []
  allocatedBytes := 0
  freedBytes := 0

/-- The loop of `arena_create` over the list heads of the size classes. -/
def initClassLists (links : Links ArenaNode) : Links ArenaNode :=
  (List.range NUM_SIZE_CLASSES).foldl
    (fun links i =>
      let links := listInit links (.chunksFree i)
      let links := listInit links (.chunksFull i)
      listInit links (.chunksPartial i))
    links

/-- `arena_create`, where libc has memory for the arena. -/
def arenaCreate : Arena where
  numChunks := 0
  maxChunks := MAX_ARENA_CHUNKS
  links := listInit (initClassLists ⟨fun _ => none, fun _ => none, false⟩) .list
  allocatedBytes := 0
  freedBytes := 0
  allocOps := 0
  freeOps := 0
  active := true
  totalAllocated := 0
  totalFreed := 0
  chunk := fun _ => Chunk.zero
  live := []

namespace Arena

/-- A pointer is followed that leads to no chunk. -/
def lost (a : Arena) : Arena := { a with links := { a.links with fault := true } }

/-- `chunk_create(CHUNK_DEFAULT_SIZE, arena)`: the record is written at `p`. -/
def mapChunk (a : Arena) (p : ℕ) (chunk : Chunk) : Arena :=
  { a with
    chunk := Function.update a.chunk p chunk
    links := listInit a.links (.chunk p)
    live := a.live ++ [p] }

/-- `list_add_tail(&chunk->list, &arena->list); arena->num_chunks++;` -/
def linkChunk (a : Arena) (p : ℕ) : Arena :=
  { a with
    links := listAddTail a.links (.chunk p) .list
    numChunks := addW a.numChunks 1 }

/-- `list_add_tail(&chunk->list, &arena->chunks_free[class_idx]);`, for the same node once more. -/
def linkClass (a : Arena) (p c : ℕ) : Arena :=
  { a with links := listAddTail a.links (.chunk p) (.chunksFree c) }

/-- `atomic64_inc(&arena->alloc_ops)` -/
def countOp (a : Arena) : Arena := { a with allocOps := addW a.allocOps 1 }

/-- `atomic64_add_fetch` on both byte counters. -/
def countAllocated (a : Arena) (bytes : ℕ) : Arena :=
  { a with
    allocatedBytes := addW a.allocatedBytes bytes
    totalAllocated := addW a.totalAllocated bytes }

/-- `atomic64_add_fetch` on both byte counters. -/
def countFreed (a : Arena) (bytes : ℕ) : Arena :=
  { a with
    freedBytes := addW a.freedBytes bytes
    totalFreed := addW a.totalFreed bytes }

end Arena

/-- `arena_find_available_chunk`: the node the chunk pointer is made of. -/
def arenaFindAvailableChunk (a : Arena) (c : ℕ) : Option ArenaNode :=
  if !listEmpty a.links (.chunksPartial c) then a.links.next (.chunksPartial c)
  else if !listEmpty a.links (.chunksFree c) then a.links.next (.chunksFree c)
  else none

/-- The end of `arena_malloc` for a small request: a block of the chunk at `p`. -/
def arenaTakeSmall (a : Arena) (p c : ℕ) (env : MetaEnv) : Arena × Option ℕ :=
  let r := chunkAllocSmall (a.chunk p) c env
  let a := { a with chunk := Function.update a.chunk p r.chunk }
  match r.ptr with
  | none => (a, none)
  | some ptr => (a.countAllocated (classToSize c), some ptr)

/-- The end of `arena_malloc` for a large request: `r` is what `chunk_alloc_large` did to the new
chunk at `p`. -/
def arenaKeepLarge (a : Arena) (p size : ℕ) (r : Chunk × Option ℕ) : Arena × Option ℕ :=
  match r.2 with
  -- `chunk_destroy` gives the mapping back
  | none => (a, none)
  | some ptr => (((a.mapChunk p r.1).linkChunk p).countAllocated size, some ptr)

/-- The branch of `arena_malloc` for large requests: a chunk of its own. -/
def arenaMallocLarge (a : Arena) (size : ℕ) (env : ArenaEnv) : Arena × Option ℕ :=
  if a.maxChunks ≤ a.numChunks then (a, none)
  else
    match chunkCreate CHUNK_DEFAULT_SIZE env.base with
    | none => (a, none)
    | some chunk => arenaKeepLarge a chunk.baseAddr size (chunkAllocLarge chunk size)

/-- A chunk for a class, once it is created: it is linked twice. -/
def arenaAddSmall (a : Arena) (chunk : Chunk) (c : ℕ) : Arena :=
  ((a.mapChunk chunk.baseAddr chunk).linkChunk chunk.baseAddr).linkClass chunk.baseAddr c

/-- The branch of `arena_malloc` for small and medium requests: the chunk of the class. -/
def arenaMallocSmall (a : Arena) (c : ℕ) (env : ArenaEnv) : Arena × Option ℕ :=
  match arenaFindAvailableChunk a c with
  | some (.chunk p) => arenaTakeSmall a p c env.run
  | some _ => (a.lost, none)
  | none =>
    if a.maxChunks ≤ a.numChunks then (a, none)
    else
      match chunkCreate CHUNK_DEFAULT_SIZE env.base with
      | none => (a, none)
      | some chunk => arenaTakeSmall (arenaAddSmall a chunk c) chunk.baseAddr c env.run

/-- `arena_malloc` -/
def arenaMalloc (a : Arena) (size : ℕ) (env : ArenaEnv) : Arena × Option ℕ :=
  if size = 0 then (a, none)
  else if !a.active then (a, none)
  else if isLargeClassIdx (sizeToClass size) then arenaMallocLarge a.countOp size env
  else arenaMallocSmall a.countOp (sizeToClass size) env

/-- `chunk_get_utilization(chunk) < 0.1`: the quotient of a chunk of 2 MiB is exact, and the double
`0.1` is `3602879701896397 / 2^55`. -/
def chunkUtilizationLow (chunk : Chunk) : Bool :=
  decide (round53 chunk.allocatedBytes * 2 ^ 55 < 3602879701896397 * chunk.size)

/-- The loop of `arena_free` over the size classes: the first that the offset is a multiple of. -/
def arenaFreeClass (chunk : Chunk) (offset : ℕ) : ℕ × ℕ :=
  match (List.range NUM_SIZE_CLASSES).find? fun i =>
    classToSize i ≠ 0 ∧ offset % classToSize i = 0 ∧
      offset < subW chunk.size chunk.usableOffset with
  | some i => (i, classToSize i)
  | none => (0, 0)

/-- `arena_free` -/
def arenaFree (a : Arena) (ptr : ℕ) : Arena :=
  if ptr = 0 then a
  else if !a.active then a
  else
    let p := ptrToChunk ptr
    let chunk := a.chunk p
    if !ptrIsInChunk chunk ptr then a
    else
      let a := { a with freeOps := addW a.freeOps 1 }
      if chunk.isLarge then
        let size := subW chunk.allocatedBytes chunk.freedBytes
        let chunk := chunkFreeLarge chunk ptr size
        let a := { a with chunk := Function.update a.chunk p chunk }
        let a := a.countFreed size
        if chunkUtilizationLow chunk then
          { a with
            links := listDel a.links (.chunk p)
            live := a.live.erase p
            numChunks := subW a.numChunks 1 }
        else a
      else
        let usableBase := addW chunk.baseAddr chunk.usableOffset
        let offset := subW ptr usableBase
        let (c, size) := arenaFreeClass chunk offset
        let a := { a with chunk := Function.update a.chunk p (chunkFreeSmall chunk ptr c).1 }
        a.countFreed size

/-- The old size in `arena_realloc`.  The loop over the size classes does not skip the class of
size zero: it divides by zero there, which is `none`. -/
def arenaOldSize (chunk : Chunk) (ptr : ℕ) : Option ℕ :=
  if chunk.isLarge then some (subW chunk.allocatedBytes chunk.freedBytes)
  else
    let offset := subW ptr chunk.baseAddr
    match (List.range NUM_SIZE_CLASSES).find? fun i =>
      classToSize i = 0 ∨ offset % classToSize i = 0 ∧ offset < chunk.size with
    | some i => if classToSize i = 0 then none else some (classToSize i)
    | none => none

/-- `memcpy` -/
def memcpy (mem : ℕ → ℕ) (dst src n : ℕ) : ℕ → ℕ := fun x =>
  if dst ≤ x ∧ x < dst + n then mem (src + (x - dst)) else mem x

/-- `arena_realloc`, with the bytes of memory before and after. -/
def arenaRealloc (a : Arena) (mem : ℕ → ℕ) (ptr size : ℕ) (env : ArenaEnv) :
    Option (Arena × (ℕ → ℕ) × Option ℕ) :=
  if ptr = 0 then
    let (a, q) := arenaMalloc a size env
    some (a, mem, q)
  else if size = 0 then some (arenaFree a ptr, mem, none)
  else
    (arenaOldSize (a.chunk (ptrToChunk ptr)) ptr).map fun oldSize =>
      if size ≤ oldSize then (a, mem, some ptr)
      else
        match arenaMalloc a size env with
        | (a, none) => (a, mem, none)
        | (a, some q) => (arenaFree a ptr, memcpy mem q ptr oldSize, some q)

/-- The body of the loop of `arena_destroy`: a chunk that is not mapped cannot be unlinked. -/
def arenaDestroyBody (a : Arena) : ArenaNode → Option Arena
  | .chunk p =>
    if p ∈ a.live then
      some { a with links := listDel a.links (.chunk p), live := a.live.erase p }
    else none
  | _ => none

/-- `arena_destroy`, up to the release of the arena itself. -/
def arenaDestroy (rounds : ℕ) (a : Arena) : Option Arena :=
  let a := { a with active := false }
  let pos := a.links.next .list
  (forEachSafe Arena.links .list (fun _ => false) arenaDestroyBody rounds pos
    (pos.bind a.links.next) a).map fun a => { a with numChunks := 0 }

end Nomalloc
