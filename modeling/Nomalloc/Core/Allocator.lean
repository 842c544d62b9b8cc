import Nomalloc.Lib.Bytes
import Nomalloc.Lib.Heap
import Nomalloc.Utils.Math

/-!
# `core/allocator.c`: the public allocator over `__libc_malloc`

Every block comes from libc with 32 bytes of header in front of what the client gets.  The header
lives in memory: `get_header` reads the magic number 32 bytes before the client's pointer, and
`free`, `realloc` and `malloc_usable_size` believe the fields it finds there.

* `AllocHeader.write`, `getHeader`, `addHeader`
* `allocatorInit`, `allocatorShutdown`, also in the pieces between which other calls can be made
* `allocatorMalloc`, `allocatorFree`, `allocatorCalloc`, `allocatorRealloc`,
  `allocatorAlignedAlloc`, `allocatorMallocUsableSize`
* `allocatorGetActiveAllocations`
* `posixMemalign`, `memalign`, `valloc`, `alignedAlloc`, `pvalloc`, `xallocx` (`api/posix_api.c`)

What libc answers is an argument (`LibcEnv`); the calls made to it are kept in a log.  Pointers
are addresses, `NULL` is `0`.  The configuration, the table of thread caches, the lock and the
log system of `g_allocator` are left out: these functions do not read them.
-/

namespace Nomalloc

open Bytes

/-- `sizeof(struct alloc_header)` -/
def ALLOC_HEADER_SIZE : ℕ := 32
def ALLOC_HEADER_ALIGNMENT : ℕ := 16
def ALLOC_MAGIC : ℕ := 0x4E4F4D41

/-! ## headers -/

namespace AllocHeader

/-- `header->raw_ptr` of the header at `h`. -/
def rawPtr (m : Mem) (h : ℕ) : ℕ := load m h 8

/-- `header->size` -/
def size (m : Mem) (h : ℕ) : ℕ := load m (h + 8) 8

/-- `header->requested_size` -/
def requestedSize (m : Mem) (h : ℕ) : ℕ := load m (h + 16) 8

/-- `header->magic` -/
def magic (m : Mem) (h : ℕ) : ℕ := load m (h + 24) 4

/-- `header->flags` -/
def flags (m : Mem) (h : ℕ) : ℕ := load m (h + 28) 4

/-- `header->requested_size = size` -/
def setRequestedSize (m : Mem) (h size : ℕ) : Mem := store m (h + 16) 8 size

/-- Fill in the header at `h`. -/
def write (m : Mem) (h rawPtr size requestedSize flags : ℕ) : Mem :=
  store (store (setRequestedSize (store (store m h 8 rawPtr) (h + 8) 8 size) h requestedSize)
    (h + 24) 4 ALLOC_MAGIC) (h + 28) 4 flags

end AllocHeader

/-- `get_header`: the address of the header before `userPtr`, if there is one. -/
def getHeader (m : Mem) (userPtr : ℕ) : Option ℕ :=
  if userPtr = 0 then none
  else if userPtr < ALLOC_HEADER_SIZE then none
  else if AllocHeader.magic m (userPtr - ALLOC_HEADER_SIZE) ≠ ALLOC_MAGIC then none
  else some (userPtr - ALLOC_HEADER_SIZE)

/-- `allocator_malloc_usable_size` -/
def allocatorMallocUsableSize (m : Mem) (ptr : ℕ) : ℕ :=
  if ptr = 0 then 0
  else match getHeader m ptr with
    | none => 0
    | some header => AllocHeader.requestedSize m header

namespace AllocHeader
variable {m m' : Mem} {h raw n req fl x : ℕ}

@[simp] theorem magic_write : magic (write m h raw n req fl) h = ALLOC_MAGIC := by
  unfold magic write
  rw [load_store_other (by omega)]
  exact load_store_of_lt (by decide)

theorem requestedSize_write (hreq : req < wordSize) :
    requestedSize (write m h raw n req fl) h = req := by
  unfold requestedSize write setRequestedSize
  rw [load_store_other (by omega), load_store_other (by omega)]
  exact load_store_of_lt hreq

theorem rawPtr_write (hraw : raw < wordSize) : rawPtr (write m h raw n req fl) h = raw := by
  unfold rawPtr write setRequestedSize
  rw [load_store_other (by omega), load_store_other (by omega), load_store_other (by omega),
    load_store_other (by omega)]
  exact load_store_of_lt hraw

/-- A header takes 32 bytes. -/
theorem write_outside (hx : x < h ∨ h + 32 ≤ x) : write m h raw n req fl x = m x := by
  unfold write setRequestedSize
  rw [store_outside (by omega), store_outside (by omega), store_outside (by omega),
    store_outside (by omega), store_outside (by omega)]

theorem setRequestedSize_outside (hx : x < h + 16 ∨ h + 24 ≤ x) :
    setRequestedSize m h n x = m x := store_outside (by omega)

theorem requestedSize_set (hn : n < wordSize) :
    requestedSize (setRequestedSize m h n) h = n := load_store_of_lt hn

theorem rawPtr_set : rawPtr (setRequestedSize m h n) h = rawPtr m h :=
  load_store_other (by omega)

theorem magic_set : magic (setRequestedSize m h n) h = magic m h := load_store_other (by omega)

theorem magic_congr (hs : SameOn m m' h 32) : magic m' h = magic m h :=
  load_congr (hs.sub (by omega) (by omega))

theorem requestedSize_congr (hs : SameOn m m' h 32) : requestedSize m' h = requestedSize m h :=
  load_congr (hs.sub (by omega) (by omega))

theorem rawPtr_congr (hs : SameOn m m' h 32) : rawPtr m' h = rawPtr m h :=
  load_congr (hs.sub (by omega) (by omega))

theorem requestedSize_lt (m : Mem) (h : ℕ) : requestedSize m h < wordSize := load_lt _ _ 8

end AllocHeader

theorem getHeader_eq_some {m : Mem} {p h : ℕ} : getHeader m p = some h ↔
    32 ≤ p ∧ h = p - 32 ∧ AllocHeader.magic m (p - 32) = ALLOC_MAGIC := by
  unfold getHeader ALLOC_HEADER_SIZE
  split_ifs with h0 h1 h2
  · exact ⟨(fun hf => nomatch hf), fun hf => by omega⟩
  · exact ⟨(fun hf => nomatch hf), fun hf => by omega⟩
  · exact ⟨(fun hf => nomatch hf), fun hf => absurd hf.2.2 h2⟩
  · rw [Option.some.injEq]
    exact ⟨fun hf => ⟨by omega, hf.symm, not_not.1 h2⟩, fun hf => hf.2.1.symm⟩

theorem usableSize_of_header {m : Mem} {p : ℕ} (hp : 32 ≤ p)
    (hm : AllocHeader.magic m (p - 32) = ALLOC_MAGIC) :
    allocatorMallocUsableSize m p = AllocHeader.requestedSize m (p - 32) := by
  unfold allocatorMallocUsableSize
  rw [if_neg (by omega), getHeader_eq_some.2 ⟨hp, rfl, hm⟩]

/-! ## the state -/

/-- The part of `g_allocator` that the functions here use, `g_allocator_initializing`, the memory
and the calls made to libc. -/
structure Allocator where
  initialized : Bool
  initializing : Bool
  totalAllocated : ℕ
  totalFreed : ℕ
  mem : Mem
  log : List Heap.Event

/-- What the environment answers during one call: the address libc returns (`0` for `NULL`), and
whether the three subsystems started by `allocator_init` come up. -/
structure LibcEnv where
  raw : ℕ
  arenaManagerInit : Bool
  arenaCreate : Bool
  keyCreate : Bool

namespace Allocator

/-- The libc blocks in use. -/
def blocks (s : Allocator) : List Heap.Block := Heap.live s.log

def setMem (s : Allocator) (m : Mem) : Allocator := { s with mem := m }

/-- The two flags and the two counters. -/
def setState (s : Allocator) (initialized initializing : Bool) (allocated freed : ℕ) : Allocator :=
  ⟨initialized, initializing, allocated, freed, s.mem, s.log⟩

/-- A block handed out by libc. -/
def obtain (s : Allocator) (b : Heap.Block) : Allocator := { s with log := .got b :: s.log }

/-- `atomic64_add_fetch(&total_allocated, size)` -/
def countAllocated (s : Allocator) (size : ℕ) : Allocator :=
  s.setState s.initialized s.initializing (addW s.totalAllocated size) s.totalFreed

/-- `atomic64_add_fetch(&total_freed, size)` -/
def countFreed (s : Allocator) (size : ℕ) : Allocator :=
  s.setState s.initialized s.initializing s.totalAllocated (addW s.totalFreed size)

/-! ## libc -/

/-- `__libc_malloc` -/
def libcMalloc (s : Allocator) (size : ℕ) (env : LibcEnv) : ℕ × Allocator :=
  if env.raw = 0 then (0, s) else (env.raw, s.obtain ⟨env.raw, size⟩)

/-- `__libc_calloc` -/
def libcCalloc (s : Allocator) (nmemb size : ℕ) (env : LibcEnv) : ℕ × Allocator :=
  if env.raw = 0 then (0, s)
  else (env.raw, (s.obtain ⟨env.raw, nmemb * size⟩).setMem (fill s.mem env.raw (nmemb * size) 0))

/-- `__libc_free` -/
def libcFree (s : Allocator) (ptr : ℕ) : Allocator := { s with log := .gave ptr :: s.log }

section updates
variable (s : Allocator) (n : ℕ)

@[simp] theorem libcFree_mem : (s.libcFree n).mem = s.mem := rfl

@[simp] theorem libcFree_log : (s.libcFree n).log = .gave n :: s.log := rfl

@[simp] theorem countAllocated_mem : (s.countAllocated n).mem = s.mem := by
  dsimp only [countAllocated, setState]

@[simp] theorem countAllocated_log : (s.countAllocated n).log = s.log := by
  dsimp only [countAllocated, setState]

@[simp] theorem countAllocated_initialized :
    (s.countAllocated n).initialized = s.initialized := by
  dsimp only [countAllocated, setState]

@[simp] theorem countAllocated_initializing :
    (s.countAllocated n).initializing = s.initializing := by
  dsimp only [countAllocated, setState]

@[simp] theorem countFreed_initialized : (s.countFreed n).initialized = s.initialized := by
  dsimp only [countFreed, setState]

@[simp] theorem countFreed_initializing : (s.countFreed n).initializing = s.initializing := by
  dsimp only [countFreed, setState]

@[simp] theorem libcFree_initialized : (s.libcFree n).initialized = s.initialized := rfl

@[simp] theorem libcFree_initializing : (s.libcFree n).initializing = s.initializing := rfl

@[simp] theorem countAllocated_totalAllocated :
    (s.countAllocated n).totalAllocated = addW s.totalAllocated n := by
  dsimp only [countAllocated, setState]

@[simp] theorem countAllocated_totalFreed : (s.countAllocated n).totalFreed = s.totalFreed := by
  dsimp only [countAllocated, setState]

@[simp] theorem countFreed_totalAllocated :
    (s.countFreed n).totalAllocated = s.totalAllocated := by
  dsimp only [countFreed, setState]

@[simp] theorem countFreed_totalFreed :
    (s.countFreed n).totalFreed = addW s.totalFreed n := by
  dsimp only [countFreed, setState]

@[simp] theorem libcFree_totalAllocated : (s.libcFree n).totalAllocated = s.totalAllocated := rfl

@[simp] theorem libcFree_totalFreed : (s.libcFree n).totalFreed = s.totalFreed := rfl

@[simp] theorem countFreed_mem : (s.countFreed n).mem = s.mem := by
  dsimp only [countFreed, setState]

@[simp] theorem countFreed_log : (s.countFreed n).log = s.log := by
  dsimp only [countFreed, setState]

@[simp] theorem obtain_initialized (b : Heap.Block) : (s.obtain b).initialized = s.initialized := rfl

@[simp] theorem obtain_initializing (b : Heap.Block) : (s.obtain b).initializing = s.initializing :=
  rfl

@[simp] theorem setMem_initialized (m : Mem) : (s.setMem m).initialized = s.initialized := rfl

@[simp] theorem setMem_initializing (m : Mem) : (s.setMem m).initializing = s.initializing := rfl

end updates

/-- The size of the libc block at `ptr`. -/
def sizeOfBlock (s : Allocator) (ptr : ℕ) : ℕ :=
  match s.blocks.find? (·.addr = ptr) with
  | none => 0
  | some b => b.size

/-- `__libc_realloc`: the block at `ptr` is given up for one that begins with its bytes. -/
def libcRealloc (s : Allocator) (ptr size : ℕ) (env : LibcEnv) : ℕ × Allocator :=
  if ptr = 0 then s.libcMalloc size env
  else if size = 0 then (0, s.libcFree ptr)
  else if env.raw = 0 then (0, s)
  else (env.raw, ((s.libcFree ptr).obtain ⟨env.raw, size⟩).setMem
    (copy s.mem env.raw ptr (min size (s.sizeOfBlock ptr))))

/-! ## `allocator_init`, `allocator_shutdown` -/

/-- `allocator_init` up to the start of its subsystems. -/
def initEnter (s : Allocator) : Allocator := s.setState false true 0 0

/-- `g_allocator.initialized = true`, before the subsystems are up. -/
def initMark (s : Allocator) : Allocator := s.setState true true s.totalAllocated s.totalFreed

/-- The successful end of `allocator_init`. -/
def initDone (s : Allocator) : Allocator := s.setState s.initialized false 0 0

/-- A subsystem of `allocator_init` failed. -/
def initFail (s : Allocator) : Allocator := s.setState false false s.totalAllocated s.totalFreed

/-- `allocator_init` -/
def allocatorInit (s : Allocator) (env : LibcEnv) : ℤ × Allocator :=
  if s.initialized then (0, s)
  else if s.initializing then (-1, s)
  else
    let s := s.initEnter.initMark
    if !env.arenaManagerInit then (-1, s.initFail)
    else if !env.arenaCreate then (-1, s.initFail)
    else if !env.keyCreate then (-1, s.initFail)
    else (0, s.initDone)

/-- `allocator_shutdown` before the subsystems are torn down. -/
def shutdownEnter (s : Allocator) : Allocator :=
  s.setState s.initialized true s.totalAllocated s.totalFreed

/-- The counters and `g_allocator` are cleared. -/
def shutdownClear (s : Allocator) : Allocator := s.setState false s.initializing 0 0

/-- The end of `allocator_shutdown`. -/
def shutdownLeave (s : Allocator) : Allocator :=
  s.setState s.initialized false s.totalAllocated s.totalFreed

/-- `allocator_shutdown` -/
def allocatorShutdown (s : Allocator) : Allocator :=
  let s := s.shutdownEnter
  if !s.initialized then s.shutdownLeave else s.shutdownClear.shutdownLeave

/-! ## the allocation functions -/

/-- How `allocator_malloc`, `allocator_calloc`, `allocator_realloc` and `allocator_aligned_alloc`
begin: during initialisation they fall back on libc, before it they initialise. -/
def whenReady (s : Allocator) (env : LibcEnv) (fallback body : Allocator → ℕ × Allocator) :
    ℕ × Allocator :=
  if s.initialized then body s
  else if s.initializing then fallback s
  else
    let (rc, s) := s.allocatorInit env
    if rc ≠ 0 then (0, s) else body s

/-- `add_header` -/
def addHeader (s : Allocator) (rawPtr size requestedSize : ℕ) : ℕ × Allocator :=
  if rawPtr = 0 then (0, s)
  else (addW rawPtr ALLOC_HEADER_SIZE,
    s.setMem (AllocHeader.write s.mem rawPtr rawPtr size requestedSize 0))

/-- What `allocator_malloc` and `allocator_realloc` ask libc for. -/
def totalSize (size : ℕ) : ℕ :=
  addW (addW (alignUp size ALLOC_HEADER_ALIGNMENT) ALLOC_HEADER_SIZE) ALLOC_HEADER_ALIGNMENT

/-- `allocator_malloc` on an initialised allocator. -/
def mallocReady (s : Allocator) (size : ℕ) (env : LibcEnv) : ℕ × Allocator :=
  let size := if size = 0 then 1 else size
  let (rawPtr, s) := s.libcMalloc (totalSize size) env
  if rawPtr = 0 then (0, s)
  else
    let (userPtr, s) := s.addHeader rawPtr (totalSize size) size
    (userPtr, s.countAllocated size)

/-- `allocator_malloc` -/
def allocatorMalloc (s : Allocator) (size : ℕ) (env : LibcEnv) : ℕ × Allocator :=
  s.whenReady env (fun s => s.libcMalloc size env) (fun s => s.mallocReady size env)

/-- `allocator_free` -/
def allocatorFree (s : Allocator) (ptr : ℕ) : Allocator :=
  if ptr = 0 then s
  else if !s.initialized || s.initializing then s.libcFree ptr
  else match getHeader s.mem ptr with
    | some header =>
      (s.countFreed (AllocHeader.requestedSize s.mem header)).libcFree
        (AllocHeader.rawPtr s.mem header)
    | none => s.libcFree ptr

/-- `nmemb * size`, in 64-bit arithmetic, and at least 1. -/
def totalElements (nmemb size : ℕ) : ℕ :=
  if nmemb * size % wordSize = 0 then 1 else nmemb * size % wordSize

/-- `allocator_calloc` -/
def allocatorCalloc (s : Allocator) (nmemb size : ℕ) (env : LibcEnv) : ℕ × Allocator :=
  s.whenReady env (fun s => s.libcCalloc nmemb size env) fun s =>
    let (ptr, s) := s.allocatorMalloc (totalElements nmemb size) env
    if ptr ≠ 0 then (ptr, s.setMem (fill s.mem ptr (totalElements nmemb size) 0)) else (ptr, s)

/-- The part of `allocator_realloc` that moves a block which has to grow. -/
def reallocGrow (s : Allocator) (ptr header size : ℕ) (env : LibcEnv) : ℕ × Allocator :=
  let oldRequestedSize := AllocHeader.requestedSize s.mem header
  let (newRawPtr, s) := s.libcMalloc (totalSize size) env
  if newRawPtr = 0 then (0, s)
  else
    let userPtr := addW newRawPtr ALLOC_HEADER_SIZE
    let s := s.setMem (copy s.mem userPtr ptr oldRequestedSize)
    let s := s.setMem (AllocHeader.write s.mem newRawPtr newRawPtr (totalSize size) size 0)
    let s := (s.countFreed oldRequestedSize).countAllocated size
    (userPtr, s.libcFree (AllocHeader.rawPtr s.mem header))

/-- `allocator_realloc` -/
def allocatorRealloc (s : Allocator) (ptr size : ℕ) (env : LibcEnv) : ℕ × Allocator :=
  s.whenReady env (fun s => s.libcRealloc ptr size env) fun s =>
    if ptr = 0 then s.allocatorMalloc size env
    else if size = 0 then (0, s.allocatorFree ptr)
    else match getHeader s.mem ptr with
      | none => s.libcRealloc ptr size env
      | some header =>
        if size ≤ AllocHeader.requestedSize s.mem header then
          (ptr, s.setMem (AllocHeader.setRequestedSize s.mem header size))
        else s.reallocGrow ptr header size env

/-- Both branches of `allocator_aligned_alloc` that allocate: room for the alignment, and the
header right before the aligned address. -/
def alignedPlace (s : Allocator) (alignment size : ℕ) (env : LibcEnv) : ℕ × Allocator :=
  let allocSize := addW (addW size alignment) ALLOC_HEADER_SIZE
  let (rawPtr, s) := s.libcMalloc allocSize env
  if rawPtr = 0 then (0, s)
  else
    let userAddrTarget := alignUp (addW rawPtr ALLOC_HEADER_SIZE) alignment
    let headerAddr := subW userAddrTarget ALLOC_HEADER_SIZE
    (userAddrTarget,
      s.setMem (AllocHeader.write s.mem headerAddr rawPtr allocSize size alignment))

/-- `allocator_aligned_alloc`: only an initialised allocator checks the alignment and the size. -/
def allocatorAlignedAlloc (s : Allocator) (alignment size : ℕ) (env : LibcEnv) : ℕ × Allocator :=
  s.whenReady env (fun s => s.alignedPlace alignment size env) fun s =>
    if !isPowerOfTwo alignment || alignment = 0 then (0, s)
    else s.alignedPlace alignment (if size = 0 then 1 else size) env

/-- `allocator_get_active_allocations` -/
def allocatorGetActiveAllocations (s : Allocator) : ℕ := subW s.totalAllocated s.totalFreed

/-! ## `api/posix_api.c` -/

def EINVAL : ℕ := 22
def ENOMEM : ℕ := 12

/-- `sizeof(void*)` -/
def SIZEOF_POINTER : ℕ := 8

/-- `posix_memalign`: the code returned, and what is stored in `*memptr`. -/
def posixMemalign (s : Allocator) (memptr alignment size : ℕ) (env : LibcEnv) :
    (ℕ × Option ℕ) × Allocator :=
  if memptr = 0 then ((EINVAL, none), s)
  else if !isPowerOfTwo alignment || alignment < SIZEOF_POINTER then ((EINVAL, none), s)
  else if size = 0 then ((0, some 0), s)
  else
    let (ptr, s) := s.allocatorAlignedAlloc alignment size env
    if ptr = 0 then ((ENOMEM, none), s) else ((0, some ptr), s)

/-- `memalign` -/
def memalign (s : Allocator) (alignment size : ℕ) (env : LibcEnv) : ℕ × Allocator :=
  if alignment = 0 || !isPowerOfTwo alignment then (0, s)
  else s.allocatorAlignedAlloc alignment size env

def PAGE_SIZE_DEFAULT : ℕ := 4096

/-- `get_page_size`, from the answer of `sysconf(_SC_PAGESIZE)`. -/
def getPageSize (sysconf : ℕ) : ℕ := if sysconf = 0 then PAGE_SIZE_DEFAULT else sysconf

/-- `valloc` -/
def valloc (s : Allocator) (sysconf size : ℕ) (env : LibcEnv) : ℕ × Allocator :=
  s.allocatorAlignedAlloc (getPageSize sysconf) size env

/-- `aligned_alloc` -/
def alignedAlloc (s : Allocator) (alignment size : ℕ) (env : LibcEnv) : ℕ × Allocator :=
  if alignment = 0 || !isPowerOfTwo alignment then (0, s)
  else s.allocatorAlignedAlloc alignment (alignUp (if size = 0 then 1 else size) alignment) env

/-- `pvalloc` -/
def pvalloc (s : Allocator) (sysconf size : ℕ) (env : LibcEnv) : ℕ × Allocator :=
  s.allocatorAlignedAlloc (getPageSize sysconf) (alignUp size (getPageSize sysconf)) env

/-- `xallocx`: the size it returns. -/
def xallocx (s : Allocator) (ptr size extra : ℕ) (env : LibcEnv) : ℕ × Allocator :=
  if ptr = 0 then (0, s)
  else
    let oldSize := allocatorMallocUsableSize s.mem ptr
    let newSize := addW size extra
    if newSize ≤ oldSize then (oldSize, s)
    else
      let (newPtr, s) := s.allocatorRealloc ptr newSize env
      if newPtr = 0 then (oldSize, s) else (allocatorMallocUsableSize s.mem newPtr, s)

end Allocator
end Nomalloc
