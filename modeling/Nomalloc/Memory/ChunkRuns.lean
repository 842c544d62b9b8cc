import Nomalloc.Memory.Chunk

/-!
# The run lists of a chunk

What `chunk_alloc_small` and `chunk_free_small` keep of a chunk, for every class and every
history.

* `RunOk c r`            the record `r` is a run of class `c`, and its free count agrees with its
                         bitmap;
* `RunsOk c free full`   the two lists of class `c`: at most one run is open, an open run has a
                         free block, a linked run has a used one, no record is linked twice;
* `ChunkOk`              the geometry of the mapping, and `RunsOk` of every class;
* `Allocated chunk c a b`   block `b` of the run at `a` of class `c` is marked in use.

`chunkAllocSmall_spec` says that a successful allocation marks one block that was free, and
`chunkFreeSmall_cases` that a free clears one marked block or changes nothing.
-/

namespace Nomalloc

/-- The address that block offsets are counted from. -/
def usableBase (chunk : Chunk) : ℕ := chunk.baseAddr + chunk.usableOffset

structure RunOk (c : ℕ) (r : ChunkRun) : Prop where
  cls : r.sizeClass = c
  size : r.blockSize = classToSize c
  pos : 0 < classToSize c
  le : classToSize c ≤ CHUNK_RUN_SIZE
  blocks : r.numBlocks = CHUNK_RUN_SIZE / r.blockSize
  words : r.allocBitmap.length = bitmapSize r.numBlocks
  count : r.freeBlocksCount + setCount r.allocBitmap r.numBlocks = r.numBlocks

/-- What a linked record keeps whatever is freed, without the bound on its class: a class above
4096 bytes has runs of no block. -/
structure RunKept (c : ℕ) (r : ChunkRun) : Prop where
  cls : r.sizeClass = c
  size : r.blockSize = classToSize c
  pos : 0 < classToSize c
  blocks : r.numBlocks = CHUNK_RUN_SIZE / r.blockSize
  words : r.allocBitmap.length = bitmapSize r.numBlocks
  count : r.freeBlocksCount + setCount r.allocBitmap r.numBlocks = r.numBlocks

theorem RunKept.ok {c : ℕ} {r : ChunkRun} (h : RunKept c r) (hle : classToSize c ≤ CHUNK_RUN_SIZE) :
    RunOk c r := ⟨h.cls, h.size, h.pos, hle, h.blocks, h.words, h.count⟩

structure RunsOk (c : ℕ) (free full : List ChunkRun) : Prop where
  short : free.length ≤ 1
  run : ∀ r ∈ free ++ full, RunOk c r
  vacant : ∀ r ∈ free, 0 < r.freeBlocksCount
  used : ∀ r ∈ free ++ full, r.freeBlocksCount < r.numBlocks
  nodup : ((free ++ full).map ChunkRun.addr).Nodup

structure ChunkOk (chunk : Chunk) : Prop where
  offset : chunk.usableOffset = SIZEOF_CHUNK
  large : CHUNK_DEFAULT_SIZE ≤ chunk.size
  fits : chunk.baseAddr + chunk.size ≤ wordSize
  runs : ∀ c, RunsOk c (chunk.runsFree c) (chunk.runsFull c)

/-- Block `b` of the run record at `a`, linked under class `c`, is marked in use. -/
def Allocated (chunk : Chunk) (c a b : ℕ) : Prop :=
  ∃ r ∈ chunk.runsFree c ++ chunk.runsFull c,
    r.addr = a ∧ b < r.numBlocks ∧ bitmapGet r.allocBitmap b = true

/-- No run record of the chunk is at `a`: libc hands out addresses that are not in use. -/
def FreshRun (chunk : Chunk) (a : ℕ) : Prop :=
  ∀ c, ∀ r ∈ chunk.runsFree c ++ chunk.runsFull c, r.addr ≠ a

/-- The mapping holds the record of the chunk and a run after it. -/
structure Mapped (chunk : Chunk) : Prop where
  offset : chunk.usableOffset = SIZEOF_CHUNK
  large : CHUNK_DEFAULT_SIZE ≤ chunk.size
  fits : chunk.baseAddr + chunk.size ≤ wordSize

theorem ChunkOk.mapped {chunk : Chunk} (h : ChunkOk chunk) : Mapped chunk :=
  ⟨h.offset, h.large, h.fits⟩

/-- The part of `struct chunk` that allocations and frees of small blocks leave alone. -/
structure SameFrame (chunk chunk' : Chunk) : Prop where
  baseAddr : chunk'.baseAddr = chunk.baseAddr
  size : chunk'.size = chunk.size
  usableOffset : chunk'.usableOffset = chunk.usableOffset
  isLarge : chunk'.isLarge = chunk.isLarge
  runs : chunk'.runs = chunk.runs

theorem SameFrame.usableBase {chunk chunk' : Chunk} (h : SameFrame chunk chunk') :
    usableBase chunk' = usableBase chunk := by
  unfold Nomalloc.usableBase
  rw [h.baseAddr, h.usableOffset]

theorem Mapped.congr {chunk chunk' : Chunk} (h : Mapped chunk) (hs : SameFrame chunk chunk') :
    Mapped chunk' := by
  refine ⟨hs.usableOffset.trans h.offset, ?_, ?_⟩
  · rw [hs.size]
    exact h.large
  · rw [hs.baseAddr, hs.size]
    exact h.fits

theorem SameFrame.refl (chunk : Chunk) : SameFrame chunk chunk := ⟨rfl, rfl, rfl, rfl, rfl⟩

theorem SameFrame.update (chunk : Chunk) (runsFree runsFull : ℕ → List ChunkRun)
    (numRuns allocatedBytes freedBytes : ℕ) :
    SameFrame chunk { chunk with
      runsFree := runsFree
      runsFull := runsFull
      numRuns := numRuns
      allocatedBytes := allocatedBytes
      freedBytes := freedBytes } := ⟨rfl, rfl, rfl, rfl, rfl⟩

theorem SameFrame.trans {chunk chunk' chunk'' : Chunk} (h : SameFrame chunk chunk')
    (h' : SameFrame chunk' chunk'') : SameFrame chunk chunk'' :=
  ⟨h'.baseAddr.trans h.baseAddr, h'.size.trans h.size, h'.usableOffset.trans h.usableOffset,
    h'.isLarge.trans h.isLarge, h'.runs.trans h.runs⟩

theorem chunkTakeBlock_frame (chunk : Chunk) (c : ℕ) (run : ChunkRun) (calls : List LibcCall) :
    SameFrame chunk (chunkTakeBlock chunk c run calls).chunk := by
  unfold chunkTakeBlock
  extract_lets blockIdx run' runIdx base runBase ptr allocated
  by_cases h1 : run.numBlocks ≤ blockIdx
  · rw [if_pos h1]
    exact SameFrame.refl chunk
  · rw [if_neg h1]
    by_cases h2 : run'.freeBlocksCount = 0
    · rw [if_pos h2]
      exact SameFrame.update chunk ..
    · rw [if_neg h2]
      exact SameFrame.update chunk ..

theorem chunkAllocSmall_frame (chunk : Chunk) (c : ℕ) (env : MetaEnv) :
    SameFrame chunk (chunkAllocSmall chunk c env).chunk := by
  unfold chunkAllocSmall
  rcases chunkFindAvailableRun chunk c with _ | run
  · rcases env with ⟨_ | a, bitmap⟩
    · exact SameFrame.refl chunk
    · generalize classToSize c = blockSize
      by_cases hz : blockSize = 0
      · simp only [hz, if_true]
        exact SameFrame.refl chunk
      · rcases bitmap with _ | b
        · simp only [hz, if_false]
          exact SameFrame.refl chunk
        · simp only [hz, if_false]
          refine SameFrame.trans ?_ (chunkTakeBlock_frame _ c _ _)
          exact SameFrame.update chunk ..
  · exact chunkTakeBlock_frame chunk c run []

theorem SameFrame.ite {p : Prop} [Decidable p] {chunk : Chunk} {x y : Chunk × List LibcCall}
    (hx : SameFrame chunk x.1) (hy : SameFrame chunk y.1) :
    SameFrame chunk (if p then x else y).1 := by
  by_cases hp : p
  · rw [if_pos hp]
    exact hx
  · rw [if_neg hp]
    exact hy

theorem chunkFreeSmall_frame (chunk : Chunk) (ptr c : ℕ) :
    SameFrame chunk (chunkFreeSmall chunk ptr c).1 := by
  unfold chunkFreeSmall
  refine SameFrame.ite (SameFrame.refl chunk) ?_
  dsimp only
  generalize subW ptr (addW chunk.baseAddr chunk.usableOffset) = offset
  rcases chunkFindRun chunk c (offset / CHUNK_RUN_SIZE) with _ | run
  · exact SameFrame.refl chunk
  · dsimp only
    refine SameFrame.ite (SameFrame.refl chunk) ?_
    refine SameFrame.ite (SameFrame.refl chunk) ?_
    refine SameFrame.ite (SameFrame.refl chunk) ?_
    exact SameFrame.ite (SameFrame.update chunk ..) (SameFrame.update chunk ..)

/-! ## one run -/

namespace ChunkRun

/-- The block that `chunk_alloc_small` takes from this run. -/
def firstFree (run : ChunkRun) : ℕ := bitmapFindFirstClear run.allocBitmap run.numBlocks

/-- The record once block `b` is marked. -/
def take (run : ChunkRun) (b : ℕ) : ChunkRun :=
  { run with
    allocBitmap := bitmapSet run.allocBitmap b
    freeBlocksCount := subW run.freeBlocksCount 1 }

/-- The record once block `b` is cleared. -/
def release (run : ChunkRun) (b : ℕ) : ChunkRun :=
  { run with
    allocBitmap := bitmapClearBit run.allocBitmap b
    freeBlocksCount := addW run.freeBlocksCount 1 }

@[simp] theorem take_addr (run : ChunkRun) (b : ℕ) : (run.take b).addr = run.addr := rfl

@[simp] theorem release_addr (run : ChunkRun) (b : ℕ) : (run.release b).addr = run.addr := rfl

@[simp] theorem take_numBlocks (run : ChunkRun) (b : ℕ) :
    (run.take b).numBlocks = run.numBlocks := rfl

@[simp] theorem release_numBlocks (run : ChunkRun) (b : ℕ) :
    (run.release b).numBlocks = run.numBlocks := rfl

theorem bit_release (run : ChunkRun) (b k : ℕ) :
    bitmapGet (run.release b).allocBitmap k = (!decide (k = b) && bitmapGet run.allocBitmap k) :=
  bitmapGet_clearBit _ _ _

theorem firstFree_clear {run : ChunkRun} (h : run.firstFree < run.numBlocks) :
    bitmapGet run.allocBitmap run.firstFree = false :=
  (bitmapFindFirstClear_spec run.allocBitmap run.numBlocks).2.1 h

end ChunkRun

namespace RunKept

variable {c b : ℕ} {run : ChunkRun}

theorem numBlocks_le (h : RunKept c run) : run.numBlocks ≤ 4096 := by
  rw [h.blocks]
  exact Nat.div_le_self _ _

theorem blockSize_pos (h : RunKept c run) : 0 < run.blockSize := by
  rw [h.size]
  exact h.pos

theorem block_end_le (h : RunKept c run) (hb : b < run.numBlocks) :
    b * run.blockSize + run.blockSize ≤ 4096 := by
  have hmul : run.numBlocks * run.blockSize ≤ 4096 := by
    rw [h.blocks]
    exact Nat.div_mul_le_self _ _
  calc b * run.blockSize + run.blockSize = (b + 1) * run.blockSize := by ring
    _ ≤ run.numBlocks * run.blockSize := Nat.mul_le_mul_right _ hb
    _ ≤ 4096 := hmul

theorem word_lt (h : RunKept c run) (hb : b < run.numBlocks) :
    b / 64 < run.allocBitmap.length := by
  rw [h.words]
  exact div_lt_bitmapSize hb

/-- A run that counts a free block has one. -/
theorem firstFree_lt (h : RunKept c run) (hfree : 0 < run.freeBlocksCount) :
    run.firstFree < run.numBlocks := by
  refine bitmapFindFirstClear_lt ?_
  have := h.count
  omega

/-- A run with a clear bit counts a free block. -/
theorem free_pos (h : RunKept c run) (hb : b < run.numBlocks)
    (hclear : bitmapGet run.allocBitmap b = false) : 0 < run.freeBlocksCount := by
  have := setCount_lt hb hclear
  have := h.count
  omega

/-- A run with a marked block counts fewer free blocks than it has. -/
theorem count_lt (h : RunKept c run) (hb : b < run.numBlocks)
    (hset : bitmapGet run.allocBitmap b = true) : run.freeBlocksCount < run.numBlocks := by
  have := setCount_pos hb hset
  have := h.count
  omega

theorem take_count (h : RunKept c run) (hfree : 0 < run.freeBlocksCount) :
    (run.take b).freeBlocksCount = run.freeBlocksCount - 1 := by
  refine subW_eq hfree ?_
  have h1 := h.count
  have h2 := h.numBlocks_le
  rw [wordSize_eq]
  omega

theorem release_count (h : RunKept c run) :
    (run.release b).freeBlocksCount = run.freeBlocksCount + 1 := by
  refine addW_eq ?_
  have h1 := h.count
  have h2 := h.numBlocks_le
  rw [wordSize_eq]
  omega

theorem take (h : RunKept c run) (hb : b < run.numBlocks)
    (hclear : bitmapGet run.allocBitmap b = false) : RunKept c (run.take b) := by
  refine ⟨h.cls, h.size, h.pos, h.blocks, (length_bitmapSet _ _).trans h.words, ?_⟩
  have hfree := h.free_pos hb hclear
  rw [h.take_count hfree]
  have hset := setCount_set hb (h.word_lt hb) hclear
  have := h.count
  show run.freeBlocksCount - 1 + setCount (bitmapSet run.allocBitmap b) run.numBlocks =
    run.numBlocks
  omega

theorem release (h : RunKept c run) (hb : b < run.numBlocks)
    (hset : bitmapGet run.allocBitmap b = true) : RunKept c (run.release b) := by
  refine ⟨h.cls, h.size, h.pos, h.blocks, (length_bitmapClearBit _ _).trans h.words, ?_⟩
  rw [h.release_count]
  have hclear := setCount_clearBit hb hset
  have := h.count
  show run.freeBlocksCount + 1 + setCount (bitmapClearBit run.allocBitmap b) run.numBlocks =
    run.numBlocks
  omega

theorem bit_take (h : RunKept c run) (hb : b < run.numBlocks) (k : ℕ) :
    bitmapGet (run.take b).allocBitmap k = (decide (k = b) || bitmapGet run.allocBitmap k) :=
  bitmapGet_set _ _ _ (h.word_lt hb)

end RunKept

namespace RunOk

variable {c b : ℕ} {run : ChunkRun}

theorem kept (h : RunOk c run) : RunKept c run :=
  ⟨h.cls, h.size, h.pos, h.blocks, h.words, h.count⟩

theorem take (h : RunOk c run) (hb : b < run.numBlocks)
    (hclear : bitmapGet run.allocBitmap b = false) : RunOk c (run.take b) :=
  (h.kept.take hb hclear).ok h.le

theorem release (h : RunOk c run) (hb : b < run.numBlocks)
    (hset : bitmapGet run.allocBitmap b = true) : RunOk c (run.release b) :=
  (h.kept.release hb hset).ok h.le

end RunOk

/-! ## storing and unlinking a record -/

theorem mem_storeRun {run r : ChunkRun} {l : List ChunkRun} :
    r ∈ storeRun run l ↔
      (r ∈ l ∧ r.addr ≠ run.addr) ∨ (r = run ∧ ∃ r₀ ∈ l, r₀.addr = run.addr) := by
  unfold storeRun
  rw [List.mem_map]
  constructor
  · rintro ⟨r₀, hr₀, rfl⟩
    by_cases ha : r₀.addr = run.addr
    · rw [if_pos ha]
      exact Or.inr ⟨rfl, r₀, hr₀, ha⟩
    · rw [if_neg ha]
      exact Or.inl ⟨hr₀, ha⟩
  · rintro (⟨hr, ha⟩ | ⟨rfl, r₀, hr₀, ha⟩)
    · exact ⟨r, hr, if_neg ha⟩
    · exact ⟨r₀, hr₀, if_pos ha⟩

@[simp] theorem map_addr_storeRun (run : ChunkRun) (l : List ChunkRun) :
    (storeRun run l).map ChunkRun.addr = l.map ChunkRun.addr := by
  unfold storeRun
  rw [List.map_map]
  refine List.map_congr_left fun r _ => ?_
  by_cases ha : r.addr = run.addr
  · simp [ha]
  · simp [ha]

@[simp] theorem length_storeRun (run : ChunkRun) (l : List ChunkRun) :
    (storeRun run l).length = l.length := List.length_map ..

theorem storeRun_append (run : ChunkRun) (l k : List ChunkRun) :
    storeRun run (l ++ k) = storeRun run l ++ storeRun run k := List.map_append

theorem unlinkRun_append (run : ChunkRun) (l k : List ChunkRun) :
    unlinkRun run (l ++ k) = unlinkRun run l ++ unlinkRun run k := List.filter_append ..

theorem mem_unlinkRun {run r : ChunkRun} {l : List ChunkRun} :
    r ∈ unlinkRun run l ↔ r ∈ l ∧ r.addr ≠ run.addr := by
  unfold unlinkRun
  rw [List.mem_filter, decide_eq_true_iff]

namespace RunsOk

variable {c : ℕ} {free full : List ChunkRun} {run run' : ChunkRun}

/-- Two linked records at one address are one record. -/
theorem eq_of_addr (h : RunsOk c free full) (hr : run ∈ free ++ full) (hr' : run' ∈ free ++ full)
    (ha : run.addr = run'.addr) : run = run' :=
  List.inj_on_of_nodup_map h.nodup hr hr' ha

/-- A class has no open run or one. -/
theorem open_cases (h : RunsOk c free full) : free = [] ∨ ∃ run, free = [run] := by
  have hshort := h.short
  rcases free with _ | ⟨run, _ | ⟨run', rest⟩⟩
  · exact Or.inl rfl
  · exact Or.inr ⟨run, rfl⟩
  · simp at hshort

/-- A store that keeps the record a used run of its class keeps the lists. -/
theorem store (h : RunsOk c free full) (hok : RunOk c run') (hpos : 0 < run'.freeBlocksCount)
    (hlt : run'.freeBlocksCount < run'.numBlocks) :
    RunsOk c (storeRun run' free) (storeRun run' full) := by
  refine ⟨by rw [length_storeRun]; exact h.short, ?_, ?_, ?_, ?_⟩
  · intro r hr
    rw [← storeRun_append, mem_storeRun] at hr
    rcases hr with ⟨hr, -⟩ | ⟨rfl, -⟩
    · exact h.run r hr
    · exact hok
  · intro r hr
    rcases mem_storeRun.mp hr with ⟨hr, -⟩ | ⟨rfl, -⟩
    · exact h.vacant r hr
    · exact hpos
  · intro r hr
    rw [← storeRun_append, mem_storeRun] at hr
    rcases hr with ⟨hr, -⟩ | ⟨rfl, -⟩
    · exact h.used r hr
    · exact hlt
  · rw [← storeRun_append, map_addr_storeRun]
    exact h.nodup

theorem unlink (h : RunsOk c free full) : RunsOk c (unlinkRun run free) (unlinkRun run full) := by
  have hsub : List.Sublist (unlinkRun run free ++ unlinkRun run full) (free ++ full) := by
    rw [← unlinkRun_append]
    exact List.filter_sublist
  exact ⟨(List.length_filter_le _ _).trans h.short, fun r hr => h.run r (hsub.subset hr),
    fun r hr => h.vacant r (mem_unlinkRun.mp hr).1, fun r hr => h.used r (hsub.subset hr),
    (hsub.map _).nodup h.nodup⟩

/-- The open run moves on: `run'` is open, or it joins the full list. -/
theorem replace (h : RunsOk c free full) (ha : ∀ r ∈ full, r.addr ≠ run'.addr)
    (hok : RunOk c run') (hlt : run'.freeBlocksCount < run'.numBlocks) :
    (0 < run'.freeBlocksCount → RunsOk c [run'] full) ∧ RunsOk c [] (full ++ [run']) := by
  have hmem : ∀ r ∈ run' :: full, RunOk c r ∧ r.freeBlocksCount < r.numBlocks := by
    intro r hr
    rcases List.mem_cons.mp hr with rfl | hr
    · exact ⟨hok, hlt⟩
    · have hr' : r ∈ free ++ full := List.mem_append_right _ hr
      exact ⟨h.run r hr', h.used r hr'⟩
  have hnd : ((run' :: full).map ChunkRun.addr).Nodup := by
    have hfull : (full.map ChunkRun.addr).Nodup := by
      have := h.nodup
      rw [List.map_append] at this
      exact this.of_append_right
    refine List.nodup_cons.mpr ⟨fun hin => ?_, hfull⟩
    obtain ⟨r, hr, he⟩ := List.mem_map.mp hin
    exact ha r hr he
  refine ⟨fun hpos => ⟨le_refl 1, fun r hr => (hmem r hr).1, ?_, fun r hr => (hmem r hr).2, hnd⟩,
    ⟨Nat.zero_le 1, ?_, by simp, ?_, ?_⟩⟩
  · intro r hr
    rw [List.mem_singleton.mp hr]
    exact hpos
  · intro r hr
    exact (hmem r (by simpa [or_comm] using hr)).1
  · intro r hr
    exact (hmem r (by simpa [or_comm] using hr)).2
  · rw [List.nil_append]
    exact ((List.perm_append_singleton run' full).map ChunkRun.addr).nodup_iff.mpr hnd

end RunsOk

/-! ## `chunk_alloc_small` -/

section
variable {chunk : Chunk} {c : ℕ}

theorem usableBase_lt (h : Mapped chunk) : usableBase chunk + 4096 ≤ chunk.baseAddr + chunk.size := by
  have h1 := h.large
  unfold usableBase
  rw [h.offset]
  have h2 : SIZEOF_CHUNK + 4096 ≤ CHUNK_DEFAULT_SIZE := by decide
  omega

theorem usableBase_eq (h : Mapped chunk) :
    addW chunk.baseAddr chunk.usableOffset = usableBase chunk := by
  have h1 := usableBase_lt h
  have h2 := h.fits
  exact addW_eq (by unfold usableBase at h1; omega)

/-- The chunk after block `run.firstFree` of its open run is taken. -/
def openRunTaken (chunk : Chunk) (c : ℕ) (run : ChunkRun) : Chunk :=
  let run' := run.take run.firstFree
  if run'.freeBlocksCount = 0 then
    { chunk with
      allocatedBytes := addW chunk.allocatedBytes run.blockSize
      runsFree := Function.update chunk.runsFree c []
      runsFull := Function.update chunk.runsFull c (chunk.runsFull c ++ [run']) }
  else
    { chunk with
      allocatedBytes := addW chunk.allocatedBytes run.blockSize
      runsFree := Function.update chunk.runsFree c [run'] }

/-- Where `chunk_alloc_small` places the block it takes of the open run: as if the run were the
first of the chunk. -/
def smallAddr (chunk : Chunk) (run : ChunkRun) : ℕ :=
  addW (addW chunk.baseAddr chunk.usableOffset) (run.firstFree * run.blockSize)

/-- On the only open run of its class `chunk_alloc_small` takes the first free block. -/
theorem chunkTakeBlock_taken {run : ChunkRun} (hl : chunk.runsFree c = [run])
    (hb : run.firstFree < run.numBlocks) (calls : List LibcCall) :
    chunkTakeBlock chunk c run calls =
      ⟨openRunTaken chunk c run, some (smallAddr chunk run), calls⟩ := by
  have hidx : ((chunk.runsFree c).findIdx fun r => r.addr = run.addr) = 0 := by
    rw [hl]
    simp [List.findIdx_cons]
  have hrunBase : addW (addW chunk.baseAddr chunk.usableOffset) (0 * CHUNK_RUN_SIZE) =
      addW chunk.baseAddr chunk.usableOffset := by
    rw [Nat.zero_mul]
    exact addW_eq (addW_lt _ _)
  have hunlink : unlinkRun (run.take run.firstFree) [run] = [] := by simp [unlinkRun]
  have hstore : storeRun (run.take run.firstFree) [run] = [run.take run.firstFree] := by
    simp [storeRun]
  unfold chunkTakeBlock
  simp only [hidx, hrunBase]
  show (if run.numBlocks ≤ run.firstFree then _ else if (run.take run.firstFree).freeBlocksCount = 0
    then ChunkResult.mk { chunk with
        allocatedBytes := _
        runsFree := Function.update chunk.runsFree c
          (unlinkRun (run.take run.firstFree) (chunk.runsFree c))
        runsFull := _ } (some (smallAddr chunk run)) calls
    else ChunkResult.mk { chunk with
        allocatedBytes := _
        runsFree := Function.update chunk.runsFree c
          (storeRun (run.take run.firstFree) (chunk.runsFree c)) }
      (some (smallAddr chunk run)) calls) = _
  rw [if_neg (by omega), hl, hunlink, hstore]
  unfold openRunTaken
  by_cases hz : (run.take run.firstFree).freeBlocksCount = 0
  · simp only [hz, if_true]
    rfl
  · simp only [hz, if_false]

/-- In the mapping no address wraps. -/
theorem smallAddr_eq (h : Mapped chunk) {run : ChunkRun} (hrun : RunKept c run)
    (hb : run.firstFree < run.numBlocks) :
    smallAddr chunk run = usableBase chunk + run.firstFree * run.blockSize := by
  have hend := hrun.block_end_le hb
  have hpos := hrun.blockSize_pos
  have hlt := usableBase_lt h
  have hfits := h.fits
  unfold smallAddr
  rw [usableBase_eq h]
  exact addW_eq (by omega)

/-- The run that `chunk_alloc_small` sets up when the class has no open one. -/
def newRun (c a bitmapAddr : ℕ) : ChunkRun :=
  { addr := a
    sizeClass := c
    blockSize := classToSize c
    numBlocks := CHUNK_RUN_SIZE / classToSize c
    bitmapAddr := bitmapAddr
    allocBitmap := bitmapInit (CHUNK_RUN_SIZE / classToSize c) false
    bitmapSize := bitmapSize (CHUNK_RUN_SIZE / classToSize c)
    freeBlocksCount := CHUNK_RUN_SIZE / classToSize c }

/-- The chunk with a new run linked. -/
def linkRun (chunk : Chunk) (c : ℕ) (run : ChunkRun) : Chunk :=
  { chunk with
    runsFree := Function.update chunk.runsFree c [run]
    numRuns := addW chunk.numRuns 1 }

@[simp] theorem linkRun_runsFree (chunk : Chunk) (c : ℕ) (run : ChunkRun) :
    (linkRun chunk c run).runsFree c = [run] := Function.update_self ..

theorem smallAddr_linkRun (chunk : Chunk) (c : ℕ) (run run' : ChunkRun) :
    smallAddr (linkRun chunk c run) run' = smallAddr chunk run' := rfl

theorem newRun_kept {a bitmapAddr : ℕ} (hpos : 0 < classToSize c) :
    RunKept c (newRun c a bitmapAddr) :=
  ⟨rfl, rfl, hpos, rfl, length_bitmapInit _ _, by
    show _ + setCount (bitmapInit _ false) _ = _
    rw [setCount_init]
    rfl⟩

theorem newRun_free_pos {a bitmapAddr : ℕ} (hpos : 0 < classToSize c)
    (hle : classToSize c ≤ CHUNK_RUN_SIZE) : 0 < (newRun c a bitmapAddr).freeBlocksCount :=
  Nat.div_pos hle hpos

theorem newRun_firstFree {a bitmapAddr : ℕ} (hpos : 0 < classToSize c)
    (hle : classToSize c ≤ CHUNK_RUN_SIZE) : (newRun c a bitmapAddr).firstFree = 0 :=
  bitmapFindFirstClear_init (Nat.div_pos hle hpos)

theorem chunkAllocSmall_open (h : ChunkOk chunk) {run : ChunkRun} (hl : chunk.runsFree c = [run])
    (env : MetaEnv) :
    chunkAllocSmall chunk c env =
      ⟨openRunTaken chunk c run, some (usableBase chunk + run.firstFree * run.blockSize), []⟩ := by
  have hmem : run ∈ chunk.runsFree c := by rw [hl]; exact List.mem_singleton_self run
  have hrun := (h.runs c).run run (List.mem_append_left _ hmem)
  unfold chunkAllocSmall chunkFindAvailableRun
  rw [hl]
  have hb := hrun.kept.firstFree_lt ((h.runs c).vacant run hmem)
  rw [← smallAddr_eq h.mapped hrun.kept hb]
  exact chunkTakeBlock_taken hl hb []

/-- `chunk_alloc_small` where the class has none, and libc answers both requests. -/
theorem chunkAllocSmall_new (h : ChunkOk chunk) (hl : chunk.runsFree c = [])
    (hpos : 0 < classToSize c) (hle : classToSize c ≤ CHUNK_RUN_SIZE) {a bitmapAddr : ℕ} :
    chunkAllocSmall chunk c ⟨some a, some bitmapAddr⟩ =
      ⟨openRunTaken (linkRun chunk c (newRun c a bitmapAddr)) c (newRun c a bitmapAddr),
        some (usableBase chunk), [.malloc a, .calloc bitmapAddr]⟩ := by
  unfold chunkAllocSmall chunkFindAvailableRun
  rw [hl]
  simp only [List.head?_nil, Nat.ne_of_gt hpos, if_false, List.nil_append]
  have hlink : (linkRun chunk c (newRun c a bitmapAddr)).runsFree c = [newRun c a bitmapAddr] :=
    linkRun_runsFree chunk c _
  have hnew : RunKept c (newRun c a bitmapAddr) := newRun_kept hpos
  have hb := hnew.firstFree_lt (newRun_free_pos hpos hle)
  have hptr := smallAddr_eq h.mapped hnew hb
  rw [newRun_firstFree hpos hle, Nat.zero_mul, Nat.add_zero] at hptr
  have htake := chunkTakeBlock_taken hlink hb [.malloc a, .calloc bitmapAddr]
  rw [smallAddr_linkRun, hptr] at htake
  exact htake

theorem chunkAllocSmall_open_chunk (h : ChunkOk chunk) {run : ChunkRun}
    (hl : chunk.runsFree c = [run]) (env : MetaEnv) :
    (chunkAllocSmall chunk c env).chunk = openRunTaken chunk c run := by
  rw [chunkAllocSmall_open h hl]

theorem chunkAllocSmall_new_chunk (h : ChunkOk chunk) (hl : chunk.runsFree c = [])
    (hpos : 0 < classToSize c) (hle : classToSize c ≤ CHUNK_RUN_SIZE) {a bitmapAddr : ℕ} :
    (chunkAllocSmall chunk c ⟨some a, some bitmapAddr⟩).chunk =
      openRunTaken (linkRun chunk c (newRun c a bitmapAddr)) c (newRun c a bitmapAddr) := by
  rw [chunkAllocSmall_new h hl hpos hle]

theorem openRunTaken_fields (chunk : Chunk) (c : ℕ) (run : ChunkRun) :
    (openRunTaken chunk c run).baseAddr = chunk.baseAddr ∧
      (openRunTaken chunk c run).size = chunk.size ∧
      (openRunTaken chunk c run).usableOffset = chunk.usableOffset ∧
      (openRunTaken chunk c run).isLarge = chunk.isLarge ∧
      (openRunTaken chunk c run).numRuns = chunk.numRuns := by
  unfold openRunTaken
  by_cases hz : (run.take run.firstFree).freeBlocksCount = 0
  · simp [hz]
  · simp [hz]

/-- The lists after the first free block of `run` is taken: the run is open still, or full. -/
theorem openRunTaken_lists (chunk : Chunk) (c : ℕ) (run : ChunkRun) :
    let run' := run.take run.firstFree
    (run'.freeBlocksCount = 0 ∧
      (openRunTaken chunk c run).runsFree = Function.update chunk.runsFree c [] ∧
      (openRunTaken chunk c run).runsFull =
        Function.update chunk.runsFull c (chunk.runsFull c ++ [run'])) ∨
    (0 < run'.freeBlocksCount ∧
      (openRunTaken chunk c run).runsFree = Function.update chunk.runsFree c [run'] ∧
      (openRunTaken chunk c run).runsFull = chunk.runsFull) := by
  unfold openRunTaken
  by_cases hz : (run.take run.firstFree).freeBlocksCount = 0
  · exact Or.inl (by simp [hz])
  · exact Or.inr (by simp [hz, Nat.pos_of_ne_zero hz])

/-- The records linked after a block is taken are those that were, up to the one it is taken of. -/
theorem openRunTaken_addr (chunk : Chunk) (c : ℕ) (run : ChunkRun) (hl : chunk.runsFree c = [run])
    (c' : ℕ) {r : ChunkRun}
    (hr : r ∈ (openRunTaken chunk c run).runsFree c' ++ (openRunTaken chunk c run).runsFull c') :
    ∃ r₀ ∈ chunk.runsFree c' ++ chunk.runsFull c', r₀.addr = r.addr := by
  by_cases he : c' = c
  · subst he
    have hmem : r = run.take run.firstFree ∨ r ∈ chunk.runsFull c' := by
      rcases openRunTaken_lists chunk c' run with ⟨-, h1, h2⟩ | ⟨-, h1, h2⟩
      · rw [h1, h2] at hr
        simpa [or_comm] using hr
      · rw [h1, h2] at hr
        simpa using hr
    rcases hmem with rfl | hmem
    · exact ⟨run, by simp [hl], rfl⟩
    · exact ⟨r, List.mem_append_right _ hmem, rfl⟩
  · refine ⟨r, ?_, rfl⟩
    rcases openRunTaken_lists chunk c run with ⟨-, h1, h2⟩ | ⟨-, h1, h2⟩
    · rw [h1, h2] at hr
      simpa [he] using hr
    · rw [h1, h2] at hr
      simpa [he] using hr

theorem openRunTaken_runs {free : List ChunkRun} {run : ChunkRun}
    (h : ∀ c', c' ≠ c → RunsOk c' (chunk.runsFree c') (chunk.runsFull c'))
    (hc : RunsOk c free (chunk.runsFull c)) (hrun : RunOk c run) (hfree : 0 < run.freeBlocksCount)
    (ha : ∀ r ∈ chunk.runsFull c, r.addr ≠ run.addr) (c' : ℕ) :
    RunsOk c' ((openRunTaken chunk c run).runsFree c') ((openRunTaken chunk c run).runsFull c') := by
  have hb := hrun.kept.firstFree_lt hfree
  have hok := hrun.take hb (ChunkRun.firstFree_clear hb)
  have hlt : (run.take run.firstFree).freeBlocksCount < (run.take run.firstFree).numBlocks := by
    have := hrun.count
    rw [hrun.kept.take_count hfree, ChunkRun.take_numBlocks]
    omega
  have ha' : ∀ r ∈ chunk.runsFull c, r.addr ≠ (run.take run.firstFree).addr := ha
  obtain ⟨hopen, hfull⟩ := hc.replace ha' hok hlt
  rcases openRunTaken_lists chunk c run with ⟨-, h1, h2⟩ | ⟨hpos, h1, h2⟩
  · rw [h1, h2]
    by_cases he : c' = c
    · subst he
      simpa using hfull
    · simpa [he] using h c' he
  · rw [h1, h2]
    by_cases he : c' = c
    · subst he
      simpa using hopen hpos
    · simpa [he] using h c' he

theorem openRunTaken_ok {free : List ChunkRun} {run : ChunkRun}
    (hoff : chunk.usableOffset = SIZEOF_CHUNK) (hlarge : CHUNK_DEFAULT_SIZE ≤ chunk.size)
    (hfits : chunk.baseAddr + chunk.size ≤ wordSize)
    (h : ∀ c', c' ≠ c → RunsOk c' (chunk.runsFree c') (chunk.runsFull c'))
    (hc : RunsOk c free (chunk.runsFull c)) (hrun : RunOk c run) (hfree : 0 < run.freeBlocksCount)
    (ha : ∀ r ∈ chunk.runsFull c, r.addr ≠ run.addr) : ChunkOk (openRunTaken chunk c run) := by
  obtain ⟨h1, h2, h3, -, -⟩ := openRunTaken_fields chunk c run
  refine ⟨h3.trans hoff, ?_, ?_, openRunTaken_runs h hc hrun hfree ha⟩
  · rw [h2]
    exact hlarge
  · rw [h1, h2]
    exact hfits

/-- Taking a block marks it and nothing else. -/
theorem allocated_openRunTaken {run : ChunkRun} (hl : chunk.runsFree c = [run])
    (hrun : RunKept c run) (hb : run.firstFree < run.numBlocks) (c' a' b' : ℕ) :
    Allocated (openRunTaken chunk c run) c' a' b' ↔
      Allocated chunk c' a' b' ∨ (c' = c ∧ a' = run.addr ∧ b' = run.firstFree) := by
  have hbit := fun k => hrun.bit_take hb k
  unfold Allocated
  by_cases he : c' = c
  · subst he
    have hmem : ∀ r, r ∈ (openRunTaken chunk c' run).runsFree c' ++
        (openRunTaken chunk c' run).runsFull c' ↔
          r = run.take run.firstFree ∨ r ∈ chunk.runsFull c' := by
      intro r
      rcases openRunTaken_lists chunk c' run with ⟨-, h1, h2⟩ | ⟨-, h1, h2⟩
      · simp [h1, h2, or_comm]
      · simp [h1, h2]
    simp only [hmem, hl, List.singleton_append, List.mem_cons, exists_eq_or_imp, hbit,
      ChunkRun.take_addr, ChunkRun.take_numBlocks, Bool.or_eq_true, decide_eq_true_eq]
    constructor
    · rintro (⟨ha, hlt, hk | hk⟩ | hr)
      · exact Or.inr ⟨trivial, ha.symm, hk⟩
      · exact Or.inl (Or.inl ⟨ha, hlt, hk⟩)
      · exact Or.inl (Or.inr hr)
    · rintro ((⟨ha, hlt, hk⟩ | hr) | ⟨-, rfl, rfl⟩)
      · exact Or.inl ⟨ha, hlt, Or.inr hk⟩
      · exact Or.inr hr
      · exact Or.inl ⟨rfl, hb, Or.inl rfl⟩
  · have hlists : (openRunTaken chunk c run).runsFree c' = chunk.runsFree c' ∧
        (openRunTaken chunk c run).runsFull c' = chunk.runsFull c' := by
      rcases openRunTaken_lists chunk c run with ⟨-, h1, h2⟩ | ⟨-, h1, h2⟩
      · simp [h1, h2, he]
      · simp [h1, h2, he]
    rw [hlists.1, hlists.2]
    simp [he]

theorem allocated_linkRun {a bitmapAddr : ℕ} (hl : chunk.runsFree c = []) (c' a' b' : ℕ) :
    Allocated (linkRun chunk c (newRun c a bitmapAddr)) c' a' b' ↔ Allocated chunk c' a' b' := by
  unfold Allocated linkRun
  by_cases he : c' = c
  · subst he
    simp only [Function.update_self, List.singleton_append, List.mem_cons, exists_eq_or_imp, hl,
      List.nil_append]
    have hno : bitmapGet (newRun c' a bitmapAddr).allocBitmap b' = false :=
      bitmapGet_init_false _ _
    simp [hno]
  · simp [he]

/-- A block that would be taken is free. -/
theorem not_allocated_firstFree (h : RunsOk c (chunk.runsFree c) (chunk.runsFull c)) {run : ChunkRun}
    (hl : chunk.runsFree c = [run]) : ¬ Allocated chunk c run.addr run.firstFree := by
  have hmem : run ∈ chunk.runsFree c := by rw [hl]; exact List.mem_singleton_self run
  have hrun := h.run run (List.mem_append_left _ hmem)
  rintro ⟨r, hr, ha, -, hbit⟩
  have he := h.eq_of_addr hr (List.mem_append_left _ hmem) ha
  rw [he, ChunkRun.firstFree_clear (hrun.kept.firstFree_lt (h.vacant run hmem))] at hbit
  exact absurd hbit (by decide)

/-- **`chunk_alloc_small`.**  Either nothing changes and no pointer is returned, or one block that
was free is marked; the chunk stays well formed. -/
theorem chunkAllocSmall_spec (h : ChunkOk chunk) (hpos : 0 < classToSize c)
    (hle : classToSize c ≤ CHUNK_RUN_SIZE) (env : MetaEnv)
    (hfresh : ∀ a, env.run = some a → FreshRun chunk a) :
    let r := chunkAllocSmall chunk c env
    ChunkOk r.chunk ∧
      (r.ptr = none ∧ r.chunk = chunk ∨
        ∃ a b, ¬ Allocated chunk c a b ∧
          r.ptr = some (usableBase chunk + b * classToSize c) ∧
          b * classToSize c + classToSize c ≤ 4096 ∧
          ∀ c' a' b', Allocated r.chunk c' a' b' ↔
            Allocated chunk c' a' b' ∨ (c' = c ∧ a' = a ∧ b' = b)) := by
  rcases (h.runs c).open_cases with hl | ⟨run, hl⟩
  · -- no open run: the class gets a new one, or libc refuses
    rcases env with ⟨run, bitmap⟩
    rcases run with _ | a
    · simp only [chunkAllocSmall, chunkFindAvailableRun, hl, List.head?_nil]
      exact ⟨h, Or.inl (by simp)⟩
    rcases bitmap with _ | bitmapAddr
    · simp only [chunkAllocSmall, chunkFindAvailableRun, hl, List.head?_nil, Nat.ne_of_gt hpos,
        if_false]
      exact ⟨h, Or.inl (by simp)⟩
    rw [chunkAllocSmall_new h hl hpos hle]
    have hrun : RunOk c (newRun c a bitmapAddr) := (newRun_kept hpos).ok hle
    have hfree : 0 < (newRun c a bitmapAddr).freeBlocksCount := newRun_free_pos hpos hle
    have hzero : (newRun c a bitmapAddr).firstFree = 0 := newRun_firstFree hpos hle
    have hlink := linkRun_runsFree chunk c (newRun c a bitmapAddr)
    dsimp only
    refine ⟨?_, Or.inr ⟨a, 0, ?_, ?_, ?_, ?_⟩⟩
    · refine openRunTaken_ok h.offset h.large h.fits ?_ (h.runs c) hrun hfree
        fun r hr => hfresh a rfl c r (List.mem_append_right _ hr)
      intro c' hne
      simpa [linkRun, hne] using h.runs c'
    · rintro ⟨r, hr, ha, -⟩
      exact hfresh a rfl c r hr ha
    · simp
    · rw [Nat.zero_mul, Nat.zero_add]
      exact hle
    · intro c' a' b'
      rw [allocated_openRunTaken hlink hrun.kept (hrun.kept.firstFree_lt hfree),
        allocated_linkRun hl, hzero]
      rfl
  · have hmem : run ∈ chunk.runsFree c := by rw [hl]; exact List.mem_singleton_self run
    have hrun := (h.runs c).run run (List.mem_append_left _ hmem)
    have hfree := (h.runs c).vacant run hmem
    rw [chunkAllocSmall_open h hl]
    dsimp only
    refine ⟨?_, Or.inr ⟨run.addr, run.firstFree, not_allocated_firstFree (h.runs c) hl, ?_, ?_,
      allocated_openRunTaken hl hrun.kept (hrun.kept.firstFree_lt hfree)⟩⟩
    · refine openRunTaken_ok h.offset h.large h.fits (fun c' _ => h.runs c') (h.runs c) hrun hfree
        fun r hr he => ?_
      have hnd := (h.runs c).nodup
      rw [hl, List.singleton_append, List.map_cons, List.nodup_cons] at hnd
      exact hnd.1 (List.mem_map.mpr ⟨r, hr, he⟩)
    · rw [hrun.size]
    · rw [← hrun.size]
      exact hrun.kept.block_end_le (hrun.kept.firstFree_lt hfree)

/-- An address that is not in use and that libc does not hand out now stays free. -/
theorem FreshRun.alloc (h : ChunkOk chunk) (hpos : 0 < classToSize c)
    (hle : classToSize c ≤ CHUNK_RUN_SIZE) {x a bitmapAddr : ℕ} (hx : FreshRun chunk x)
    (hne : a ≠ x) : FreshRun (chunkAllocSmall chunk c ⟨some a, some bitmapAddr⟩).chunk x := by
  intro c' r hr
  rcases (h.runs c).open_cases with hl | ⟨run, hl⟩
  · rw [chunkAllocSmall_new_chunk h hl hpos hle] at hr
    obtain ⟨r₀, hr₀, ha⟩ := openRunTaken_addr (linkRun chunk c (newRun c a bitmapAddr)) c
      (newRun c a bitmapAddr) (linkRun_runsFree chunk c _) c' hr
    rw [← ha]
    by_cases he : c' = c
    · subst he
      rcases List.mem_append.mp hr₀ with hr₀ | hr₀
      · rw [linkRun_runsFree] at hr₀
        rw [List.mem_singleton.mp hr₀]
        exact hne
      · exact hx c' r₀ (List.mem_append_right _ hr₀)
    · exact hx c' r₀ (by simpa [linkRun, he] using hr₀)
  · rw [chunkAllocSmall_open_chunk h hl] at hr
    obtain ⟨r₀, hr₀, ha⟩ := openRunTaken_addr chunk c run hl c' hr
    rw [← ha]
    exact hx c' r₀ hr₀

/-! ## `chunk_free_small` -/

/-- The chunk after block `b` of the linked run `run` is cleared: the run goes when it was its
last block. -/
def blockCleared (chunk : Chunk) (c : ℕ) (run : ChunkRun) (b : ℕ) : Chunk :=
  if run.freeBlocksCount + 1 = run.numBlocks then
    { chunk with
      freedBytes := addW chunk.freedBytes run.blockSize
      runsFree := Function.update chunk.runsFree c (unlinkRun run (chunk.runsFree c))
      runsFull := Function.update chunk.runsFull c (unlinkRun run (chunk.runsFull c))
      numRuns := subW chunk.numRuns 1 }
  else
    { chunk with
      freedBytes := addW chunk.freedBytes run.blockSize
      runsFree := Function.update chunk.runsFree c
        (storeRun (run.release b) (chunk.runsFree c))
      runsFull := Function.update chunk.runsFull c
        (storeRun (run.release b) (chunk.runsFull c)) }

/-- The metadata that goes with the last block of a run. -/
def clearedCalls (run : ChunkRun) : List LibcCall :=
  if run.freeBlocksCount + 1 = run.numBlocks then [.free run.bitmapAddr, .free run.addr] else []

theorem chunkFindRun_mem {i : ℕ} {run : ChunkRun} (hf : chunkFindRun chunk c i = some run) :
    run ∈ chunk.runsFree c ++ chunk.runsFull c := by
  unfold chunkFindRun at hf
  rcases hl : (chunk.runsFree c)[i]? with _ | r
  · rw [hl] at hf
    exact List.mem_append_right _ (List.mem_of_getElem? hf)
  · rw [hl] at hf
    cases hf
    exact List.mem_append_left _ (List.mem_of_getElem? hl)

/-- A linked run's node never points to itself. -/
theorem runUnlinked_eq_false {run : ChunkRun} (hmem : run ∈ chunk.runsFree c ++ chunk.runsFull c) :
    runUnlinked chunk c run = false := by
  unfold runUnlinked
  rw [Bool.not_eq_false', List.any_eq_true]
  exact ⟨run, hmem, decide_eq_true rfl⟩

/-- Where `chunk_free_small` places `ptr`, counted from the start of the first run. -/
def blockOffset (chunk : Chunk) (ptr : ℕ) : ℕ :=
  subW ptr (addW chunk.baseAddr chunk.usableOffset)

theorem blockOffset_eq (h : Mapped chunk) {n : ℕ} (hn : n < 4096) :
    blockOffset chunk (usableBase chunk + n) = n := by
  have hlt := usableBase_lt h
  have hfits := h.fits
  unfold blockOffset
  rw [usableBase_eq h, subW_eq (by omega) (by omega)]
  omega

/-- `chunk_free_small` where the search finds `run` and the block it computes is marked. -/
theorem chunkFreeSmall_eq {ptr b : ℕ} {run : ChunkRun} (hrun : RunKept c run) (hptr : ptr ≠ 0)
    (hf : chunkFindRun chunk c (blockOffset chunk ptr / CHUNK_RUN_SIZE) = some run)
    (hb : blockOffset chunk ptr % CHUNK_RUN_SIZE / run.blockSize = b)
    (hlt : b < run.numBlocks) (hset : bitmapGet run.allocBitmap b = true) :
    chunkFreeSmall chunk ptr c = (blockCleared chunk c run b, clearedCalls run) := by
  have hmem := chunkFindRun_mem hf
  have hcount := hrun.release_count (b := b)
  have hoff : blockOffset chunk ptr - blockOffset chunk ptr / CHUNK_RUN_SIZE * CHUNK_RUN_SIZE =
      blockOffset chunk ptr % CHUNK_RUN_SIZE := by
    rw [Nat.mod_eq_sub_div_mul]
  unfold blockOffset at hf hb hoff
  unfold chunkFreeSmall
  rw [if_neg hptr]
  simp only [hf, hoff, hb, Nat.ne_of_gt hrun.blockSize_pos, if_false, Nat.not_le_of_lt hlt, hset,
    Bool.not_true, Bool.false_eq_true]
  show (if (run.release b).freeBlocksCount = run.numBlocks then
      (({ chunk with
          freedBytes := _
          runsFree := Function.update chunk.runsFree c (unlinkRun run (chunk.runsFree c))
          runsFull := Function.update chunk.runsFull c (unlinkRun run (chunk.runsFull c))
          numRuns := _ } : Chunk), [LibcCall.free run.bitmapAddr, LibcCall.free run.addr])
    else
      (({ chunk with
          freedBytes := _
          runsFree := Function.update chunk.runsFree c
            (if (run.release b).freeBlocksCount = 1 ∧ runUnlinked chunk c run = true then
              storeRun (run.release b) (chunk.runsFree c) ++ [run.release b]
              else storeRun (run.release b) (chunk.runsFree c))
          runsFull := Function.update chunk.runsFull c
            (storeRun (run.release b) (chunk.runsFull c)) } : Chunk), [])) = _
  rw [hcount, runUnlinked_eq_false hmem]
  unfold blockCleared clearedCalls
  by_cases hlast : run.freeBlocksCount + 1 = run.numBlocks
  · simp only [hlast, if_true]
  · simp only [hlast, if_false, Bool.false_eq_true, and_false]

/-- Elsewhere `chunk_free_small` does nothing. -/
theorem chunkFreeSmall_cases (h : ∀ r ∈ chunk.runsFree c ++ chunk.runsFull c, RunKept c r)
    (ptr : ℕ) :
    chunkFreeSmall chunk ptr c = (chunk, []) ∨
      ptr ≠ 0 ∧ ∃ run ∈ chunk.runsFree c ++ chunk.runsFull c, ∃ b < run.numBlocks,
        bitmapGet run.allocBitmap b = true ∧
        chunkFindRun chunk c (blockOffset chunk ptr / CHUNK_RUN_SIZE) = some run ∧
        blockOffset chunk ptr % CHUNK_RUN_SIZE / run.blockSize = b ∧
        chunkFreeSmall chunk ptr c = (blockCleared chunk c run b, clearedCalls run) := by
  by_cases hptr : ptr = 0
  · exact Or.inl (if_pos hptr)
  rcases hf : chunkFindRun chunk c (blockOffset chunk ptr / CHUNK_RUN_SIZE) with _ | run
  · refine Or.inl ?_
    unfold blockOffset at hf
    unfold chunkFreeSmall
    rw [if_neg hptr]
    simp only [hf]
  have hmem := chunkFindRun_mem hf
  have hrun := h run hmem
  have hpos := Nat.ne_of_gt hrun.blockSize_pos
  have hoff : blockOffset chunk ptr - blockOffset chunk ptr / CHUNK_RUN_SIZE * CHUNK_RUN_SIZE =
      blockOffset chunk ptr % CHUNK_RUN_SIZE := by
    rw [Nat.mod_eq_sub_div_mul]
  rcases Nat.lt_or_ge (blockOffset chunk ptr % CHUNK_RUN_SIZE / run.blockSize) run.numBlocks
    with hlt | hge
  · cases hset : bitmapGet run.allocBitmap
      (blockOffset chunk ptr % CHUNK_RUN_SIZE / run.blockSize) with
    | true =>
      exact Or.inr ⟨hptr, run, hmem, _, hlt, hset, rfl, rfl,
        chunkFreeSmall_eq hrun hptr hf rfl hlt hset⟩
    | false =>
      refine Or.inl ?_
      unfold blockOffset at hf hoff hlt hset
      unfold chunkFreeSmall
      rw [if_neg hptr]
      simp only [hf, hoff, hpos, if_false, Nat.not_le_of_lt hlt, hset, Bool.not_false, if_true]
  · refine Or.inl ?_
    unfold blockOffset at hf hoff hge
    unfold chunkFreeSmall
    rw [if_neg hptr]
    simp only [hf, hoff, hpos, if_false, hge, if_true]

theorem blockCleared_fields (chunk : Chunk) (c : ℕ) (run : ChunkRun) (b : ℕ) :
    (blockCleared chunk c run b).baseAddr = chunk.baseAddr ∧
      (blockCleared chunk c run b).size = chunk.size ∧
      (blockCleared chunk c run b).usableOffset = chunk.usableOffset ∧
      (blockCleared chunk c run b).isLarge = chunk.isLarge := by
  unfold blockCleared
  by_cases hlast : run.freeBlocksCount + 1 = run.numBlocks
  · simp [hlast]
  · simp [hlast]

theorem blockCleared_lists (chunk : Chunk) (c : ℕ) (run : ChunkRun) (b : ℕ) :
    (run.freeBlocksCount + 1 = run.numBlocks ∧
      (blockCleared chunk c run b).runsFree =
        Function.update chunk.runsFree c (unlinkRun run (chunk.runsFree c)) ∧
      (blockCleared chunk c run b).runsFull =
        Function.update chunk.runsFull c (unlinkRun run (chunk.runsFull c))) ∨
    (run.freeBlocksCount + 1 ≠ run.numBlocks ∧
      (blockCleared chunk c run b).runsFree =
        Function.update chunk.runsFree c (storeRun (run.release b) (chunk.runsFree c)) ∧
      (blockCleared chunk c run b).runsFull =
        Function.update chunk.runsFull c (storeRun (run.release b) (chunk.runsFull c))) := by
  unfold blockCleared
  by_cases hlast : run.freeBlocksCount + 1 = run.numBlocks
  · exact Or.inl (by simp [hlast])
  · exact Or.inr (by simp [hlast])

theorem blockCleared_ok (h : ChunkOk chunk) {run : ChunkRun} {b : ℕ}
    (hmem : run ∈ chunk.runsFree c ++ chunk.runsFull c) (hb : b < run.numBlocks)
    (hset : bitmapGet run.allocBitmap b = true) : ChunkOk (blockCleared chunk c run b) := by
  have hrun := (h.runs c).run run hmem
  have hcount := hrun.kept.release_count (b := b)
  have hok := hrun.release hb hset
  have hlt := (h.runs c).used run hmem
  obtain ⟨h1, h2, h3, -⟩ := blockCleared_fields chunk c run b
  refine ⟨h3.trans h.offset, by rw [h2]; exact h.large, by rw [h1, h2]; exact h.fits, ?_⟩
  intro c'
  rcases blockCleared_lists chunk c run b with ⟨-, h4, h5⟩ | ⟨hlast, h4, h5⟩
  · rw [h4, h5]
    by_cases he : c' = c
    · subst he
      simpa using (h.runs c').unlink
    · simpa [he] using h.runs c'
  · rw [h4, h5]
    have hstore := (h.runs c).store hok (by rw [hcount]; omega)
      (by rw [hcount, ChunkRun.release_numBlocks]; omega)
    by_cases he : c' = c
    · subst he
      simpa using hstore
    · simpa [he] using h.runs c'

/-- Clearing a marked block unmarks it and nothing else. -/
theorem allocated_blockCleared
    (hnd : ((chunk.runsFree c ++ chunk.runsFull c).map ChunkRun.addr).Nodup) {run : ChunkRun} {b : ℕ}
    (hmem : run ∈ chunk.runsFree c ++ chunk.runsFull c) (hrun : RunKept c run)
    (hb : b < run.numBlocks) (hset : bitmapGet run.allocBitmap b = true) (c' a' b' : ℕ) :
    Allocated (blockCleared chunk c run b) c' a' b' ↔
      Allocated chunk c' a' b' ∧ ¬ (c' = c ∧ a' = run.addr ∧ b' = b) := by
  unfold Allocated
  rcases blockCleared_lists chunk c run b with ⟨hlast, h4, h5⟩ | ⟨-, h4, h5⟩
  · rw [h4, h5]
    by_cases he : c' = c
    · subst he
      simp only [Function.update_self, ← unlinkRun_append]
      constructor
      · rintro ⟨r, hr, rfl, hlt, hbit⟩
        obtain ⟨hr, ha⟩ := mem_unlinkRun.mp hr
        exact ⟨⟨r, hr, rfl, hlt, hbit⟩, fun hx => ha hx.2.1⟩
      · rintro ⟨⟨r, hr, rfl, hlt, hbit⟩, hx⟩
        refine ⟨r, mem_unlinkRun.mpr ⟨hr, fun ha => ?_⟩, rfl, hlt, hbit⟩
        -- it was the last marked block of its run
        have he := List.inj_on_of_nodup_map hnd hr hmem ha
        subst he
        have hcount := hrun.count
        have hclear := setCount_clearBit hb hset
        have hzero : setCount (bitmapClearBit r.allocBitmap b) r.numBlocks = 0 := by omega
        have hno := setCount_eq_zero hzero hlt
        rw [bitmapGet_clearBit, hbit, Bool.and_true, Bool.not_eq_false', decide_eq_true_eq] at hno
        exact hx ⟨trivial, rfl, hno⟩
    · simp [he]
  · rw [h4, h5]
    by_cases he : c' = c
    · subst he
      simp only [Function.update_self, ← storeRun_append]
      constructor
      · rintro ⟨r, hr, rfl, hlt, hbit⟩
        rcases mem_storeRun.mp hr with ⟨hr, ha⟩ | ⟨rfl, -⟩
        · exact ⟨⟨r, hr, rfl, hlt, hbit⟩, fun hx => ha hx.2.1⟩
        · rw [ChunkRun.bit_release, Bool.and_eq_true, Bool.not_eq_true', decide_eq_false_iff_not] at hbit
          exact ⟨⟨run, hmem, rfl, hlt, hbit.2⟩, fun hx => hbit.1 hx.2.2⟩
      · rintro ⟨⟨r, hr, rfl, hlt, hbit⟩, hx⟩
        by_cases ha : r.addr = run.addr
        · have he := List.inj_on_of_nodup_map hnd hr hmem ha
          subst he
          refine ⟨r.release b, mem_storeRun.mpr (Or.inr ⟨rfl, r, hr, rfl⟩), rfl, hlt, ?_⟩
          rw [ChunkRun.bit_release, hbit, Bool.and_true, Bool.not_eq_true', decide_eq_false_iff_not]
          exact fun hk => hx ⟨trivial, rfl, hk⟩
        · exact ⟨r, mem_storeRun.mpr (Or.inl ⟨hr, ha⟩), rfl, hlt, hbit⟩
    · simp [he]

end

end Nomalloc
