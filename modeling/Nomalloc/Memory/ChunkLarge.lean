import Nomalloc.Memory.ChunkBooks

/-!
# Where the blocks of one chunk lie

`chunk_alloc_large` hands out the bytes from `allocated_bytes` on; the counter only grows, and the
rounded size and the room that is left are 64-bit words.  A pointer finds its chunk again by
`ptr_to_chunk`, which clears the 21 low bits, whatever the size of the chunk.

* `LargeSys`      a chunk and the ranges its callers were given;
* `given_ok_iff`  the ranges lie in the chunk and apart from each other exactly as long as no size
                  wraps when it is rounded up;
* `ChunkCall`     a call of one of the four functions on a chunk;
* `found_iff`     every pointer finds its chunk exactly as long as no large block starts 2 MiB or
                  more into the chunk.
-/

namespace Nomalloc

/-- A chunk and the ranges given to its callers: address and size. -/
structure LargeSys where
  chunk : Chunk
  given : List (ℕ × ℕ)

def LargeSys.step (s : LargeSys) (size : ℕ) : LargeSys :=
  let r := chunkAllocLarge s.chunk size
  ⟨r.1, (r.2.map fun ptr => (ptr, size)).toList ++ s.given⟩

/-- The ranges given lie in `[base + usable_offset, base + size)` and are pairwise disjoint. -/
def LargeSys.GivenOk (s : LargeSys) : Prop :=
  s.given.Pairwise (fun x y => RangesDisjoint x.1 x.2 y.1 y.2) ∧
    ∀ x ∈ s.given, usableBase s.chunk ≤ x.1 ∧ x.1 + x.2 ≤ s.chunk.baseAddr + s.chunk.size

/-- A call of one of the four functions. -/
inductive ChunkCall where
  | allocSmall (c : ℕ) (env : MetaEnv)
  | freeSmall (ptr c : ℕ)
  | allocLarge (size : ℕ)
  | freeLarge (ptr size : ℕ)

/-- The chunk a call leaves, and the pointer that it returns. -/
def ChunkCall.run (chunk : Chunk) : ChunkCall → Chunk × Option ℕ
  | .allocSmall c env =>
    let r := chunkAllocSmall chunk c env
    (r.chunk, r.ptr)
  | .freeSmall ptr c => ((chunkFreeSmall chunk ptr c).1, none)
  | .allocLarge size => chunkAllocLarge chunk size
  | .freeLarge ptr size => (chunkFreeLarge chunk ptr size, none)

def ChunkCall.step (chunk : Chunk) (call : ChunkCall) : Chunk := (call.run chunk).1

/-- The pointer that the call returns finds the chunk. -/
def ChunkCall.Found (chunk : Chunk) (call : ChunkCall) : Prop :=
  ∀ ptr, (call.run chunk).2 = some ptr →
    ptrToChunk ptr = chunk.baseAddr ∧ ptrIsInChunk (call.step chunk) ptr = true

/-- A large block starts below `CHUNK_ALIGN`, or there is no room for it. -/
def ChunkCall.StartsLow (chunk : Chunk) : ChunkCall → Prop
  | .allocLarge size =>
    chunkGetAvailable chunk < alignUp size CHUNK_RUN_SIZE ∨ chunk.allocatedBytes < CHUNK_ALIGN
  | _ => True

structure LargeSys.Inv (s : LargeSys) : Prop where
  mapped : Mapped s.chunk
  ne_zero : s.chunk.baseAddr ≠ 0
  aligned : CHUNK_ALIGN ∣ s.chunk.baseAddr
  low : s.chunk.usableOffset ≤ s.chunk.allocatedBytes
  high : s.chunk.allocatedBytes ≤ s.chunk.size
  apart : s.given.Pairwise fun x y => RangesDisjoint x.1 x.2 y.1 y.2
  within : ∀ x ∈ s.given, usableBase s.chunk ≤ x.1 ∧
    x.1 + x.2 ≤ s.chunk.baseAddr + s.chunk.allocatedBytes

structure ChunkCall.Inv (chunk : Chunk) : Prop where
  mapped : Mapped chunk
  aligned : CHUNK_ALIGN ∣ chunk.baseAddr
  below : chunk.baseAddr + chunk.size < wordSize
  counted : chunk.allocatedBytes < wordSize
  lists : ListsKept chunk

section
variable {chunk : Chunk} {s : LargeSys} {size : ℕ}

theorem chunkAllocLarge_none (h : chunkGetAvailable chunk < alignUp size CHUNK_RUN_SIZE) :
    chunkAllocLarge chunk size = (chunk, none) := if_pos h

theorem chunkAllocLarge_some (h : ¬ chunkGetAvailable chunk < alignUp size CHUNK_RUN_SIZE) :
    chunkAllocLarge chunk size =
      ({ chunk with
          allocatedBytes := addW chunk.allocatedBytes (alignUp size CHUNK_RUN_SIZE)
          isLarge := true },
        some (addW chunk.baseAddr chunk.allocatedBytes)) := if_neg h

/-! ## the ranges given -/

namespace LargeSys

theorem step_none (h : chunkGetAvailable s.chunk < alignUp size CHUNK_RUN_SIZE) :
    s.step size = s := by
  unfold step
  rw [chunkAllocLarge_none h]
  rfl

theorem step_some (h : ¬ chunkGetAvailable s.chunk < alignUp size CHUNK_RUN_SIZE) :
    s.step size =
      ⟨{ s.chunk with
          allocatedBytes := addW s.chunk.allocatedBytes (alignUp size CHUNK_RUN_SIZE)
          isLarge := true },
        (addW s.chunk.baseAddr s.chunk.allocatedBytes, size) :: s.given⟩ := by
  unfold step
  rw [chunkAllocLarge_some h]
  rfl

/-- The counter of a fresh chunk stands behind its record. -/
theorem inv_create {size base : ℕ} (hmap : MappingOk base (alignUp size CHUNK_ALIGN))
    (hc : chunkCreate size (some base) = some chunk) : LargeSys.Inv ⟨chunk, []⟩ := by
  have hmapped := (ChunkSys.inv_create hmap hc).1.chunk.mapped
  have hlarge := hmapped.large
  cases hc
  have hoff : alignUp SIZEOF_CHUNK 16 ≤ CHUNK_DEFAULT_SIZE := by decide
  exact ⟨hmapped, hmap.ne_zero, hmap.aligned, le_rfl, hoff.trans hlarge, List.Pairwise.nil,
    fun x hx => absurd hx List.not_mem_nil⟩

theorem Inv.size_lt (h : s.Inv) : s.chunk.size < wordSize := by
  have hfits := h.mapped.fits
  have hne := h.ne_zero
  omega

theorem Inv.available (h : s.Inv) :
    chunkGetAvailable s.chunk = s.chunk.size - s.chunk.allocatedBytes := subW_eq h.high h.size_lt

theorem Inv.givenOk (h : s.Inv) : s.GivenOk := by
  refine ⟨h.apart, fun x hx => ?_⟩
  obtain ⟨hlo, hhi⟩ := h.within x hx
  have hhigh := h.high
  exact ⟨hlo, by omega⟩

/-- A size that does not wrap gets a range of its own behind the others. -/
theorem Inv.step (h : s.Inv) (hpos : 0 < size) (hle : size ≤ wordSize - CHUNK_RUN_SIZE) :
    (s.step size).Inv := by
  by_cases hroom : chunkGetAvailable s.chunk < alignUp size CHUNK_RUN_SIZE
  · rw [step_none hroom]
    exact h
  have hrun : CHUNK_RUN_SIZE ≤ wordSize := by decide
  have hrun' : 0 < CHUNK_RUN_SIZE := by decide
  have hsize : size ≤ alignUp size CHUNK_RUN_SIZE := le_alignUp hrun' (by omega)
  have hlt := h.size_lt
  have hhigh := h.high
  have hlow := h.low
  have hfits := h.mapped.fits
  have hend : s.chunk.allocatedBytes + alignUp size CHUNK_RUN_SIZE ≤ s.chunk.size := by
    rw [h.available] at hroom
    omega
  have hptr : addW s.chunk.baseAddr s.chunk.allocatedBytes =
      s.chunk.baseAddr + s.chunk.allocatedBytes := addW_eq (by omega)
  have hbytes : addW s.chunk.allocatedBytes (alignUp size CHUNK_RUN_SIZE) =
      s.chunk.allocatedBytes + alignUp size CHUNK_RUN_SIZE := addW_eq (by omega)
  rw [step_some hroom, hptr, hbytes]
  have hmapped : Mapped { s.chunk with
      allocatedBytes := s.chunk.allocatedBytes + alignUp size CHUNK_RUN_SIZE
      isLarge := true } := ⟨h.mapped.offset, h.mapped.large, hfits⟩
  refine ⟨hmapped, h.ne_zero, h.aligned, Nat.le_add_right_of_le hlow, hend,
    List.Pairwise.cons (fun y hy => ?_) h.apart, fun x hx => ?_⟩
  · exact Or.inr (h.within y hy).2
  · dsimp only
    rcases List.mem_cons.mp hx with rfl | hx
    · exact ⟨Nat.add_le_add_left hlow _, by dsimp only; omega⟩
    · obtain ⟨hlo, hhi⟩ := h.within x hx
      exact ⟨hlo, by omega⟩

/-- A size that wraps is rounded to zero, so there is always room for it. -/
theorem Inv.not_givenOk_step (h : s.Inv) (hw : size < wordSize)
    (hgt : wordSize - CHUNK_RUN_SIZE < size) : ¬ (s.step size).GivenOk := by
  have hrun : CHUNK_RUN_SIZE < wordSize := by decide
  have hzero : alignUp size CHUNK_RUN_SIZE = 0 := alignUp_wraps hw hrun (by omega)
  have hroom : ¬ chunkGetAvailable s.chunk < alignUp size CHUNK_RUN_SIZE := by
    rw [hzero]
    exact Nat.not_lt_zero _
  rw [step_some hroom]
  intro hok
  obtain ⟨hlo, hhi⟩ := hok.2 _ List.mem_cons_self
  have hfits := h.mapped.fits
  have hbase : CHUNK_ALIGN ≤ s.chunk.baseAddr := Nat.le_of_dvd (Nat.pos_of_ne_zero h.ne_zero) h.aligned
  have hrun' : CHUNK_RUN_SIZE ≤ CHUNK_ALIGN := by decide
  unfold usableBase at *
  dsimp only at hlo hhi
  omega

end LargeSys

/-! ## the chunk of a pointer -/

/-- `ptr_to_chunk` gives an aligned chunk for the addresses of its first 2 MiB. -/
theorem ptrToChunk_eq_iff {base ptr : ℕ} (h : CHUNK_ALIGN ∣ base) :
    ptrToChunk ptr = base ↔ base ≤ ptr ∧ ptr < base + CHUNK_ALIGN := by
  have hpos : 0 < CHUNK_ALIGN := by decide
  unfold ptrToChunk
  constructor
  · intro he
    have hsplit := Nat.div_add_mod ptr CHUNK_ALIGN
    have hmod := Nat.mod_lt ptr hpos
    rw [Nat.mul_comm, he] at hsplit
    omega
  · obtain ⟨k, rfl⟩ := h
    rintro ⟨hlo, hhi⟩
    have hdiv : ptr / CHUNK_ALIGN = k :=
      Nat.div_eq_of_lt_le (by rwa [Nat.mul_comm]) (by rwa [Nat.mul_comm, Nat.mul_succ])
    rw [hdiv, Nat.mul_comm]

namespace ChunkCall

theorem step_eq (chunk : Chunk) (call : ChunkCall) : call.step chunk = (call.run chunk).1 := rfl

theorem run_allocLarge (chunk : Chunk) (size : ℕ) :
    run chunk (.allocLarge size) = chunkAllocLarge chunk size := rfl

theorem inv_create {size base : ℕ} (hmap : MappingOk base (alignUp size CHUNK_ALIGN))
    (hbelow : base + alignUp size CHUNK_ALIGN < wordSize)
    (hc : chunkCreate size (some base) = some chunk) : Inv chunk := by
  have hmapped := (ChunkSys.inv_create hmap hc).1.chunk.mapped
  have hlists := (Books.create hc).lists
  have hoff : alignUp SIZEOF_CHUNK 16 < wordSize := by decide
  cases hc
  exact ⟨hmapped, hmap.aligned, hbelow, hoff, hlists⟩

theorem allocatedBytes_alloc (h : ListsKept chunk) (hlt : chunk.allocatedBytes < wordSize) (c : ℕ)
    (env : MetaEnv) : (chunkAllocSmall chunk c env).chunk.allocatedBytes < wordSize := by
  have hout := chunkAllocSmall_outcome h c env
  generalize (chunkAllocSmall chunk c env).chunk = chunk', (chunkAllocSmall chunk c env).ptr = p
    at hout
  cases hout with
  | refused => exact hlt
  | blockless _ _ => exact hlt
  | first _ _ =>
    rw [(openRunTaken_bytes ..).1]
    exact addW_lt ..
  | next _ _ =>
    rw [(openRunTaken_bytes ..).1]
    exact addW_lt ..

theorem allocatedBytes_free (h : ListsKept chunk) (ptr c : ℕ) :
    (chunkFreeSmall chunk ptr c).1.allocatedBytes = chunk.allocatedBytes := by
  rcases chunkFreeSmall_cases (h.run c) ptr with he | ⟨-, run, -, b, -, -, -, -, he⟩
  · rw [he]
  · rw [he]
    exact (blockCleared_bytes ..).1

theorem Inv.congr {chunk' : Chunk} (h : Inv chunk) (hs : SameFrame chunk chunk')
    (hlt : chunk'.allocatedBytes < wordSize) (hlists : ListsKept chunk') : Inv chunk' := by
  refine ⟨h.mapped.congr hs, ?_, ?_, hlt, hlists⟩
  · rw [hs.baseAddr]
    exact h.aligned
  · rw [hs.baseAddr, hs.size]
    exact h.below

theorem Inv.large (h : Inv chunk) {allocated : ℕ} (hlt : allocated < wordSize) (freed : ℕ)
    (isLarge : Bool) : Inv { chunk with
      allocatedBytes := allocated
      freedBytes := freed
      isLarge := isLarge } := by
  have hbelow := h.below
  refine ⟨⟨h.mapped.offset, h.mapped.large, h.mapped.fits⟩, h.aligned, ?_, ?_,
    ⟨h.lists.short, h.lists.run⟩⟩
  · dsimp only
    exact hbelow
  · dsimp only
    exact hlt

theorem Inv.step (h : Inv chunk) (call : ChunkCall) : Inv (call.step chunk) := by
  cases call with
  | allocSmall c env =>
    show Inv (chunkAllocSmall chunk c env).chunk
    exact h.congr (chunkAllocSmall_frame chunk c env) (allocatedBytes_alloc h.lists h.counted c env)
      (h.lists.alloc c env)
  | freeSmall ptr c =>
    show Inv (chunkFreeSmall chunk ptr c).1
    refine h.congr (chunkFreeSmall_frame chunk ptr c) ?_ (h.lists.free ptr c)
    rw [allocatedBytes_free h.lists]
    exact h.counted
  | allocLarge size =>
    rw [step_eq, run_allocLarge]
    by_cases hroom : chunkGetAvailable chunk < alignUp size CHUNK_RUN_SIZE
    · rw [chunkAllocLarge_none hroom]
      exact h
    · have hlt := addW_lt chunk.allocatedBytes (alignUp size CHUNK_RUN_SIZE)
      rw [chunkAllocLarge_some hroom]
      exact h.large hlt chunk.freedBytes true
  | freeLarge ptr size =>
    show Inv (chunkFreeLarge chunk ptr size)
    unfold chunkFreeLarge
    by_cases hz : ptr = 0
    · rw [if_pos hz]
      exact h
    · rw [if_neg hz]
      exact h.large h.counted _ chunk.isLarge

theorem step_frame (chunk : Chunk) (call : ChunkCall) :
    (call.step chunk).baseAddr = chunk.baseAddr ∧ (call.step chunk).size = chunk.size := by
  cases call with
  | allocSmall c env =>
    have hs := chunkAllocSmall_frame chunk c env
    exact ⟨hs.baseAddr, hs.size⟩
  | freeSmall ptr c =>
    have hs := chunkFreeSmall_frame chunk ptr c
    exact ⟨hs.baseAddr, hs.size⟩
  | allocLarge size =>
    rw [step_eq, run_allocLarge]
    by_cases hroom : chunkGetAvailable chunk < alignUp size CHUNK_RUN_SIZE
    · rw [chunkAllocLarge_none hroom]
      exact ⟨rfl, rfl⟩
    · rw [chunkAllocLarge_some hroom]
      exact ⟨rfl, rfl⟩
  | freeLarge ptr size =>
    show (chunkFreeLarge chunk ptr size).baseAddr = _ ∧ (chunkFreeLarge chunk ptr size).size = _
    unfold chunkFreeLarge
    by_cases hz : ptr = 0
    · rw [if_pos hz]
      exact ⟨rfl, rfl⟩
    · rw [if_neg hz]
      exact ⟨rfl, rfl⟩

/-- An address finds the chunk when it is in the first 2 MiB of it. -/
theorem Inv.finds_iff (h : Inv chunk) (call : ChunkCall) (ptr : ℕ) :
    (ptrToChunk ptr = chunk.baseAddr ∧ ptrIsInChunk (call.step chunk) ptr = true) ↔
      chunk.baseAddr ≤ ptr ∧ ptr < chunk.baseAddr + CHUNK_ALIGN := by
  obtain ⟨hbase, hsize⟩ := step_frame chunk call
  have hlarge : CHUNK_ALIGN ≤ chunk.size := h.mapped.large
  rw [ptrToChunk_eq_iff h.aligned]
  refine and_iff_left_of_imp fun ⟨hlo, hhi⟩ => ?_
  unfold ptrIsInChunk
  rw [hbase, hsize, addW_eq h.below]
  exact decide_eq_true ⟨hlo, by omega⟩

/-- A small block lies in the first run of the chunk. -/
theorem Inv.small_low (h : Inv chunk) {c : ℕ} {env : MetaEnv} {ptr : ℕ}
    (hptr : (chunkAllocSmall chunk c env).ptr = some ptr) :
    chunk.baseAddr ≤ ptr ∧ ptr < chunk.baseAddr + CHUNK_ALIGN := by
  have hblock : ∀ run, RunKept c run → run.firstFree < run.numBlocks →
      chunk.baseAddr ≤ smallAddr chunk run ∧ smallAddr chunk run < chunk.baseAddr + CHUNK_ALIGN := by
    intro run hrun hb
    have hend := hrun.block_end_le hb
    have hpos := hrun.blockSize_pos
    have hoff : SIZEOF_CHUNK + 4096 < CHUNK_ALIGN := by decide
    rw [smallAddr_eq h.mapped hrun hb]
    unfold usableBase
    rw [h.mapped.offset]
    omega
  have hout := chunkAllocSmall_outcome h.lists c env
  rw [hptr] at hout
  generalize (chunkAllocSmall chunk c env).chunk = chunk' at hout
  cases hout with
  | first hopens hb => exact hblock _ (newRun_kept hopens.pos) (newRun_firstFree_lt hb)
  | @next run hl hb =>
    refine hblock run (h.lists.run c run ?_) hb
    rw [hl]
    exact List.mem_cons_self

/-- A large block starts where the counter stands. -/
theorem Inv.large_low_iff (h : Inv chunk) :
    (chunk.baseAddr ≤ addW chunk.baseAddr chunk.allocatedBytes ∧
      addW chunk.baseAddr chunk.allocatedBytes < chunk.baseAddr + CHUNK_ALIGN) ↔
        chunk.allocatedBytes < CHUNK_ALIGN := by
  have hlarge : CHUNK_ALIGN ≤ chunk.size := h.mapped.large
  have hbelow := h.below
  have hcounted := h.counted
  rcases Nat.lt_or_ge (chunk.baseAddr + chunk.allocatedBytes) wordSize with hlt | hge
  · rw [addW_eq hlt]
    omega
  · -- the address wraps to one below the chunk
    have hwrap : addW chunk.baseAddr chunk.allocatedBytes =
        chunk.baseAddr + chunk.allocatedBytes - wordSize := addW_wrap hge (by omega)
    rw [hwrap]
    omega

theorem Inv.found_call_iff (h : Inv chunk) (call : ChunkCall) :
    call.Found chunk ↔ call.StartsLow chunk := by
  cases call with
  | allocSmall c env =>
    exact iff_of_true (fun ptr hptr => (h.finds_iff _ ptr).mpr (h.small_low hptr)) trivial
  | freeSmall ptr c => exact iff_of_true (fun ptr hptr => nomatch hptr) trivial
  | freeLarge ptr size => exact iff_of_true (fun ptr hptr => nomatch hptr) trivial
  | allocLarge size =>
    by_cases hroom : chunkGetAvailable chunk < alignUp size CHUNK_RUN_SIZE
    · refine iff_of_true (fun ptr hptr => ?_) (Or.inl hroom)
      rw [run_allocLarge, chunkAllocLarge_none hroom] at hptr
      cases hptr
    · have hptr : ∀ ptr, (ChunkCall.run chunk (.allocLarge size)).2 = some ptr ↔
          addW chunk.baseAddr chunk.allocatedBytes = ptr := by
        intro ptr
        rw [run_allocLarge, chunkAllocLarge_some hroom, Option.some_inj]
      have hlow : StartsLow chunk (.allocLarge size) ↔ chunk.allocatedBytes < CHUNK_ALIGN :=
        or_iff_right hroom
      rw [hlow, ← h.large_low_iff, ← h.finds_iff (.allocLarge size)]
      constructor
      · exact fun hfound => hfound _ ((hptr _).mpr rfl)
      · intro hfinds ptr he
        rw [← (hptr ptr).mp he]
        exact hfinds

end ChunkCall

end

/-- **Large blocks lie apart** and in their chunk exactly as long as no size is above
`2^64 - 4096`: such a size is rounded up to zero, and a pointer is returned for it. -/
theorem given_ok_iff {size base : ℕ} {chunk : Chunk} {sizes : List ℕ}
    (hmap : MappingOk base (alignUp size CHUNK_ALIGN))
    (hc : chunkCreate size (some base) = some chunk)
    (hsizes : ∀ n ∈ sizes, 0 < n ∧ n < wordSize) :
    Runs.Always LargeSys.step LargeSys.GivenOk ⟨chunk, []⟩ sizes ↔
      ∀ n ∈ sizes, n ≤ wordSize - CHUNK_RUN_SIZE := by
  rw [← Runs.each_iff_forall]
  exact Runs.always_iff_each_of (fun s n hs hn hle => hs.step hn.1 hle) (fun s hs => hs.givenOk)
    (fun s n hs hn hgt => hs.not_givenOk_step hn.2 (Nat.not_le.mp hgt))
    (LargeSys.inv_create hmap hc) (Runs.each_iff_forall.mpr hsizes)

/-- Two large blocks. -/
theorem given_ok_run :
    Runs.Always LargeSys.step LargeSys.GivenOk ⟨firstChunk, []⟩ [100, 4096] :=
  (given_ok_iff firstChunk_mapping rfl (by decide)).mpr (by decide)

/-- The largest size gets a pointer. -/
theorem wrapped_size_given :
    MappingOk CHUNK_ALIGN (alignUp CHUNK_DEFAULT_SIZE CHUNK_ALIGN) ∧
      chunkCreate CHUNK_DEFAULT_SIZE (some CHUNK_ALIGN) = some firstChunk ∧
      ¬ Runs.Always LargeSys.step LargeSys.GivenOk ⟨firstChunk, []⟩ [wordSize - 1] := by
  have hinv : LargeSys.Inv ⟨firstChunk, []⟩ := LargeSys.inv_create firstChunk_mapping rfl
  exact ⟨firstChunk_mapping, rfl, fun h => hinv.not_givenOk_step (by decide) (by decide) h.2⟩

/-- **Every pointer finds its chunk** exactly as long as no large block is handed out once
`allocated_bytes` has reached 2 MiB. -/
theorem found_iff {size base : ℕ} {chunk : Chunk} {calls : List ChunkCall}
    (hmap : MappingOk base (alignUp size CHUNK_ALIGN))
    (hbelow : base + alignUp size CHUNK_ALIGN < wordSize)
    (hc : chunkCreate size (some base) = some chunk) :
    Runs.Each ChunkCall.step ChunkCall.Found chunk calls ↔
      Runs.Each ChunkCall.step ChunkCall.StartsLow chunk calls :=
  Runs.each_iff_each_of (fun _ call h _ => h.step call) (fun _ call h _ => h.found_call_iff call)
    (ChunkCall.inv_create hmap hbelow hc) (Runs.each_of_forall (fun _ _ => trivial) chunk calls)

/-- A small block and a large one. -/
theorem found_run : Runs.Each ChunkCall.step ChunkCall.Found firstChunk
    [.allocSmall 0 ⟨some 100, some 200⟩, .allocLarge 4096] := by
  refine (found_iff firstChunk_mapping (by decide) rfl).mpr ⟨trivial, Or.inr ?_, trivial⟩
  decide +kernel

/-- The chunk of the run below, of 4 MiB. -/
def bigChunk : Chunk := (chunkCreate (2 * CHUNK_ALIGN) (some CHUNK_ALIGN)).get rfl

theorem bigChunk_mapping : MappingOk CHUNK_ALIGN (alignUp (2 * CHUNK_ALIGN) CHUNK_ALIGN) :=
  ⟨by decide, ⟨1, rfl⟩, by decide, by decide⟩

/-- The second block starts in the second 2 MiB of the chunk. -/
theorem second_half_lost :
    CHUNK_MIN_SIZE ≤ 2 * CHUNK_ALIGN ∧ 2 * CHUNK_ALIGN ≤ CHUNK_MAX_SIZE ∧
      MappingOk CHUNK_ALIGN (alignUp (2 * CHUNK_ALIGN) CHUNK_ALIGN) ∧
      chunkCreate (2 * CHUNK_ALIGN) (some CHUNK_ALIGN) = some bigChunk ∧
      ¬ Runs.Each ChunkCall.step ChunkCall.Found bigChunk
        [.allocLarge CHUNK_ALIGN, .allocLarge 4096] := by
  refine ⟨by decide, by decide, bigChunk_mapping, rfl, fun h => ?_⟩
  have hptr := h.2.1 (CHUNK_ALIGN + 1600 + CHUNK_ALIGN) (by decide +kernel)
  exact absurd hptr.1 (by decide)

end Nomalloc
