import Nomalloc.Core.Allocator

/-!
# What one call of the allocator does

* `whenReady_cases`   the beginnings of a call: ready, during initialisation, before it;
* `mallocReady_null`, `mallocReady_some`, `reallocGrow_null`, `reallocGrow_some`,
  `alignedPlace_null`, `alignedPlace_some`   the results, by the answer of libc;
* `allocatorFree_noHeader`, `allocatorFree_header`   the address handed to `__libc_free`.

`MAX_REQUEST` is the largest size for which the sum in `totalSize` does not wrap, `atLeastOne` the
size a request for nothing is served with.
-/

namespace Nomalloc

open Bytes

/-- The largest size whose total does not wrap. -/
def MAX_REQUEST : ℕ := wordSize - 64

/-- A request for no bytes is one for a single byte. -/
def atLeastOne (size : ℕ) : ℕ := if size = 0 then 1 else size

/-- The subsystems started by `allocator_init` all come up. -/
def LibcEnv.up (env : LibcEnv) : Bool := env.arenaManagerInit && env.arenaCreate && env.keyCreate

/-- libc answers `raw`, and everything comes up. -/
def libcAt (raw : ℕ) : LibcEnv := ⟨raw, true, true, true⟩

theorem atLeastOne_eq (size : ℕ) : atLeastOne size = max size 1 := by
  unfold atLeastOne
  split <;> omega

namespace Allocator
variable {s : Allocator} {env : LibcEnv} {size : ℕ}

/-! ## sizes -/

theorem totalSize_eq (h : size ≤ MAX_REQUEST) :
    totalSize size = alignUp size 16 + 48 ∧ size ≤ alignUp size 16 ∧
      alignUp size 16 ≤ size + 15 ∧ totalSize size < wordSize := by
  have hmax : size + 64 ≤ wordSize := by unfold MAX_REQUEST wordSize at h; unfold wordSize; omega
  have hlo : size ≤ alignUp size 16 := le_alignUp (by decide) (by omega)
  have hhi : alignUp size 16 ≤ size + 16 - 1 := alignUp_le (by decide) (by omega)
  -- `2^64` is a multiple of 16, so that the rounded size is at most `2^64 - 64` too
  have hdvd : 16 ∣ alignUp size 16 := dvd_alignUp (by decide) (by omega)
  have hround : alignUp size 16 + 64 ≤ wordSize := by unfold wordSize at *; omega
  have h1 : addW (alignUp size 16) 32 = alignUp size 16 + 32 := addW_eq (by omega)
  have h2 : totalSize size = alignUp size 16 + 32 + 16 := by
    unfold totalSize ALLOC_HEADER_ALIGNMENT ALLOC_HEADER_SIZE
    rw [h1]
    exact addW_eq (by omega)
  omega

/-- Past `MAX_REQUEST` the total wraps to at most 48 bytes. -/
theorem totalSize_wraps (h : MAX_REQUEST < size) (hw : size < wordSize) : totalSize size ≤ 48 := by
  unfold totalSize ALLOC_HEADER_ALIGNMENT ALLOC_HEADER_SIZE
  unfold MAX_REQUEST at h
  rcases Nat.lt_or_ge (size + 15) wordSize with hlt | hge
  · have hlo : size ≤ alignUp size 16 := le_alignUp (by decide) (by omega)
    have hhi : alignUp size 16 ≤ size + 16 - 1 := alignUp_le (by decide) (by omega)
    have hdvd : 16 ∣ alignUp size 16 := dvd_alignUp (by decide) (by omega)
    unfold addW wordSize at *
    omega
  · rw [alignUp_wraps hw (by decide) hge]
    decide

/-! ## libc -/

theorem libcMalloc_null (h : env.raw = 0) : s.libcMalloc size env = (0, s) := if_pos h

theorem libcMalloc_some (h : env.raw ≠ 0) :
    s.libcMalloc size env = (env.raw, s.obtain ⟨env.raw, size⟩) := if_neg h

/-! ## how a call begins -/

/-- `allocator_init` on an allocator that is not initialised keeps everything but the flags and
the counters. -/
theorem allocatorInit_cold (h : s.initialized = false) (h' : s.initializing = false) :
    s.allocatorInit env =
      if env.up then (0, s.setState true false 0 0) else (-1, s.setState false false 0 0) := by
  unfold allocatorInit LibcEnv.up
  rw [h, h']
  cases env.arenaManagerInit <;> cases env.arenaCreate <;> cases env.keyCreate <;> rfl

theorem whenReady_ready {fallback body : Allocator → ℕ × Allocator} (h : s.initialized = true) :
    s.whenReady env fallback body = body s := if_pos h

theorem whenReady_cases (s : Allocator) (env : LibcEnv) (fallback body : Allocator → ℕ × Allocator) :
    (s.initialized = true ∧ s.whenReady env fallback body = body s) ∨
    (s.initialized = false ∧ s.initializing = true ∧
      s.whenReady env fallback body = fallback s) ∨
    (s.initialized = false ∧ s.initializing = false ∧ env.up = true ∧
      s.whenReady env fallback body = body (s.setState true false 0 0)) ∨
    (s.initialized = false ∧ s.initializing = false ∧ env.up = false ∧
      s.whenReady env fallback body = (0, s.setState false false 0 0)) := by
  cases h : s.initialized with
  | true => exact .inl ⟨rfl, whenReady_ready h⟩
  | false =>
    have hcold : ¬ s.initialized = true := by simp [h]
    cases h' : s.initializing with
    | true =>
      refine .inr (.inl ⟨rfl, rfl, ?_⟩)
      unfold whenReady
      rw [if_neg hcold, if_pos h']
    | false =>
      have hstart : s.whenReady env fallback body =
          if (s.allocatorInit env).1 ≠ 0 then (0, (s.allocatorInit env).2)
          else body (s.allocatorInit env).2 := by
        unfold whenReady
        rw [if_neg hcold, if_neg (by simp [h'])]
      rw [hstart, allocatorInit_cold h h']
      cases hup : env.up with
      | true => exact .inr (.inr (.inl ⟨rfl, rfl, rfl, rfl⟩))
      | false => exact .inr (.inr (.inr ⟨rfl, rfl, rfl, rfl⟩))

/-! ## malloc, realloc, aligned_alloc -/

theorem mallocReady_null (h : env.raw = 0) : s.mallocReady size env = (0, s) := by
  unfold mallocReady
  dsimp only
  rw [libcMalloc_null h]
  exact if_pos rfl

theorem mallocReady_some (h : env.raw ≠ 0) :
    s.mallocReady size env = (addW env.raw 32,
      ((s.obtain ⟨env.raw, totalSize (atLeastOne size)⟩).setMem
        (AllocHeader.write s.mem env.raw env.raw (totalSize (atLeastOne size))
          (atLeastOne size) 0)).countAllocated (atLeastOne size)) := by
  unfold mallocReady
  dsimp only
  rw [libcMalloc_some h]
  dsimp only
  rw [if_neg h]
  unfold addHeader
  rw [if_neg h]
  rfl

theorem reallocGrow_null {ptr header : ℕ} (h : env.raw = 0) :
    s.reallocGrow ptr header size env = (0, s) := by
  unfold reallocGrow
  rw [libcMalloc_null h]
  exact if_pos rfl

/-- The memory after a block has been moved to `raw + 32`. -/
def movedMem (m : Mem) (raw ptr oldSize size : ℕ) : Mem :=
  AllocHeader.write (copy m (addW raw ALLOC_HEADER_SIZE) ptr oldSize) raw raw (totalSize size) size 0

theorem reallocGrow_some {ptr header : ℕ} (h : env.raw ≠ 0) :
    s.reallocGrow ptr header size env = (addW env.raw 32,
      ((((s.obtain ⟨env.raw, totalSize size⟩).setMem
        (movedMem s.mem env.raw ptr (AllocHeader.requestedSize s.mem header) size)).countFreed
          (AllocHeader.requestedSize s.mem header)).countAllocated size).libcFree
        (AllocHeader.rawPtr
          (movedMem s.mem env.raw ptr (AllocHeader.requestedSize s.mem header) size) header)) := by
  unfold reallocGrow
  rw [libcMalloc_some h]
  dsimp only
  rw [if_neg h]
  rfl

theorem alignedPlace_null {alignment : ℕ} (h : env.raw = 0) :
    s.alignedPlace alignment size env = (0, s) := by
  unfold alignedPlace
  dsimp only
  rw [libcMalloc_null h]
  exact if_pos rfl

/-- Where `allocator_aligned_alloc` puts the client's bytes. -/
def alignedTarget (raw alignment : ℕ) : ℕ := alignUp (addW raw ALLOC_HEADER_SIZE) alignment

theorem alignedPlace_some {alignment : ℕ} (h : env.raw ≠ 0) :
    s.alignedPlace alignment size env = (alignedTarget env.raw alignment,
      (s.obtain ⟨env.raw, addW (addW size alignment) 32⟩).setMem
        (AllocHeader.write s.mem (subW (alignedTarget env.raw alignment) 32) env.raw
          (addW (addW size alignment) 32) size alignment)) := by
  unfold alignedPlace
  dsimp only
  rw [libcMalloc_some h]
  dsimp only
  rw [if_neg h]
  rfl

/-- The aligned address where nothing wraps. -/
theorem alignedTarget_bounds {raw alignment : ℕ} (ha : 0 < alignment)
    (h : raw + 32 + alignment ≤ wordSize) :
    alignment ∣ alignedTarget raw alignment ∧ raw + 32 ≤ alignedTarget raw alignment ∧
      alignedTarget raw alignment + 1 ≤ raw + 32 + alignment := by
  have hadd : addW raw ALLOC_HEADER_SIZE = raw + 32 := addW_eq (by unfold ALLOC_HEADER_SIZE; omega)
  unfold alignedTarget
  rw [hadd]
  have hlo : raw + 32 ≤ alignUp (raw + 32) alignment := le_alignUp ha (by omega)
  have hhi : alignUp (raw + 32) alignment ≤ raw + 32 + alignment - 1 := alignUp_le ha (by omega)
  exact ⟨dvd_alignUp ha (by omega), hlo, by omega⟩

/-- The same for any alignment; `align_up` to zero leaves an address as it is. -/
theorem alignedTarget_room {raw alignment : ℕ} (h : raw + 32 + alignment ≤ wordSize)
    (hlt : raw + 32 < wordSize) :
    raw + 32 ≤ alignedTarget raw alignment ∧
      alignedTarget raw alignment ≤ raw + 32 + (alignment - 1) := by
  rcases Nat.eq_zero_or_pos alignment with rfl | ha
  · have hzero : alignedTarget raw 0 = raw + 32 := by
      unfold alignedTarget alignUp
      rw [if_pos rfl]
      exact addW_eq hlt
    omega
  · obtain ⟨-, hlo, hhi⟩ := alignedTarget_bounds ha h
    omega

/-! ## free -/

theorem allocatorFree_header {ptr header : ℕ} (h : s.initialized = true)
    (h' : s.initializing = false) (hh : getHeader s.mem ptr = some header) :
    s.allocatorFree ptr = (s.countFreed (AllocHeader.requestedSize s.mem header)).libcFree
      (AllocHeader.rawPtr s.mem header) := by
  have hp := (getHeader_eq_some.1 hh).1
  unfold allocatorFree
  rw [if_neg (by omega), if_neg (by simp [h, h']), hh]

theorem allocatorFree_noHeader {ptr : ℕ} (hp : ptr ≠ 0) (hh : getHeader s.mem ptr = none) :
    s.allocatorFree ptr = s.libcFree ptr := by
  unfold allocatorFree
  rw [if_neg hp, hh]
  split <;> rfl

end Allocator
end Nomalloc
