import Nomalloc.Core.AllocatorCalls

/-!
# `allocator_aligned_alloc`: the bytes and the way back

The block comes from libc with room for the alignment and one header; the client's bytes start at
the first multiple of the alignment past `raw + 32`, and the header stands right before them,
wherever in the block that is (`PlacesAligned`).  `ServesAligned` says moreover that the header
leads `free` back, with the allocator as the call leaves it; `aligned_alloc_serves_iff` proves of
`allocator_aligned_alloc`, `posix_memalign`, `memalign` and `valloc` that they do so exactly when
the allocator is up or comes up.  While it initialises or shuts down, `free` takes no header into
account.
-/

namespace Nomalloc

open Bytes

/-- The call that takes `s` to `s'` put `size` bytes at `u`, aligned and behind a header, into the
block that libc handed out at `raw`. -/
structure PlacesAligned (s s' : Allocator) (alignment size raw u : ℕ) : Prop where
  /-- the one call made to libc -/
  asked : s'.log = .got ⟨raw, size + alignment + 32⟩ :: s.log
  aligned : alignment ∣ u
  /-- the header `[u - 32, u)` is in the block -/
  header : raw + 32 ≤ u
  /-- and so are the client's bytes -/
  room : u + size ≤ raw + (size + alignment + 32)
  /-- only the header is written -/
  written : ∀ x, x < u - 32 ∨ u ≤ x → s'.mem x = s.mem x
  /-- as long as the header stands, it is found and read as it was written -/
  found : ∀ m, SameOn s'.mem m (u - 32) 32 → getHeader m u = some (u - 32) ∧
    AllocHeader.rawPtr m (u - 32) = raw ∧ AllocHeader.requestedSize m (u - 32) = size

/-- The call that takes `s` to `s'` returned `u`: at least `size` bytes aligned to `alignment`, in
the block that libc handed out at `raw`. -/
structure ServesAligned (s s' : Allocator) (alignment size raw u : ℕ) : Prop where
  placed : PlacesAligned s s' alignment (max size 1) raw u
  /-- as long as the header and the flags stand, `free` hands `raw` back -/
  freed : ∀ t : Allocator, t.initialized = s'.initialized → t.initializing = s'.initializing →
    SameOn s'.mem t.mem (u - 32) 32 → (t.allocatorFree u).log = .gave raw :: t.log
  usable : ∀ m, SameOn s'.mem m (u - 32) 32 → allocatorMallocUsableSize m u = max size 1

theorem PlacesAligned.usable {s s' : Allocator} {alignment size raw u : ℕ} {m : Mem}
    (h : PlacesAligned s s' alignment size raw u) (hs : SameOn s'.mem m (u - 32) 32) :
    allocatorMallocUsableSize m u = size := by
  obtain ⟨hget, -, hreq⟩ := h.found m hs
  unfold allocatorMallocUsableSize
  rw [if_neg (by have := h.header; omega), hget]
  exact hreq

namespace Allocator
variable {s : Allocator} {env : LibcEnv} {alignment size : ℕ}

/-- A header that still stands is found, and read as it was written. -/
theorem header_found {m m' : Mem} {u raw n fl : ℕ} {total : ℕ} (hu : 32 ≤ u)
    (hraw : raw < wordSize) (hn : n < wordSize)
    (hs : SameOn (AllocHeader.write m (u - 32) raw total n fl) m' (u - 32) 32) :
    getHeader m' u = some (u - 32) ∧ AllocHeader.rawPtr m' (u - 32) = raw ∧
      AllocHeader.requestedSize m' (u - 32) = n := by
  refine ⟨getHeader_eq_some.2 ⟨hu, rfl, ?_⟩, ?_, ?_⟩
  · rw [AllocHeader.magic_congr hs, AllocHeader.magic_write]
  · rw [AllocHeader.rawPtr_congr hs, AllocHeader.rawPtr_write hraw]
  · rw [AllocHeader.requestedSize_congr hs, AllocHeader.requestedSize_write hn]

/-- The common part of the two branches, where no sum wraps. -/
theorem alignedPlace_places (ha : 0 < alignment) (hfit : size + alignment + 32 < wordSize)
    (hraw : env.raw ≠ 0) (htop : env.raw + 32 + alignment ≤ wordSize) :
    PlacesAligned s (s.alignedPlace alignment size env).2 alignment size env.raw
      (s.alignedPlace alignment size env).1 := by
  obtain ⟨hdvd, hlo, hhi⟩ := alignedTarget_bounds ha htop
  have htotal : addW (addW size alignment) 32 = size + alignment + 32 := by
    rw [addW_eq (show size + alignment < wordSize by omega)]
    exact addW_eq hfit
  have hheader : subW (alignedTarget env.raw alignment) 32 =
      alignedTarget env.raw alignment - 32 := subW_eq (by omega) (by omega)
  rw [alignedPlace_some hraw, htotal, hheader]
  have hfound : ∀ m', SameOn (AllocHeader.write s.mem (alignedTarget env.raw alignment - 32)
      env.raw (size + alignment + 32) size alignment) m' (alignedTarget env.raw alignment - 32) 32 →
      getHeader m' (alignedTarget env.raw alignment) = some (alignedTarget env.raw alignment - 32) ∧
      AllocHeader.rawPtr m' (alignedTarget env.raw alignment - 32) = env.raw ∧
      AllocHeader.requestedSize m' (alignedTarget env.raw alignment - 32) = size :=
    fun m' hs => header_found (by omega) (by omega) (by omega) hs
  refine ⟨rfl, hdvd, hlo, by dsimp only; omega, fun x hx => ?_, hfound⟩
  exact AllocHeader.write_outside (by dsimp only at hx; omega)

theorem alignedPlace_flags (s : Allocator) (alignment size : ℕ) (env : LibcEnv) :
    (s.alignedPlace alignment size env).2.initialized = s.initialized ∧
      (s.alignedPlace alignment size env).2.initializing = s.initializing := by
  by_cases hraw : env.raw = 0
  · rw [alignedPlace_null hraw]
    exact ⟨rfl, rfl⟩
  · rw [alignedPlace_some hraw]
    rw [setMem_initialized, setMem_initializing]
    exact ⟨obtain_initialized .., obtain_initializing ..⟩

/-- `allocator_aligned_alloc` places a block, as it is asked for or for one byte at least, or the
allocator does not come up. -/
theorem allocatorAlignedAlloc_cases (s : Allocator) (size : ℕ) (env : LibcEnv)
    (ha : isPowerOfTwo alignment = true) :
    (∃ t : Allocator, (t.log = s.log ∧ t.mem = s.mem) ∧
      (t.initialized = true ∧ t.initializing = s.initializing) ∧
      (s.initialized = true ∨ s.initializing = false ∧ env.up = true) ∧
      s.allocatorAlignedAlloc alignment size env =
        t.alignedPlace alignment (atLeastOne size) env) ∨
    (s.initialized = false ∧ s.initializing = true ∧
      s.allocatorAlignedAlloc alignment size env = s.alignedPlace alignment size env) ∨
    (s.initialized = false ∧ s.initializing = false ∧ env.up = false ∧
      (s.allocatorAlignedAlloc alignment size env).1 = 0) := by
  have hpos : alignment ≠ 0 := (Nat.pos_of_isPowerOfTwo (isPowerOfTwo_iff.1 ha)).ne'
  have hbody : ∀ t : Allocator, (if !isPowerOfTwo alignment || alignment = 0 then (0, t)
      else t.alignedPlace alignment (if size = 0 then 1 else size) env) =
      t.alignedPlace alignment (atLeastOne size) env :=
    fun t => if_neg (by simp [ha, hpos])
  unfold allocatorAlignedAlloc
  rcases whenReady_cases s env (fun s => s.alignedPlace alignment size env) (fun s =>
    if !isPowerOfTwo alignment || alignment = 0 then (0, s)
    else s.alignedPlace alignment (if size = 0 then 1 else size) env) with
    ⟨h, he⟩ | ⟨h, h', he⟩ | ⟨-, h', hup, he⟩ | ⟨h, h', hup, he⟩
  · exact .inl ⟨s, ⟨rfl, rfl⟩, ⟨h, rfl⟩, .inl h, he.trans (hbody s)⟩
  · exact .inr (.inl ⟨h, h', he⟩)
  · exact .inl ⟨s.setState true false 0 0, ⟨rfl, rfl⟩, ⟨rfl, h'.symm⟩, .inr ⟨h', hup⟩,
      he.trans (hbody _)⟩
  · exact .inr (.inr ⟨h, h', hup, by rw [he]⟩)

/-- The allocator is up, or comes up when it is called. -/
def ComesUp (s : Allocator) (env : LibcEnv) : Prop :=
  s.initializing = false ∧ (s.initialized = true ∨ env.up = true)

/-- On an allocator that comes up the header leads back. -/
theorem allocatorAlignedAlloc_serves (hup : s.ComesUp env) (ha : isPowerOfTwo alignment = true)
    (hfit : size + alignment + 32 < wordSize) (hraw : env.raw ≠ 0)
    (htop : env.raw + size + alignment + 32 ≤ wordSize) :
    ServesAligned s (s.allocatorAlignedAlloc alignment size env).2 alignment size env.raw
      (s.allocatorAlignedAlloc alignment size env).1 := by
  obtain ⟨hrest, hup⟩ := hup
  obtain ⟨hpos, hle⟩ := isPowerOfTwo_le ha (by omega)
  rcases allocatorAlignedAlloc_cases s size env ha with
    ⟨t, ⟨hlog, hmem⟩, ⟨ht, ht'⟩, -, he⟩ | ⟨-, h', -⟩ | ⟨h, -, h', -⟩
  · have hplaced : PlacesAligned t (t.alignedPlace alignment (atLeastOne size) env).2 alignment
        (atLeastOne size) env.raw (t.alignedPlace alignment (atLeastOne size) env).1 :=
      alignedPlace_places hpos (by rw [atLeastOne_eq]; unfold wordSize at *; omega) hraw (by omega)
    obtain ⟨hflag, hflag'⟩ := alignedPlace_flags t alignment (atLeastOne size) env
    rw [ht] at hflag
    rw [ht', hrest] at hflag'
    rw [he]
    generalize t.alignedPlace alignment (atLeastOne size) env = r at hplaced hflag hflag' ⊢
    refine ⟨?_, fun t' h h' hs => ?_, fun m hs => ?_⟩
    · rw [← atLeastOne_eq]
      obtain ⟨hasked, hdvd, hheader, hroom, hwritten, hfound⟩ := hplaced
      exact ⟨hlog ▸ hasked, hdvd, hheader, hroom, hmem ▸ hwritten, hfound⟩
    · obtain ⟨hget, hback, -⟩ := hplaced.found t'.mem hs
      rw [allocatorFree_header (h.trans hflag) (h'.trans hflag') hget, hback, libcFree_log,
        countFreed_log]
    · rw [← atLeastOne_eq]
      exact hplaced.usable hs
  · rw [hrest] at h'
    cases h'
  · rw [h, h'] at hup
    rcases hup with hup | hup <;> cases hup

/-- While the allocator is not up, `free` hands libc the pointer as it is. -/
theorem allocatorFree_down {t : Allocator} {u : ℕ} (hu : u ≠ 0)
    (hdown : t.initialized = false ∨ t.initializing = true) :
    (t.allocatorFree u).log = .gave u :: t.log := by
  have hbool : (!t.initialized || t.initializing) = true := by
    rcases hdown with h | h <;> simp [h]
  unfold allocatorFree
  rw [if_neg hu, if_pos hbool]
  rfl

theorem comesUp_of_serves (ha : isPowerOfTwo alignment = true)
    (hserves : ServesAligned s (s.allocatorAlignedAlloc alignment size env).2 alignment size env.raw
      (s.allocatorAlignedAlloc alignment size env).1) : s.ComesUp env := by
  have hheader := hserves.placed.header
  -- a `free` right after the call
  have hfreed := hserves.freed (s.allocatorAlignedAlloc alignment size env).2 rfl rfl
    (SameOn.refl _ _ _)
  have hready : ¬ ((s.allocatorAlignedAlloc alignment size env).2.initialized = false ∨
      (s.allocatorAlignedAlloc alignment size env).2.initializing = true) := fun hdown => by
    rw [allocatorFree_down (by omega) hdown] at hfreed
    have heq := Heap.Event.gave.inj (List.cons.inj hfreed).1
    omega
  rcases allocatorAlignedAlloc_cases s size env ha with
    ⟨t, -, ⟨-, ht'⟩, hup, he⟩ | ⟨h, -, he⟩ | ⟨-, -, -, he⟩
  · have hflag := (alignedPlace_flags t alignment (atLeastOne size) env).2
    rw [he] at hready
    have hrest : s.initializing = false := by
      cases hi : s.initializing with
      | false => rfl
      | true => exact absurd (.inr (hflag.trans (ht'.trans hi))) hready
    exact ⟨hrest, hup.imp_right fun h => h.2⟩
  · rw [he] at hready
    exact absurd (.inl ((alignedPlace_flags s alignment size env).1.trans h)) hready
  · omega

theorem allocatorAlignedAlloc_serves_iff (ha : isPowerOfTwo alignment = true)
    (hfit : size + alignment + 32 < wordSize) (hraw : env.raw ≠ 0)
    (htop : env.raw + size + alignment + 32 ≤ wordSize) :
    ServesAligned s (s.allocatorAlignedAlloc alignment size env).2 alignment size env.raw
      (s.allocatorAlignedAlloc alignment size env).1 ↔ s.ComesUp env :=
  ⟨comesUp_of_serves ha, fun hup => allocatorAlignedAlloc_serves hup ha hfit hraw htop⟩

theorem posixMemalign_serves_iff {memptr : ℕ} (hmemptr : memptr ≠ 0) (h8 : 8 ≤ alignment)
    (hsize : 0 < size) (ha : isPowerOfTwo alignment = true) (raw : ℕ) :
    (∃ u s', s.posixMemalign memptr alignment size env = ((0, some u), s') ∧
      ServesAligned s s' alignment size raw u) ↔
    ServesAligned s (s.allocatorAlignedAlloc alignment size env).2 alignment size raw
      (s.allocatorAlignedAlloc alignment size env).1 := by
  have hcall : s.posixMemalign memptr alignment size env =
      if (s.allocatorAlignedAlloc alignment size env).1 = 0 then
        ((ENOMEM, none), (s.allocatorAlignedAlloc alignment size env).2)
      else ((0, some (s.allocatorAlignedAlloc alignment size env).1),
        (s.allocatorAlignedAlloc alignment size env).2) := by
    unfold posixMemalign SIZEOF_POINTER
    rw [if_neg hmemptr, if_neg (by simp [ha]; omega), if_neg (by omega)]
  rw [hcall]
  generalize s.allocatorAlignedAlloc alignment size env = r
  by_cases hu : r.1 = 0
  · rw [if_pos hu]
    refine iff_of_false (fun ⟨u, s', he, _⟩ => ?_) fun hserves => ?_
    · cases (Prod.mk.inj (Prod.mk.inj he).1).2
    · have hheader := hserves.placed.header
      omega
  · rw [if_neg hu]
    constructor
    · rintro ⟨u, s', he, hserves⟩
      cases he
      exact hserves
    · exact fun hserves => ⟨_, _, rfl, hserves⟩

/-- **Aligned allocation.**  Whatever power of two is asked for, and wherever libc puts the block:
`allocator_aligned_alloc` returns an aligned address whose bytes and header lie in that block,
`free` hands the block back and `malloc_usable_size` is the size asked for, exactly when the
allocator is up or comes up; and so do `posix_memalign`, `memalign`, and `valloc` for the size of a
page. -/
theorem aligned_alloc_serves_iff (ha : isPowerOfTwo alignment = true)
    (hfit : size + alignment + 32 < wordSize) (hraw : env.raw ≠ 0)
    (htop : env.raw + size + alignment + 32 ≤ wordSize) :
    (ServesAligned s (s.allocatorAlignedAlloc alignment size env).2 alignment size env.raw
      (s.allocatorAlignedAlloc alignment size env).1 ↔ s.ComesUp env) ∧
    (∀ memptr, memptr ≠ 0 → 8 ≤ alignment → 0 < size →
      ((∃ u s', s.posixMemalign memptr alignment size env = ((0, some u), s') ∧
        ServesAligned s s' alignment size env.raw u) ↔ s.ComesUp env)) ∧
    (ServesAligned s (s.memalign alignment size env).2 alignment size env.raw
      (s.memalign alignment size env).1 ↔ s.ComesUp env) ∧
    (∀ sysconf, getPageSize sysconf = alignment →
      (ServesAligned s (s.valloc sysconf size env).2 alignment size env.raw
        (s.valloc sysconf size env).1 ↔ s.ComesUp env)) := by
  have hiff := allocatorAlignedAlloc_serves_iff (s := s) ha hfit hraw htop
  have hpos : alignment ≠ 0 := (Nat.pos_of_isPowerOfTwo (isPowerOfTwo_iff.1 ha)).ne'
  refine ⟨hiff, fun memptr hmemptr h8 hsize => ?_, ?_, fun sysconf hpage => ?_⟩
  · exact (posixMemalign_serves_iff hmemptr h8 hsize ha env.raw).trans hiff
  · unfold memalign
    rw [if_neg (by simp [ha, hpos])]
    exact hiff
  · unfold valloc
    rw [hpage]
    exact hiff

end Allocator

/-- An allocator that has not been called yet, over empty memory. -/
def Allocator.fresh : Allocator := ⟨false, false, 0, 0, fun _ => 0, []⟩

/-- 100 bytes aligned to 4096, in the first call of all. -/
theorem aligned_alloc_serves_page :
    let s := Allocator.fresh
    ServesAligned s (s.allocatorAlignedAlloc 4096 100 (libcAt 0x500010)).2 4096 100 0x500010
      (s.allocatorAlignedAlloc 4096 100 (libcAt 0x500010)).1 ∧
    (∃ u s', s.posixMemalign 1 4096 100 (libcAt 0x500010) = ((0, some u), s') ∧
      ServesAligned s s' 4096 100 0x500010 u) ∧
    ServesAligned s (s.memalign 4096 100 (libcAt 0x500010)).2 4096 100 0x500010
      (s.memalign 4096 100 (libcAt 0x500010)).1 ∧
    ServesAligned s (s.valloc 4096 100 (libcAt 0x500010)).2 4096 100 0x500010
      (s.valloc 4096 100 (libcAt 0x500010)).1 := by
  have hup : Allocator.fresh.ComesUp (libcAt 0x500010) := ⟨rfl, .inr rfl⟩
  have hpow : isPowerOfTwo 4096 = true := by decide
  have hfit : 100 + 4096 + 32 < wordSize := by decide
  have hraw : (libcAt 0x500010).raw ≠ 0 := by decide
  have htop : (libcAt 0x500010).raw + 100 + 4096 + 32 ≤ wordSize := by decide
  obtain ⟨halloc, hposix, hmemalign, hvalloc⟩ :=
    Allocator.aligned_alloc_serves_iff (s := Allocator.fresh) hpow hfit hraw htop
  exact ⟨halloc.2 hup, (hposix 1 (by decide) (by decide) (by decide)).2 hup, hmemalign.2 hup,
    (hvalloc 4096 rfl).2 hup⟩

/-- An allocator that another thread is initialising, over empty memory. -/
def Allocator.starting : Allocator := Allocator.fresh.initEnter

/-- While the allocator is initialised, `free` hands an aligned address to libc instead of the
block. -/
theorem aligned_alloc_starting_unserved : ¬ ∀ (s : Allocator) (env : LibcEnv) (alignment size : ℕ),
    isPowerOfTwo alignment = true → size + alignment + 32 < wordSize → env.raw ≠ 0 →
    16 ∣ env.raw → env.raw + size + alignment + 32 ≤ wordSize →
    ServesAligned s (s.allocatorAlignedAlloc alignment size env).2 alignment size env.raw
      (s.allocatorAlignedAlloc alignment size env).1 := by
  intro hall
  have hserves := hall Allocator.starting (libcAt 0x1000) 64 100 (by decide) (by decide) (by decide)
    (by decide) (by decide)
  have hup := Allocator.comesUp_of_serves (by decide) hserves
  cases hup.1

end Nomalloc
