import Nomalloc.Core.AlignedAlloc
import Nomalloc.Core.AllocatorBlocks

/-!
# `api/posix_api.c`: sizes computed before the call

`calloc`, `aligned_alloc` and `pvalloc` compute a size in 64-bit arithmetic and pass it on.
`requests_covered_iff` says in which states and for which arguments the pointer they return is good
for all the bytes that were asked for (`Covers`).  `xallocx_keeps_iff` is about `xallocx`, which
promises to resize a block where it is and calls `realloc`.
-/

namespace Nomalloc

open Bytes

namespace Allocator
variable {s : Allocator} {env : LibcEnv} {alignment size nmemb : ℕ}

/-- The call that took `s` to `t` returned `p`, good for `n` bytes: `malloc_usable_size` says so,
and they lie in the block that libc handed out for the call. -/
def Covers (s t : Allocator) (p n : ℕ) : Prop :=
  n ≤ allocatorMallocUsableSize t.mem p ∧
    ∃ b, t.log = .got b :: s.log ∧ ∀ i < n, b.addr ≤ p + i ∧ p + i < b.addr + b.size

/-- No block is to be had: libc refuses, or the allocator does not come up. -/
def NoBlock (s : Allocator) (env : LibcEnv) : Prop :=
  env.raw = 0 ∨ (s.initialized = false ∧ s.initializing = false ∧ env.up = false)

theorem usable_lt (m : Mem) (p : ℕ) : allocatorMallocUsableSize m p < wordSize := by
  unfold allocatorMallocUsableSize
  split
  · decide
  · split
    · decide
    · exact AllocHeader.requestedSize_lt _ _

/-- The usable size is read from the 32 bytes before the pointer. -/
theorem usable_congr {m m' : Mem} {p : ℕ} (hs : 32 ≤ p → SameOn m m' (p - 32) 32) :
    allocatorMallocUsableSize m' p = allocatorMallocUsableSize m p := by
  by_cases hp : p < 32
  · have hzero : ∀ m : Mem, allocatorMallocUsableSize m p = 0 := fun m => by
      unfold allocatorMallocUsableSize getHeader ALLOC_HEADER_SIZE
      simp [hp]
    rw [hzero, hzero]
  · have hsame := hs (not_lt.1 hp)
    unfold allocatorMallocUsableSize getHeader
    rw [show ALLOC_HEADER_SIZE = 32 from rfl, AllocHeader.magic_congr hsame]
    split_ifs with h0 h1
    · rfl
    · rfl
    · exact AllocHeader.requestedSize_congr hsame

theorem Covers.congr {t u : Allocator} {p n : ℕ} (hlog : t.log = s.log) :
    t.Covers u p n ↔ s.Covers u p n := by
  unfold Covers
  rw [hlog]

/-! ## calloc -/

/-- `calloc` gives all that was asked for, zeroed. -/
def CallocServes (s : Allocator) (nmemb size : ℕ) (r : ℕ × Allocator) : Prop :=
  s.Covers r.2 r.1 (nmemb * size) ∧ ∀ i, i < nmemb * size → r.2.mem (r.1 + i) = 0

/-- What the product has to meet, where a block is to be had.  While the calls fall back on libc the
block has no header, and its usable size is what the bytes before it happen to say. -/
def CallocFits (s : Allocator) (nmemb size : ℕ) (env : LibcEnv) : Prop :=
  if s.initialized = false ∧ s.initializing = true then
    nmemb * size ≤ allocatorMallocUsableSize s.mem env.raw
  else addW env.raw 32 = 0 ∨ nmemb * size ≤ MAX_REQUEST

theorem totalElements_eq (h : nmemb * size < wordSize) :
    totalElements nmemb size = max (nmemb * size) 1 := by
  unfold totalElements
  rw [Nat.mod_eq_of_lt h]
  split <;> omega

theorem cleared_fst {n : ℕ} {r : ℕ × Allocator} : (cleared n r).1 = r.1 := by
  unfold cleared
  split <;> rfl

/-- On an allocator that is up, where nothing wraps. -/
theorem cleared_serves (hraw : env.raw ≠ 0) (hfit : nmemb * size ≤ MAX_REQUEST)
    (hsound : Heap.Sound 16 wordSize (s.mallocReady (totalElements nmemb size) env).2.log) :
    s.CallocServes nmemb size
      (cleared (totalElements nmemb size) (s.mallocReady (totalElements nmemb size) env)) := by
  have hmax : MAX_REQUEST < wordSize := by decide
  have hn := totalElements_eq (show nmemb * size < wordSize by omega)
  have hone : atLeastOne (totalElements nmemb size) = totalElements nmemb size := by
    rw [atLeastOne_eq]
    omega
  have hle : totalElements nmemb size ≤ MAX_REQUEST := by
    rw [hn]
    unfold MAX_REQUEST wordSize at *
    omega
  obtain ⟨hfst, hlog, -, hheaded, hreq⟩ := mallocReady_headed hraw hle hsound
  rw [hone] at hlog hheaded hreq
  have hfits := hheaded.fits
  rw [Nat.add_sub_cancel, hreq] at hfits
  unfold cleared
  rw [if_pos (show (s.mallocReady (totalElements nmemb size) env).1 ≠ 0 by rw [hfst]; omega), hfst]
  refine ⟨⟨?_, _, hlog, fun i hi => ?_⟩, fun i hi => ?_⟩
  · have hbefore : SameOn (s.mallocReady (totalElements nmemb size) env).2.mem
        (fill (s.mallocReady (totalElements nmemb size) env).2.mem (env.raw + 32)
          (totalElements nmemb size) 0) (env.raw + 32 - 32) 32 :=
      fun x _ hx => fill_outside (by omega)
    show nmemb * size ≤ allocatorMallocUsableSize (fill _ _ _ 0) (env.raw + 32)
    rw [hheaded.usable_congr hbefore, hheaded.usable, Nat.add_sub_cancel, hreq]
    omega
  · dsimp only at hfits ⊢
    omega
  · exact if_pos (by omega)

/-- A product that is too large leaves the block. -/
theorem cleared_not_covers (hraw : env.raw ≠ 0) (hbig : MAX_REQUEST < nmemb * size) :
    ¬ s.CallocServes nmemb size
      (cleared (totalElements nmemb size) (s.mallocReady (totalElements nmemb size) env)) := by
  rintro ⟨⟨husable, b, hb, hin⟩, -⟩
  have hfst : (cleared (totalElements nmemb size)
      (s.mallocReady (totalElements nmemb size) env)).1 = addW env.raw 32 := by
    rw [cleared_fst, mallocReady_some hraw]
  have hlt := lt_of_le_of_lt husable (usable_lt _ _)
  have hlo := (hin 0 (by omega)).1
  have hhi := (hin (nmemb * size - 1) (by omega)).2
  rw [totalElements_eq hlt] at *
  rw [hfst] at hlo hhi
  rw [cleared_log, mallocReady_some hraw, countAllocated_log] at hb
  have hone : atLeastOne (max (nmemb * size) 1) = nmemb * size := by
    rw [atLeastOne_eq]
    omega
  have hblock : b = ⟨env.raw, totalSize (nmemb * size)⟩ := by
    have hhead := (List.cons.inj hb).1
    rw [hone] at hhead
    exact (Heap.Event.got.inj hhead).symm
  have hsmall := totalSize_wraps hbig hlt
  rw [hblock] at hlo hhi
  dsimp only at hlo hhi
  unfold addW MAX_REQUEST wordSize at *
  omega

/-- While the calls fall back on libc, the block is as libc made it. -/
theorem libcCalloc_serves_iff (hraw : env.raw ≠ 0) :
    s.CallocServes nmemb size (s.libcCalloc nmemb size env) ↔
      nmemb * size ≤ allocatorMallocUsableSize s.mem env.raw := by
  have hcall : s.libcCalloc nmemb size env = (env.raw, (s.obtain ⟨env.raw, nmemb * size⟩).setMem
      (fill s.mem env.raw (nmemb * size) 0)) := if_neg hraw
  have husable : allocatorMallocUsableSize (fill s.mem env.raw (nmemb * size) 0) env.raw =
      allocatorMallocUsableSize s.mem env.raw :=
    usable_congr fun h32 x _ hx => fill_outside (.inl (by omega))
  rw [hcall, ← husable]
  constructor
  · rintro ⟨⟨hle, -⟩, -⟩
    exact hle
  · intro hle
    refine ⟨⟨hle, _, rfl, fun i hi => ?_⟩, fun i hi => if_pos (by omega)⟩
    exact ⟨Nat.le_add_right _ _, Nat.add_lt_add_left hi _⟩

/-- The ways of `allocator_calloc`. -/
theorem allocatorCalloc_cases (s : Allocator) (nmemb size : ℕ) (env : LibcEnv) :
    (¬ (s.initialized = false ∧ s.initializing = true) ∧
      ¬ (s.initialized = false ∧ s.initializing = false ∧ env.up = false) ∧
      ∃ t : Allocator, t.log = s.log ∧ s.allocatorCalloc nmemb size env =
        cleared (totalElements nmemb size) (t.mallocReady (totalElements nmemb size) env)) ∨
    ((s.initialized = false ∧ s.initializing = true) ∧
      s.allocatorCalloc nmemb size env = s.libcCalloc nmemb size env) ∨
    ((s.initialized = false ∧ s.initializing = false ∧ env.up = false) ∧
      (s.allocatorCalloc nmemb size env).1 = 0) := by
  rw [allocatorCalloc_eq]
  rcases whenReady_cases s env (fun s => s.libcCalloc nmemb size env) (fun s =>
    cleared (totalElements nmemb size) (s.allocatorMalloc (totalElements nmemb size) env)) with
    ⟨h, he⟩ | ⟨h, h', he⟩ | ⟨h, h', hup, he⟩ | ⟨h, h', hup, he⟩
  · refine .inl ⟨by simp [h], by simp [h], s, rfl, he.trans ?_⟩
    rw [allocatorMalloc_ready h]
  · exact .inr (.inl ⟨⟨h, h'⟩, he⟩)
  · refine .inl ⟨by simp [h'], by simp [hup], s.setState true false 0 0, rfl, he.trans ?_⟩
    rw [allocatorMalloc_ready rfl]
  · exact .inr (.inr ⟨⟨h, h', hup⟩, by rw [he]⟩)

/-- **`calloc`.**  The pointer is good for the product exactly when no block is to be had, or the
product is at most `MAX_REQUEST` and the block is not one of libc's own without a header. -/
theorem calloc_serves_iff (hsound : Heap.Sound 16 wordSize (s.allocatorCalloc nmemb size env).2.log) :
    ((s.allocatorCalloc nmemb size env).1 ≠ 0 →
      s.CallocServes nmemb size (s.allocatorCalloc nmemb size env)) ↔
    s.NoBlock env ∨ s.CallocFits nmemb size env := by
  unfold CallocFits
  rcases allocatorCalloc_cases s nmemb size env with
    ⟨hready, hcomes, t, hlog, he⟩ | ⟨hfalls, he⟩ | ⟨hdown, he⟩
  · rw [if_neg hready]
    rw [he] at hsound ⊢
    by_cases hraw : env.raw = 0
    · refine iff_of_true (fun hp => absurd ?_ hp) (.inl (.inl hraw))
      rw [cleared_fst, mallocReady_null hraw]
    have hfst : (cleared (totalElements nmemb size)
        (t.mallocReady (totalElements nmemb size) env)).1 = addW env.raw 32 := by
      rw [cleared_fst, mallocReady_some hraw]
    have hserves : ∀ r, t.CallocServes nmemb size r ↔ s.CallocServes nmemb size r := fun r =>
      and_congr_left' (Covers.congr hlog)
    rw [cleared_log] at hsound
    rw [← hserves, hfst]
    constructor
    · intro h
      by_contra hbad
      obtain ⟨-, hbad⟩ := not_or.1 hbad
      obtain ⟨hnull, hbig⟩ := not_or.1 hbad
      exact cleared_not_covers hraw (not_le.1 hbig) (h hnull)
    · rintro (hno | hnull | hfit) hp
      · exact absurd hno (not_or.2 ⟨hraw, hcomes⟩)
      · exact absurd hnull hp
      · exact cleared_serves hraw hfit hsound
  · rw [if_pos hfalls, he]
    by_cases hraw : env.raw = 0
    · exact iff_of_true (fun hp => absurd (by rw [libcCalloc, if_pos hraw]) hp) (.inl (.inl hraw))
    have hfst : (s.libcCalloc nmemb size env).1 = env.raw := by
      rw [libcCalloc, if_neg hraw]
    rw [hfst, libcCalloc_serves_iff hraw]
    have hcomes : ¬ s.NoBlock env := not_or.2 ⟨hraw, by simp [hfalls.2]⟩
    exact ⟨fun h => .inr (h hraw), fun h _ => h.resolve_left hcomes⟩
  · exact iff_of_true (fun hp => absurd he hp) (.inl (.inr hdown))

/-! ## aligned_alloc, pvalloc -/

theorem allocatorAlignedAlloc_noBlock (ha : isPowerOfTwo alignment = true) (h : s.NoBlock env) :
    (s.allocatorAlignedAlloc alignment size env).1 = 0 := by
  rcases allocatorAlignedAlloc_cases s size env ha with
    ⟨t, -, -, hup, he⟩ | ⟨-, h', he⟩ | ⟨-, -, -, he⟩
  · have hraw : env.raw = 0 := h.resolve_right fun hd => by
      rcases hup with hup | hup
      · rw [hup] at hd
        cases hd.1
      · rw [hup.2] at hd
        cases hd.2.2
    rw [he, alignedPlace_null hraw]
  · have hraw : env.raw = 0 := h.resolve_right fun hd => by
      rw [h'] at hd
      cases hd.2.1
    rw [he, alignedPlace_null hraw]
  · exact he

/-- A block is placed, for the size asked for or for one byte at least. -/
theorem allocatorAlignedAlloc_block (size : ℕ) (ha : isPowerOfTwo alignment = true)
    (h : ¬ s.NoBlock env) :
    ∃ (t : Allocator) (n : ℕ), t.log = s.log ∧ (n = size ∨ n = atLeastOne size) ∧
      s.allocatorAlignedAlloc alignment size env = t.alignedPlace alignment n env := by
  rcases allocatorAlignedAlloc_cases s size env ha with
    ⟨t, ⟨hlog, -⟩, -, -, he⟩ | ⟨-, -, he⟩ | ⟨hdown, hdown', hup, -⟩
  · exact ⟨t, _, hlog, .inr rfl, he⟩
  · exact ⟨s, _, rfl, .inl rfl, he⟩
  · exact absurd (.inr ⟨hdown, hdown', hup⟩) h

theorem alignUp_add_le {n : ℕ} (ha : isPowerOfTwo alignment = true) (hal : alignment < wordSize)
    (h : n + alignment - 1 < wordSize) : alignUp n alignment + alignment ≤ wordSize := by
  obtain ⟨hpos, -⟩ := isPowerOfTwo_le ha hal
  obtain ⟨k, rfl⟩ := isPowerOfTwo_iff.1 ha
  have hk : k < 64 := (Nat.pow_lt_pow_iff_right (by decide)).1 hal
  have hword : 2 ^ k ∣ wordSize := pow_dvd_pow 2 hk.le
  obtain ⟨c, hc⟩ := hword
  obtain ⟨d, hd⟩ := dvd_alignUp hpos h
  have hlt : alignUp n (2 ^ k) < wordSize := lt_of_le_of_lt (alignUp_le hpos h) h
  -- both are multiples of the alignment
  rw [hd, hc] at hlt ⊢
  have hdc : d + 1 ≤ c := lt_of_mul_lt_mul_left hlt (Nat.zero_le _)
  calc 2 ^ k * d + 2 ^ k = 2 ^ k * (d + 1) := by ring
    _ ≤ 2 ^ k * c := Nat.mul_le_mul_left _ hdc

/-- The rounded size is one that can be served. -/
def RoundsUp (n alignment : ℕ) : Prop :=
  n + alignment - 1 < wordSize ∧ alignUp n alignment + alignment + 32 < wordSize

theorem alignedPlace_fst {n : ℕ} (hraw : env.raw ≠ 0) :
    (s.alignedPlace alignment n env).1 = alignedTarget env.raw alignment := by
  rw [alignedPlace_some hraw]

/-- A total that wraps leaves no room behind the header. -/
theorem alignedPlace_not_covers {n k : ℕ} (hraw : env.raw ≠ 0) (ha : isPowerOfTwo alignment = true)
    (hal : alignment < wordSize) (hk : 0 < k) (hnull : alignedTarget env.raw alignment ≠ 0)
    (hwrap : addW (addW n alignment) 32 ≤ 32)
    (hsound : Heap.Sound 16 wordSize (s.alignedPlace alignment n env).2.log) :
    ¬ s.Covers (s.alignedPlace alignment n env).2 (s.alignedPlace alignment n env).1 k := by
  obtain ⟨hpos, hle⟩ := isPowerOfTwo_le ha hal
  rw [alignedPlace_some hraw] at hsound ⊢
  rintro ⟨-, b, hb, hin⟩
  obtain ⟨hlo, hhi⟩ := hin 0 hk
  have hblock : b = ⟨env.raw, addW (addW n alignment) 32⟩ :=
    (Heap.Event.got.inj (List.cons.inj hb).1).symm
  rw [hblock] at hlo hhi
  dsimp only at hlo hhi
  have htarget : alignedTarget env.raw alignment ≤ env.raw + 31 := by omega
  -- an aligned address at or above `raw + 32` would be too high, and below it is `NULL`
  have hword : env.raw < wordSize ∨ env.raw = wordSize := by
    have hwithin : env.raw + _ ≤ wordSize := hsound.1.within
    omega
  unfold alignedTarget at hnull htarget hlo
  by_cases hround : addW env.raw ALLOC_HEADER_SIZE + alignment - 1 < wordSize
  · have hge : addW env.raw ALLOC_HEADER_SIZE ≤
      alignUp (addW env.raw ALLOC_HEADER_SIZE) alignment := le_alignUp hpos hround
    have hup : alignUp (addW env.raw ALLOC_HEADER_SIZE) alignment ≤
      addW env.raw ALLOC_HEADER_SIZE + alignment - 1 := alignUp_le hpos hround
    unfold addW ALLOC_HEADER_SIZE wordSize at *
    omega
  · exact hnull (alignUp_wraps (addW_lt _ _) hal (not_lt.1 hround))

/-- Where nothing wraps the block is placed. -/
theorem alignedPlace_placed {n : ℕ} (hraw : env.raw ≠ 0) (ha : isPowerOfTwo alignment = true)
    (hal : alignment < wordSize) (hfit : n + alignment + 32 < wordSize)
    (hsound : Heap.Sound 16 wordSize (s.alignedPlace alignment n env).2.log) :
    PlacesAligned s (s.alignedPlace alignment n env).2 alignment n env.raw
      (s.alignedPlace alignment n env).1 := by
  rw [alignedPlace_some hraw] at hsound
  have htop : env.raw + addW (addW n alignment) 32 ≤ wordSize := hsound.1.within
  refine alignedPlace_places (isPowerOfTwo_le ha hal).1 hfit hraw ?_
  unfold addW wordSize at *
  omega

/-- Where the rounding wraps, or makes the total wrap, the bytes are not all there. -/
theorem aligned_not_covers {n m : ℕ} (hraw : env.raw ≠ 0) (ha : isPowerOfTwo alignment = true)
    (hal : alignment < wordSize) (hn : n < wordSize) (hpos : 0 < n)
    (hm : m = alignUp n alignment ∨ m = atLeastOne (alignUp n alignment))
    (hnull : alignedTarget env.raw alignment ≠ 0) (hbad : ¬ RoundsUp n alignment)
    (hsound : Heap.Sound 16 wordSize (s.alignedPlace alignment m env).2.log) :
    ¬ s.Covers (s.alignedPlace alignment m env).2 (s.alignedPlace alignment m env).1 n := by
  obtain ⟨hal0, hle⟩ := isPowerOfTwo_le ha hal
  rw [atLeastOne_eq] at hm
  by_cases hround : n + alignment - 1 < wordSize
  · -- the total wraps to 32 bytes at most
    have hsum := alignUp_add_le ha hal hround
    have hge : n ≤ alignUp n alignment := le_alignUp hal0 hround
    have hover : wordSize ≤ alignUp n alignment + alignment + 32 :=
      not_lt.1 fun hlt => hbad ⟨hround, hlt⟩
    refine alignedPlace_not_covers hraw ha hal hpos hnull ?_ hsound
    unfold addW wordSize at *
    omega
  · -- the rounded size is zero, and one byte is served
    have hzero := alignUp_wraps hn hal (not_lt.1 hround)
    have hplaced := alignedPlace_placed hraw ha hal (by unfold wordSize at *; omega) hsound
    rintro ⟨husable, -⟩
    rw [hplaced.usable (SameOn.refl _ _ _)] at husable
    unfold wordSize at *
    omega

/-- Where nothing wraps they are. -/
theorem aligned_covers {n m : ℕ} (hraw : env.raw ≠ 0) (ha : isPowerOfTwo alignment = true)
    (hal : alignment < wordSize) (hpos : 0 < n)
    (hm : m = alignUp n alignment ∨ m = atLeastOne (alignUp n alignment))
    (hround : RoundsUp n alignment)
    (hsound : Heap.Sound 16 wordSize (s.alignedPlace alignment m env).2.log) :
    s.Covers (s.alignedPlace alignment m env).2 (s.alignedPlace alignment m env).1 n := by
  obtain ⟨hal0, -⟩ := isPowerOfTwo_le ha hal
  have hge : n ≤ alignUp n alignment := le_alignUp hal0 hround.1
  rw [atLeastOne_eq] at hm
  have hfit := hround.2
  have hplaced := alignedPlace_placed hraw ha hal (by omega) hsound
  have hroom := hplaced.room
  have hheader := hplaced.header
  refine ⟨?_, _, hplaced.asked, fun i hi => ⟨by dsimp only; omega, by dsimp only; omega⟩⟩
  rw [hplaced.usable (SameOn.refl _ _ _)]
  omega

/-- **A size that is rounded up.**  The pointer is good for the `n` bytes exactly when no block is to
be had, nothing was asked for, or nothing wraps. -/
theorem aligned_covers_iff {n k : ℕ} (ha : isPowerOfTwo alignment = true) (hal : alignment < wordSize)
    (hn : n < wordSize) (hk : k = 0 ∨ k = n)
    (hsound : Heap.Sound 16 wordSize
      (s.allocatorAlignedAlloc alignment (alignUp n alignment) env).2.log) :
    ((s.allocatorAlignedAlloc alignment (alignUp n alignment) env).1 ≠ 0 →
      s.Covers (s.allocatorAlignedAlloc alignment (alignUp n alignment) env).2
        (s.allocatorAlignedAlloc alignment (alignUp n alignment) env).1 k) ↔
    s.NoBlock env ∨ alignedTarget env.raw alignment = 0 ∨ k = 0 ∨ RoundsUp k alignment := by
  by_cases hno : s.NoBlock env
  · exact iff_of_true (fun hp => absurd (allocatorAlignedAlloc_noBlock ha hno) hp) (.inl hno)
  obtain ⟨hraw, -⟩ := not_or.1 hno
  obtain ⟨t, m, hlog, hm, he⟩ := allocatorAlignedAlloc_block (alignUp n alignment) ha hno
  rw [he] at hsound ⊢
  have hfst : (t.alignedPlace alignment m env).1 = alignedTarget env.raw alignment :=
    alignedPlace_fst hraw
  rw [← Covers.congr hlog]
  by_cases hzero : k = 0
  · refine iff_of_true (fun _ => ?_) (.inr (.inr (.inl hzero)))
    rw [alignedPlace_some hraw, hzero]
    exact ⟨Nat.zero_le _, _, rfl, fun i hi => absurd hi (Nat.not_lt_zero i)⟩
  obtain rfl := hk.resolve_left hzero
  have hpos := Nat.pos_of_ne_zero hzero
  constructor
  · intro hcovers
    by_contra hbad
    obtain ⟨-, hbad⟩ := not_or.1 hbad
    obtain ⟨hnull, hbad⟩ := not_or.1 hbad
    exact aligned_not_covers hraw ha hal hn hpos hm hnull (fun hr => hbad (.inr hr)) hsound
      (hcovers (by rw [hfst]; exact hnull))
  · rintro (hc | hc | hc | hround) hp
    · exact absurd hc hno
    · exact absurd (hfst.trans hc) hp
    · exact absurd hc hzero
    · exact aligned_covers hraw ha hal hpos hm hround hsound

theorem alignedAlloc_eq (ha : isPowerOfTwo alignment = true) :
    s.alignedAlloc alignment size env =
      s.allocatorAlignedAlloc alignment (alignUp (atLeastOne size) alignment) env := by
  have hpos : alignment ≠ 0 := (Nat.pos_of_isPowerOfTwo (isPowerOfTwo_iff.1 ha)).ne'
  exact if_neg (by simp [ha, hpos])

/-- **Requests and what they get.**  Whatever state the allocator is in, the pointer that `calloc`,
`aligned_alloc` or `pvalloc` returns is good for all the bytes asked for exactly when no block is to
be had, or the product is at most `MAX_REQUEST` and the block has a header (`calloc`), or the rounded
size and the room for the alignment and the header fit a word (`aligned_alloc`, `pvalloc`). -/
theorem requests_covered_iff (s : Allocator) :
    (∀ nmemb size env, Heap.Sound 16 wordSize (s.allocatorCalloc nmemb size env).2.log →
      (((s.allocatorCalloc nmemb size env).1 ≠ 0 →
        s.CallocServes nmemb size (s.allocatorCalloc nmemb size env)) ↔
      s.NoBlock env ∨ s.CallocFits nmemb size env)) ∧
    (∀ alignment size env, isPowerOfTwo alignment = true → alignment < wordSize → size < wordSize →
      Heap.Sound 16 wordSize (s.alignedAlloc alignment size env).2.log →
      (((s.alignedAlloc alignment size env).1 ≠ 0 →
        s.Covers (s.alignedAlloc alignment size env).2 (s.alignedAlloc alignment size env).1 size) ↔
      s.NoBlock env ∨ alignedTarget env.raw alignment = 0 ∨ size = 0 ∨ RoundsUp size alignment)) ∧
    (∀ sysconf size env, isPowerOfTwo (getPageSize sysconf) = true →
      getPageSize sysconf < wordSize → size < wordSize →
      Heap.Sound 16 wordSize (s.pvalloc sysconf size env).2.log →
      (((s.pvalloc sysconf size env).1 ≠ 0 →
        s.Covers (s.pvalloc sysconf size env).2 (s.pvalloc sysconf size env).1 size) ↔
      s.NoBlock env ∨ alignedTarget env.raw (getPageSize sysconf) = 0 ∨ size = 0 ∨
        RoundsUp size (getPageSize sysconf))) := by
  refine ⟨fun nmemb size env hsound => calloc_serves_iff hsound, ?_, ?_⟩
  · intro alignment size env ha hal hsize hsound
    have hone := atLeastOne_eq size
    rw [alignedAlloc_eq ha] at hsound ⊢
    exact aligned_covers_iff ha hal (by unfold wordSize at *; omega) (by omega) hsound
  · intro sysconf size env ha hal hsize hsound
    exact aligned_covers_iff ha hal hsize (.inr rfl) hsound

/-- 10 times 10 bytes, 100 bytes aligned to 64, and 100 bytes on a page, in the first call. -/
theorem requests_covered_fresh :
    ((Allocator.fresh.allocatorCalloc 10 10 (libcAt 0x1000)).1 ≠ 0 →
      Allocator.fresh.CallocServes 10 10 (Allocator.fresh.allocatorCalloc 10 10 (libcAt 0x1000))) ∧
    ((Allocator.fresh.alignedAlloc 64 100 (libcAt 0x1000)).1 ≠ 0 →
      Allocator.fresh.Covers (Allocator.fresh.alignedAlloc 64 100 (libcAt 0x1000)).2
        (Allocator.fresh.alignedAlloc 64 100 (libcAt 0x1000)).1 100) ∧
    ((Allocator.fresh.pvalloc 4096 100 (libcAt 0x1000)).1 ≠ 0 →
      Allocator.fresh.Covers (Allocator.fresh.pvalloc 4096 100 (libcAt 0x1000)).2
        (Allocator.fresh.pvalloc 4096 100 (libcAt 0x1000)).1 100) := by
  obtain ⟨hcalloc, haligned, hpvalloc⟩ := requests_covered_iff Allocator.fresh
  refine ⟨(hcalloc 10 10 (libcAt 0x1000) (by decide +kernel)).2 (.inr (.inr (by decide))),
    (haligned 64 100 (libcAt 0x1000) (by decide) (by decide) (by decide) (by decide +kernel)).2
      (.inr (.inr (.inr ⟨by decide, by decide⟩))),
    (hpvalloc 4096 100 (libcAt 0x1000) (by decide) (by decide) (by decide) (by decide +kernel)).2
      (.inr (.inr (.inr ⟨by decide, by decide⟩)))⟩

/-- `calloc(2^32, 2^32)` gets one byte. -/
theorem calloc_product_wraps : ¬ ∀ (s : Allocator) (nmemb size : ℕ) (env : LibcEnv),
    Heap.Sound 16 wordSize (s.allocatorCalloc nmemb size env).2.log →
      (s.allocatorCalloc nmemb size env).1 ≠ 0 →
      s.CallocServes nmemb size (s.allocatorCalloc nmemb size env) := by
  intro hall
  have hserves := hall Allocator.fresh (2 ^ 32) (2 ^ 32) (libcAt 0x1000) (by decide +kernel)
    (by decide +kernel)
  exact absurd hserves.1.1 (by decide +kernel)

/-! ## xallocx -/

/-- The addresses handed back to libc. -/
def handedBack : List Heap.Event → List ℕ
  | [] => []
  | .got _ :: log => handedBack log
  | .gave p :: log => p :: handedBack log

/-- The call that took `s` to `t` and returned the size `n` left `p` where it is. -/
structure KeepsPlace (s t : Allocator) (p n : ℕ) : Prop where
  /-- no block goes back to libc -/
  live : handedBack t.log = handedBack s.log
  bytes : ∀ i, i < min (allocatorMallocUsableSize s.mem p) (allocatorMallocUsableSize t.mem p) →
    t.mem (p + i) = s.mem (p + i)
  usable : n = allocatorMallocUsableSize t.mem p

theorem KeepsPlace.same {t : Allocator} {p : ℕ} (hlog : t.log = s.log) (hmem : t.mem = s.mem) :
    KeepsPlace s t p (allocatorMallocUsableSize s.mem p) :=
  ⟨by rw [hlog], fun i _ => by rw [hmem], by rw [hmem]⟩

/-- The call changed nothing but flags and counters, and returned `NULL`. -/
def Failed (s : Allocator) (r : ℕ × Allocator) : Prop := r.1 = 0 ∧ r.2.log = s.log ∧ r.2.mem = s.mem

/-- The call handed one block back. -/
def GaveOne (s : Allocator) (r : ℕ × Allocator) : Prop :=
  ∃ q, handedBack r.2.log = q :: handedBack s.log

theorem libcRealloc_outcome {p n : ℕ} (hp : p ≠ 0) (hn : n ≠ 0) :
    (env.raw = 0 → s.Failed (s.libcRealloc p n env)) ∧
      (env.raw ≠ 0 → s.GaveOne (s.libcRealloc p n env)) := by
  unfold libcRealloc
  rw [if_neg hp, if_neg hn]
  constructor
  · intro hraw
    rw [if_pos hraw]
    exact ⟨rfl, rfl, rfl⟩
  · intro hraw
    rw [if_neg hraw]
    exact ⟨p, rfl⟩

theorem reallocGrow_outcome {p header n : ℕ} :
    (env.raw = 0 → s.Failed (s.reallocGrow p header n env)) ∧
      (env.raw ≠ 0 → s.GaveOne (s.reallocGrow p header n env)) := by
  constructor
  · intro hraw
    rw [reallocGrow_null hraw]
    exact ⟨rfl, rfl, rfl⟩
  · intro hraw
    rw [reallocGrow_some hraw]
    unfold GaveOne
    rw [libcFree_log, countAllocated_log, countFreed_log]
    exact ⟨_, rfl⟩

/-- A call that fails without memory, and else hands a block back, from libc and from an allocator
that is up, does so in every phase. -/
theorem whenReady_outcome {fallback body : Allocator → ℕ × Allocator}
    (hlibc : (env.raw = 0 → s.Failed (fallback s)) ∧ (env.raw ≠ 0 → s.GaveOne (fallback s)))
    (hbody : ∀ t : Allocator, t.log = s.log → t.mem = s.mem →
      (env.raw = 0 → s.Failed (body t)) ∧ (env.raw ≠ 0 → s.GaveOne (body t))) :
    (s.NoBlock env → s.Failed (s.whenReady env fallback body)) ∧
      (¬ s.NoBlock env → s.GaveOne (s.whenReady env fallback body)) := by
  have hcomes : ∀ r : ℕ × Allocator,
      ¬ (s.initialized = false ∧ s.initializing = false ∧ env.up = false) →
      (env.raw = 0 → s.Failed r) ∧ (env.raw ≠ 0 → s.GaveOne r) →
      (s.NoBlock env → s.Failed r) ∧ (¬ s.NoBlock env → s.GaveOne r) :=
    fun r hcome h => ⟨fun hno => h.1 (hno.resolve_right hcome),
      fun hno => h.2 fun hraw => hno (.inl hraw)⟩
  rcases whenReady_cases s env fallback body with
    ⟨hup, he⟩ | ⟨hup, hing, he⟩ | ⟨hup, hing, hcome, he⟩ | ⟨hup, hing, hcome, he⟩
  · rw [he]
    exact hcomes _ (by simp [hup]) (hbody s rfl rfl)
  · rw [he]
    exact hcomes _ (by simp [hing]) hlibc
  · rw [he]
    exact hcomes _ (by simp [hcome]) (hbody (s.setState true false 0 0) rfl rfl)
  · rw [he]
    exact ⟨fun _ => ⟨rfl, rfl, rfl⟩, fun hno => absurd (.inr ⟨hup, hing, hcome⟩) hno⟩

/-- A `realloc` to more than the usable size fails, or hands the old block back. -/
theorem realloc_outcome (env : LibcEnv) {p n : ℕ} (hp : p ≠ 0) (hgrow : allocatorMallocUsableSize s.mem p < n) :
    (s.NoBlock env → s.Failed (s.allocatorRealloc p n env)) ∧
      (¬ s.NoBlock env → s.GaveOne (s.allocatorRealloc p n env)) := by
  have hn : n ≠ 0 := by omega
  unfold allocatorRealloc
  refine whenReady_outcome (libcRealloc_outcome hp hn) fun t hlog hmem => ?_
  rw [if_neg hp, if_neg hn]
  unfold Failed GaveOne
  rw [← hlog, ← hmem]
  cases hh : getHeader t.mem p with
  | none => exact libcRealloc_outcome hp hn
  | some header =>
    obtain ⟨h32, rfl, hmagic⟩ := getHeader_eq_some.1 hh
    rw [← hmem, usableSize_of_header h32 hmagic] at hgrow
    dsimp only
    rw [if_neg (not_le.2 hgrow)]
    exact reallocGrow_outcome

/-- **`xallocx`** leaves the block where it is exactly when nothing has to grow, or no larger block
is to be had: otherwise `realloc` moves it, and the caller's pointer is freed. -/
theorem xallocx_keeps_iff {p extra : ℕ} (hp : p ≠ 0) :
    KeepsPlace s (s.xallocx p size extra env).2 p (s.xallocx p size extra env).1 ↔
      addW size extra ≤ allocatorMallocUsableSize s.mem p ∨ s.NoBlock env := by
  unfold xallocx
  rw [if_neg hp]
  dsimp only
  by_cases hle : addW size extra ≤ allocatorMallocUsableSize s.mem p
  · rw [if_pos hle]
    exact iff_of_true (.same rfl rfl) (.inl hle)
  rw [if_neg hle]
  obtain ⟨hfail, hgave⟩ := realloc_outcome env hp (not_le.1 hle)
  by_cases hno : s.NoBlock env
  · obtain ⟨hnull, hlog, hmem⟩ := hfail hno
    rw [if_pos hnull]
    exact iff_of_true (.same hlog hmem) (.inr hno)
  · refine iff_of_false (fun hkeep => ?_) (fun hc => hc.elim hle hno)
    obtain ⟨q, hq⟩ := hgave hno
    have hlive := hkeep.live
    have hlog : ∀ r : ℕ × Allocator, (if r.1 = 0 then (allocatorMallocUsableSize s.mem p, r.2)
        else (allocatorMallocUsableSize r.2.mem r.1, r.2)).2.log = r.2.log := fun r => by
      split <;> rfl
    rw [hlog, hq] at hlive
    exact absurd (congrArg List.length hlive) (by simp)

end Allocator

/-- 8 bytes in a running allocator. -/
def AllocSys.oneBlock : AllocSys := AllocSys.opened.step (.malloc 8 (libcAt 0x1000))

theorem xallocx_keeps_oneBlock :
    Allocator.KeepsPlace AllocSys.oneBlock.a
        (AllocSys.oneBlock.a.xallocx 0x1020 100 0 (libcAt 0x2000)).2 0x1020
        (AllocSys.oneBlock.a.xallocx 0x1020 100 0 (libcAt 0x2000)).1 ↔
      addW 100 0 ≤ allocatorMallocUsableSize AllocSys.oneBlock.a.mem 0x1020 ∨
        AllocSys.oneBlock.a.NoBlock (libcAt 0x2000) :=
  Allocator.xallocx_keeps_iff (by decide)

/-- The 8 bytes are grown to 100: they move, and the pointer of the caller is freed. -/
theorem xallocx_moves : ¬ ∀ (s : AllocSys) (ops : List AllocOp), s.Opened →
    Runs.Each AllocSys.step AllocSys.LegalUp s ops →
    ∀ p ∈ (Runs.after AllocSys.step s ops).live, ∀ size extra env,
      Allocator.KeepsPlace (Runs.after AllocSys.step s ops).a
        ((Runs.after AllocSys.step s ops).a.xallocx p size extra env).2 p
        ((Runs.after AllocSys.step s ops).a.xallocx p size extra env).1 := by
  intro hall
  have hkeep := hall AllocSys.opened [.malloc 8 (libcAt 0x1000)] AllocSys.opened_opened
    ⟨⟨trivial, by show 8 < wordSize; decide, by decide +kernel⟩, trivial⟩ 0x1020
    (by decide +kernel) 100 0 (libcAt 0x2000)
  exact absurd hkeep.live (by decide +kernel)

end Nomalloc
