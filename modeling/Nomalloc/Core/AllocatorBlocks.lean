import Nomalloc.Core.AllocatorRuns

/-!
# Client bytes and libc blocks

On an allocator that is up (`AllocSys.Up`) every pointer has a header.  `in_blocks` follows the
headers: as long as no total wraps, the header and the bytes of every pointer the client holds
lie in the libc block that the header names.
-/

namespace Nomalloc

open Bytes

/-! ## an allocator that is up -/

/-- Initialised, and not in the middle of initialisation or shutdown. -/
def Allocator.Up (a : Allocator) : Prop := a.initialized = true ∧ a.initializing = false

/-- A step of a running allocator: anything but initialisation and shutdown. -/
def AllocOp.Running : AllocOp → Prop
  | .phase _ => False
  | _ => True

namespace Allocator
variable {a : Allocator} {env : LibcEnv} {size p : ℕ}

theorem setMem_up (h : a.Up) (m : Mem) : (a.setMem m).Up := ⟨h.1, h.2⟩

theorem obtain_up (h : a.Up) (b : Heap.Block) : (a.obtain b).Up := ⟨h.1, h.2⟩

theorem libcFree_up (h : a.Up) (p : ℕ) : (a.libcFree p).Up := ⟨h.1, h.2⟩

theorem countAllocated_up (h : a.Up) (n : ℕ) : (a.countAllocated n).Up :=
  ⟨(countAllocated_initialized a n).trans h.1, (countAllocated_initializing a n).trans h.2⟩

theorem countFreed_up (h : a.Up) (n : ℕ) : (a.countFreed n).Up :=
  ⟨(countFreed_initialized a n).trans h.1, (countFreed_initializing a n).trans h.2⟩

theorem libcMalloc_up (h : a.Up) : (a.libcMalloc size env).2.Up := by
  unfold libcMalloc
  split
  · exact h
  · exact obtain_up h _

theorem libcRealloc_up (h : a.Up) : (a.libcRealloc p size env).2.Up := by
  unfold libcRealloc
  split_ifs
  · exact libcMalloc_up h
  · exact libcFree_up h p
  · exact h
  · exact setMem_up (obtain_up (libcFree_up h p) _) _

theorem mallocReady_up (h : a.Up) : (a.mallocReady size env).2.Up := by
  by_cases hraw : env.raw = 0
  · rw [mallocReady_null hraw]
    exact h
  · rw [mallocReady_some hraw]
    exact countAllocated_up (setMem_up (obtain_up h _) _) _

theorem allocatorMalloc_up (h : a.Up) : (a.allocatorMalloc size env).2.Up := by
  rw [allocatorMalloc_ready h.1]
  exact mallocReady_up h

theorem allocatorFree_up (h : a.Up) : (a.allocatorFree p).Up := by
  by_cases hp : p = 0
  · rw [hp]
    exact h
  cases hh : getHeader a.mem p with
  | none =>
    rw [allocatorFree_noHeader hp hh]
    exact libcFree_up h p
  | some header =>
    rw [allocatorFree_header h.1 h.2 hh]
    exact libcFree_up (countFreed_up h _) _

/-- The `memset` of `allocator_calloc`, after its `malloc` returned `r`. -/
def cleared (n : ℕ) (r : ℕ × Allocator) : ℕ × Allocator :=
  if r.1 ≠ 0 then (r.1, r.2.setMem (fill r.2.mem r.1 n 0)) else r

theorem allocatorCalloc_eq (a : Allocator) (nmemb size : ℕ) (env : LibcEnv) :
    a.allocatorCalloc nmemb size env = a.whenReady env (fun a => a.libcCalloc nmemb size env)
      fun a => cleared (totalElements nmemb size)
        (a.allocatorMalloc (totalElements nmemb size) env) := rfl

theorem allocatorCalloc_ready {nmemb : ℕ} (h : a.Up) :
    a.allocatorCalloc nmemb size env = cleared (totalElements nmemb size)
      (a.mallocReady (totalElements nmemb size) env) := by
  rw [allocatorCalloc_eq, whenReady_ready h.1, allocatorMalloc_ready h.1]

theorem cleared_log {n : ℕ} {r : ℕ × Allocator} : (cleared n r).2.log = r.2.log := by
  unfold cleared
  split <;> rfl

theorem cleared_up {n : ℕ} {r : ℕ × Allocator} (h : r.2.Up) : (cleared n r).2.Up := by
  unfold cleared
  split
  · exact setMem_up h _
  · exact h

theorem allocatorCalloc_up {nmemb : ℕ} (h : a.Up) : (a.allocatorCalloc nmemb size env).2.Up := by
  rw [allocatorCalloc_ready h]
  exact cleared_up (mallocReady_up h)

theorem alignedPlace_up {alignment : ℕ} (h : a.Up) : (a.alignedPlace alignment size env).2.Up := by
  by_cases hraw : env.raw = 0
  · rw [alignedPlace_null hraw]
    exact h
  · rw [alignedPlace_some hraw]
    exact setMem_up (obtain_up h _) _

theorem allocatorAlignedAlloc_ready {alignment : ℕ} (h : a.Up) :
    a.allocatorAlignedAlloc alignment size env =
      if isPowerOfTwo alignment = true then a.alignedPlace alignment (atLeastOne size) env
      else (0, a) := by
  unfold allocatorAlignedAlloc
  rw [whenReady_ready h.1]
  by_cases hpow : isPowerOfTwo alignment = true
  · have hpos : alignment ≠ 0 := (Nat.pos_of_isPowerOfTwo (isPowerOfTwo_iff.1 hpow)).ne'
    rw [if_pos hpow, if_neg (by simp [hpow, hpos])]
    rfl
  · rw [if_neg hpow, if_pos (by simp [hpow])]

theorem allocatorAlignedAlloc_up {alignment : ℕ} (h : a.Up) :
    (a.allocatorAlignedAlloc alignment size env).2.Up := by
  rw [allocatorAlignedAlloc_ready h]
  split
  · exact alignedPlace_up h
  · exact h

theorem reallocGrow_up {header : ℕ} (h : a.Up) : (a.reallocGrow p header size env).2.Up := by
  by_cases hraw : env.raw = 0
  · rw [reallocGrow_null hraw]
    exact h
  · rw [reallocGrow_some hraw]
    exact libcFree_up (countAllocated_up (countFreed_up (setMem_up (obtain_up h _) _) _) _) _

theorem allocatorRealloc_up (h : a.Up) : (a.allocatorRealloc p size env).2.Up := by
  unfold allocatorRealloc
  rw [whenReady_ready h.1]
  split
  · exact allocatorMalloc_up h
  · split
    · exact allocatorFree_up h
    · cases hh : getHeader a.mem p with
      | none => exact libcRealloc_up h
      | some header =>
        dsimp only
        split
        · exact setMem_up h _
        · exact reallocGrow_up h

end Allocator

/-- Where no pointer is bare, every pointer is behind a header. -/
theorem AllocInv.headed {a : Allocator} {live : List ℕ} {p : ℕ} (h : AllocInv False a live)
    (hp : p ∈ live) : ∃ b ∈ a.blocks, Headed a.mem b p := by
  obtain ⟨b, hb, ho⟩ := h.owned p hp
  exact ⟨b, hb, ho.resolve_right fun hc => hc.1⟩

namespace AllocSys

/-- The allocator is up. -/
def Up (s : AllocSys) : Prop := s.a.Up

theorem up_step {s : AllocSys} {op : AllocOp} (h : s.Up) (hop : op.Running) : (s.step op).Up := by
  cases op with
  | phase f => exact hop.elim
  | malloc size env => exact Allocator.allocatorMalloc_up h
  | calloc nmemb size env => exact Allocator.allocatorCalloc_up h
  | realloc ptr size env => exact Allocator.allocatorRealloc_up h
  | alignedAlloc alignment size env => exact Allocator.allocatorAlignedAlloc_up h
  | free ptr => exact Allocator.allocatorFree_up h
  | stores m => exact Allocator.setMem_up h m

/-- Nothing falls back on libc, and every header is read. -/
theorem Up.readable {s : AllocSys} (h : s.Up) (op : AllocOp) : s.Readable op := by
  cases op with
  | free ptr =>
    rintro _ (hdown | hdown)
    · rw [h.1] at hdown
      cases hdown
    · rw [h.2] at hdown
      cases hdown
  | realloc ptr size env =>
    intro _ hing
    rw [h.2] at hing
    cases hing
  | _ => trivial

theorem Up.not_fallsBack {s : AllocSys} (h : s.Up) : ¬ s.FallsBack := fun hf => by
  have hdown := hf.1
  rw [h.1] at hdown
  cases hdown

theorem Up.roomy {s : AllocSys} (h : s.Up) (op : AllocOp) : s.Roomy op := by
  cases op with
  | alignedAlloc alignment size env => exact fun hf => absurd hf h.not_fallsBack
  | _ => trivial

/-- A legal step of a running allocator. -/
def LegalUp (s : AllocSys) (op : AllocOp) : Prop := op.Running ∧ s.Legal op

/-- An allocator that is up and serves no client yet; libc may have blocks out already. -/
structure Opened (s : AllocSys) : Prop where
  up : s.Up
  live : s.live = []
  sound : Heap.Sound 16 wordSize s.a.log
  matched : Heap.Matched s.a.log

/-- Up, and every pointer behind a header of its own. -/
def HeldUp (s : AllocSys) : Prop := s.Up ∧ s.Inv False

theorem Opened.heldUp {s : AllocSys} (h : s.Opened) : s.HeldUp := by
  refine ⟨h.up, h.sound, h.matched, fun p hp => ?_, ?_⟩
  · rw [h.live] at hp
    cases hp
  · rw [h.live]
    exact .nil

theorem heldUp_step {s : AllocSys} {op : AllocOp} (h : s.HeldUp) (hop : s.LegalUp op)
    (hwrap : s.NoWrap op) : (s.step op).HeldUp :=
  ⟨up_step h.1 hop.1, alloc_step h.2 hop.2 hwrap (h.1.readable op) (h.1.roomy op)
    fun hf => h.1.not_fallsBack hf⟩

/-! ## headers and bytes in blocks -/

/-- The header `[p - 32, p)` and the `malloc_usable_size` bytes from `p` lie in the block that the
header's `raw_ptr` names. -/
def InBlock (s : AllocSys) (p : ℕ) : Prop :=
  ∃ b ∈ s.a.blocks, b.addr = AllocHeader.rawPtr s.a.mem (p - 32) ∧ b.addr + 32 ≤ p ∧
    p + allocatorMallocUsableSize s.a.mem p ≤ b.addr + b.size

/-- Every pointer the client holds is in its block. -/
def InBlocks (s : AllocSys) : Prop := ∀ p ∈ s.live, s.InBlock p

theorem HeldUp.inBlocks {s : AllocSys} (h : s.HeldUp) : s.InBlocks := by
  intro p hp
  obtain ⟨b, hb, hh⟩ := AllocInv.headed h.2 hp
  refine ⟨b, hb, hh.raw.symm, hh.room, ?_⟩
  rw [hh.usable]
  exact hh.fits

end AllocSys

/-- **Headers and bytes stay in their block**, in every run of an allocator that is up whose calls
wrap no total. -/
theorem in_blocks {s : AllocSys} (hopen : s.Opened) (ops : List AllocOp)
    (hlegal : Runs.Each AllocSys.step AllocSys.LegalUp s ops)
    (hwrap : Runs.Each AllocSys.step AllocSys.NoWrap s ops) :
    Runs.Always AllocSys.step AllocSys.InBlocks s ops := by
  have hrun : Runs.Always AllocSys.step AllocSys.HeldUp s ops :=
    Runs.inv_always (fun s op h hop => AllocSys.heldUp_step h hop.1 hop.2) hopen.heldUp
      (hlegal.and hwrap)
  exact hrun.mono fun s h => h.inBlocks

/-- An allocator that has just come up, over empty memory. -/
def AllocSys.opened : AllocSys := ⟨⟨true, false, 0, 0, fun _ => 0, []⟩, []⟩

theorem AllocSys.opened_opened : AllocSys.opened.Opened := ⟨⟨rfl, rfl⟩, rfl, trivial, trivial⟩

/-- A block that shrinks in place, then moves. -/
def shrinkThenGrow : List AllocOp :=
  [.malloc 100 (libcAt 0x1000), .realloc 0x1020 40 (libcAt 0), .realloc 0x1020 200 (libcAt 0x2000)]

theorem shrinkThenGrow_legal :
    Runs.Each AllocSys.step AllocSys.LegalUp AllocSys.opened shrinkThenGrow := by
  refine ⟨⟨trivial, by show 100 < wordSize; decide, by decide +kernel⟩,
    ⟨trivial, ⟨.inr (by decide +kernel), by decide, Allocator.bareApart_of_ne (by decide +kernel)⟩, by decide +kernel⟩,
    ⟨trivial, ⟨.inr (by decide +kernel), by decide, Allocator.bareApart_of_ne (by decide +kernel)⟩, by decide +kernel⟩,
    trivial⟩

theorem in_blocks_shrinkThenGrow :
    Runs.Always AllocSys.step AllocSys.InBlocks AllocSys.opened shrinkThenGrow :=
  in_blocks AllocSys.opened_opened _ shrinkThenGrow_legal
    ⟨.inr (.inr (by decide)), .inl rfl, .inr (.inr (by decide)), trivial⟩

/-- `allocator_malloc`, `allocator_realloc` and `allocator_free`. -/
def AllocOp.OfMalloc : AllocOp → Prop
  | .malloc _ _ => True
  | .realloc _ _ _ => True
  | .free _ => True
  | _ => False

/-- `malloc(SIZE_MAX)` asks libc for 48 bytes. -/
theorem huge_malloc_leaves_block : ¬ ∀ (s : AllocSys) (ops : List AllocOp), s.Opened →
    (∀ op ∈ ops, op.OfMalloc) → Runs.Each AllocSys.step AllocSys.Legal s ops →
    Runs.Always AllocSys.step AllocSys.InBlocks s ops := by
  intro hall
  have hlegal : Runs.Each AllocSys.step AllocSys.Legal AllocSys.opened
      [.malloc (2 ^ 64 - 1) (libcAt 0x1000)] :=
    ⟨⟨by show 2 ^ 64 - 1 < wordSize; decide, by decide +kernel⟩, trivial⟩
  have hlast : AllocSys.InBlocks (AllocSys.opened.step (.malloc (2 ^ 64 - 1) (libcAt 0x1000))) :=
    (hall _ _ AllocSys.opened_opened (by simp [AllocOp.OfMalloc]) hlegal).last
  obtain ⟨b, hb, -, -, hend⟩ := hlast 0x1020 (by decide +kernel)
  revert b
  decide +kernel

end Nomalloc
