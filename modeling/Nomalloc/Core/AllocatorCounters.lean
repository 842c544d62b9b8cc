import Nomalloc.Core.AllocatorBlocks

/-!
# What the two counters count

`total_allocated - total_freed` is meant to be the number of bytes in use.  `active_counted`
proves it of every run of an allocator that is up in which

* no `allocator_aligned_alloc` is served (it does not count what it hands out),
* no `allocator_realloc` shrinks a block (it rewrites the header and leaves the counters),
* no total wraps, neither of a request nor of the bytes allocated so far.
-/

namespace Nomalloc

open Bytes

/-- The bytes in use: what `malloc_usable_size` says of the pointers in the client's hands. -/
def activeBytes (m : Mem) (live : List ℕ) : ℕ := (live.map (allocatorMallocUsableSize m)).sum

theorem activeBytes_cons (m : Mem) (p : ℕ) (live : List ℕ) :
    activeBytes m (p :: live) = allocatorMallocUsableSize m p + activeBytes m live := List.sum_cons

theorem activeBytes_congr {m m' : Mem} {live : List ℕ}
    (h : ∀ q ∈ live, allocatorMallocUsableSize m' q = allocatorMallocUsableSize m q) :
    activeBytes m' live = activeBytes m live := congrArg List.sum (List.map_congr_left h)

theorem activeBytes_erase {m : Mem} {live : List ℕ} {p : ℕ} (hp : p ∈ live) :
    allocatorMallocUsableSize m p + activeBytes m (live.erase p) = activeBytes m live :=
  List.sum_map_erase _ hp

namespace AllocInv
variable {a : Allocator} {live : List ℕ} {b : Heap.Block} {p : ℕ}

/-- A fresh block leaves the old headers, and with them the sizes. -/
theorem usable_grant (h : AllocInv False a live) {m : Mem} (hfresh : ∀ c ∈ a.blocks, b.Apart c)
    (hmem : ∀ x, x < b.addr ∨ b.addr + b.size ≤ x → m x = a.mem x) :
    ∀ q ∈ live, allocatorMallocUsableSize m q = allocatorMallocUsableSize a.mem q := by
  intro q hq
  obtain ⟨c, hc, hh⟩ := h.headed hq
  exact hh.usable_congr (hh.sameOn (sameOn_grant hfresh hmem hc))

end AllocInv

/-- The counters tell the bytes in use. -/
structure Counted (a : Allocator) (live : List ℕ) : Prop where
  balance : a.totalAllocated = a.totalFreed + activeBytes a.mem live
  room : a.totalAllocated < wordSize

namespace Counted
variable {a a' : Allocator} {live : List ℕ} {env : LibcEnv} {size p : ℕ}

theorem congr (hc : Counted a live) (hal : a'.totalAllocated = a.totalAllocated)
    (hfr : a'.totalFreed = a.totalFreed) (hact : activeBytes a'.mem live = activeBytes a.mem live) :
    Counted a' live := by
  refine ⟨?_, ?_⟩
  · rw [hal, hfr, hact]
    exact hc.balance
  · rw [hal]
    exact hc.room

theorem allocate {n : ℕ} (hc : Counted a live) (hroom : a.totalAllocated + n < wordSize)
    (hal : a'.totalAllocated = addW a.totalAllocated n) (hfr : a'.totalFreed = a.totalFreed)
    (hold : ∀ q ∈ live, allocatorMallocUsableSize a'.mem q = allocatorMallocUsableSize a.mem q)
    (hnew : allocatorMallocUsableSize a'.mem p = n) : Counted a' (p :: live) := by
  have hbal := hc.balance
  have hsum := addW_eq hroom
  refine ⟨?_, ?_⟩
  · rw [hal, hfr, activeBytes_cons, hnew, activeBytes_congr hold, hsum]
    omega
  · rw [hal, hsum]
    exact hroom

theorem release (hc : Counted a live) (hp : p ∈ live) (hal : a'.totalAllocated = a.totalAllocated)
    (hfr : a'.totalFreed = addW a.totalFreed (allocatorMallocUsableSize a.mem p))
    (hmem : a'.mem = a.mem) : Counted a' (live.erase p) := by
  have hbal := hc.balance
  have hroom := hc.room
  have hact := activeBytes_erase (m := a.mem) hp
  have hsum : addW a.totalFreed (allocatorMallocUsableSize a.mem p) =
      a.totalFreed + allocatorMallocUsableSize a.mem p := addW_eq (by omega)
  refine ⟨?_, ?_⟩
  · rw [hal, hfr, hmem, hsum]
    omega
  · rw [hal]
    exact hroom

theorem malloc (h : AllocInv False a live) (hc : Counted a live)
    (hfit : env.raw = 0 ∨ size ≤ MAX_REQUEST)
    (hroom : env.raw = 0 ∨ a.totalAllocated + atLeastOne size < wordSize)
    (hsound : Heap.Sound 16 wordSize (a.mallocReady size env).2.log) :
    Counted (a.mallocReady size env).2 (received (a.mallocReady size env).1 live) := by
  by_cases hraw : env.raw = 0
  · rw [Allocator.mallocReady_null hraw]
    exact hc
  · obtain ⟨hfst, hlog, hmem, hheaded, hreq⟩ :=
      Allocator.mallocReady_headed hraw (hfit.resolve_left hraw) hsound
    have hgot : Heap.Sound 16 wordSize (.got ⟨env.raw, _⟩ :: a.log) := hlog ▸ hsound
    rw [hfst, received_some (by omega)]
    refine hc.allocate (hroom.resolve_left hraw) ?_ ?_ (h.usable_grant hgot.1.apart hmem) ?_
    · rw [Allocator.mallocReady_some hraw, Allocator.countAllocated_totalAllocated]
      rfl
    · rw [Allocator.mallocReady_some hraw, Allocator.countAllocated_totalFreed]
      rfl
    · rw [hheaded.usable, Nat.add_sub_cancel, hreq]

/-- `allocator_calloc` clears its bytes and no header. -/
theorem calloc {n : ℕ} (h : AllocInv False a live) (hc : Counted a live) (hn : 0 < n)
    (hfit : env.raw = 0 ∨ n ≤ MAX_REQUEST)
    (hroom : env.raw = 0 ∨ a.totalAllocated + n < wordSize)
    (hsound : Heap.Sound 16 wordSize (a.mallocReady n env).2.log) :
    Counted (Allocator.cleared n (a.mallocReady n env)).2
      (received (Allocator.cleared n (a.mallocReady n env)).1 live) := by
  have hone : atLeastOne n = n := by
    rw [atLeastOne_eq]
    omega
  have hmid := malloc h hc hfit (by rw [hone]; exact hroom) hsound
  have hinv := Allocator.mallocReady_inv h hfit hsound
  unfold Allocator.cleared
  by_cases hp : (a.mallocReady n env).1 = 0
  · rw [if_neg (not_not.2 hp)]
    exact hmid
  · rw [if_pos hp]
    refine hmid.congr rfl rfl (activeBytes_congr fun q hq => ?_)
    obtain ⟨b, hb, hh⟩ := hinv.headed hq
    exact hh.usable_congr (hinv.sameOn_stores
      (fun x hx => Allocator.calloc_writable h hn hfit hsound hp hx) hq hb hh)

theorem free (hup : a.Up) (h : AllocInv False a live) (hc : Counted a live)
    (hp : p = 0 ∨ p ∈ live) : Counted (a.allocatorFree p) (live.erase p) := by
  rcases hp with rfl | hp
  · rw [Allocator.erase_null h]
    exact hc
  · obtain ⟨b, hb, hh⟩ := h.headed hp
    rw [Allocator.allocatorFree_header hup.1 hup.2 hh.getHeader]
    refine hc.release hp ?_ ?_ ?_
    · rw [Allocator.libcFree_totalAllocated, Allocator.countFreed_totalAllocated]
    · rw [Allocator.libcFree_totalFreed, Allocator.countFreed_totalFreed, hh.usable]
    · rw [Allocator.libcFree_mem, Allocator.countFreed_mem]

/-- A block moved to a larger place: freed with its old size, allocated with its new one. -/
theorem grow {b : Heap.Block} (h : AllocInv False a live) (hc : Counted a live) (hp : p ∈ live)
    (hb : b ∈ a.blocks) (hh : Headed a.mem b p)
    (hgrow : AllocHeader.requestedSize a.mem (p - 32) < size)
    (hfit : env.raw = 0 ∨ size ≤ MAX_REQUEST)
    (hroom : env.raw = 0 ∨ a.totalAllocated + size < wordSize)
    (hsound : Heap.Sound 16 wordSize (a.reallocGrow p (p - 32) size env).2.log) :
    Counted (a.reallocGrow p (p - 32) size env).2
      (exchanged p size (a.reallocGrow p (p - 32) size env).1 live) := by
  by_cases hraw : env.raw = 0
  · rw [Allocator.reallocGrow_null hraw, exchanged_fail (by omega)]
    exact hc
  · have hsize := hfit.resolve_left hraw
    obtain ⟨hfst, hmem, hlog, hinv⟩ :=
      Allocator.reallocGrow_moved h hp hb hh hraw hsize hgrow hsound
    have hgot : Heap.Sound 16 wordSize (.got ⟨env.raw, Allocator.totalSize size⟩ :: a.log) := by
      rw [hlog] at hsound
      exact hsound
    obtain ⟨hheaded, hreq, hout, -⟩ :=
      Allocator.movedMem_headed a.mem p hsize hgrow.le hgot.1.within
    -- free `p`, then allocate the new pointer
    have hfreed : Counted (a.countFreed (AllocHeader.requestedSize a.mem (p - 32)))
        (live.erase p) := by
      refine hc.release hp (Allocator.countFreed_totalAllocated a _) ?_ (Allocator.countFreed_mem a _)
      rw [Allocator.countFreed_totalFreed, hh.usable]
    rw [hfst, exchanged_some (by omega)]
    refine hfreed.allocate (n := size) ?_ ?_ ?_ (fun q hq => ?_) ?_
    · rw [Allocator.countFreed_totalAllocated]
      exact hroom.resolve_left hraw
    · rw [Allocator.reallocGrow_some hraw, Allocator.libcFree_totalAllocated,
        Allocator.countAllocated_totalAllocated, Allocator.countFreed_totalAllocated,
        Allocator.countFreed_totalAllocated]
      rfl
    · rw [Allocator.reallocGrow_some hraw, Allocator.libcFree_totalFreed,
        Allocator.countAllocated_totalFreed, Allocator.countFreed_totalFreed,
        Allocator.countFreed_totalFreed]
      rfl
    · rw [hmem, Allocator.countFreed_mem]
      exact h.usable_grant hgot.1.apart hout q (List.mem_of_mem_erase hq)
    · rw [hmem, hheaded.usable, Nat.add_sub_cancel, hreq]

theorem keep (hc : Counted a live) (hp : p ∈ live) (hp0 : p ≠ 0)
    (hsize : size = AllocHeader.requestedSize a.mem (p - 32)) :
    Counted (a.setMem (AllocHeader.setRequestedSize a.mem (p - 32) size))
      (exchanged p size p live) := by
  have hsame : AllocHeader.setRequestedSize a.mem (p - 32) size = a.mem := by
    rw [hsize]
    exact store_load
  have hperm : (p :: live.erase p).Perm live := (List.perm_cons_erase hp).symm
  rw [hsame, exchanged_some hp0]
  refine ⟨?_, hc.room⟩
  have hact : activeBytes a.mem (p :: live.erase p) = activeBytes a.mem live :=
    (hperm.map _).sum_eq
  show a.totalAllocated = a.totalFreed + activeBytes a.mem (p :: live.erase p)
  rw [hact]
  exact hc.balance

end Counted

namespace Allocator
variable {a : Allocator} {env : LibcEnv} {size p : ℕ}

theorem allocatorRealloc_null (hup : a.Up) :
    a.allocatorRealloc 0 size env = a.mallocReady size env := by
  unfold allocatorRealloc
  rw [whenReady_ready hup.1, if_pos rfl, allocatorMalloc_ready hup.1]

theorem allocatorRealloc_zero (hup : a.Up) (hp : p ≠ 0) :
    a.allocatorRealloc p 0 env = (0, a.allocatorFree p) := by
  unfold allocatorRealloc
  rw [whenReady_ready hup.1, if_neg hp, if_pos rfl]

/-- `realloc` of a pointer with a header: in place, or by moving the block. -/
theorem allocatorRealloc_headed {b : Heap.Block} (hup : a.Up) (hh : Headed a.mem b p)
    (hsize : size ≠ 0) : a.allocatorRealloc p size env =
      if size ≤ AllocHeader.requestedSize a.mem (p - 32) then
        (p, a.setMem (AllocHeader.setRequestedSize a.mem (p - 32) size))
      else a.reallocGrow p (p - 32) size env := by
  have hp0 : p ≠ 0 := by
    have hroom := hh.room
    omega
  unfold allocatorRealloc
  rw [whenReady_ready hup.1, if_neg hp0, if_neg hsize, hh.getHeader]

end Allocator

/-- `allocator_realloc`, unless it makes a block smaller. -/
theorem Counted.realloc {a : Allocator} {live : List ℕ} {env : LibcEnv} {size p : ℕ} (hup : a.Up)
    (h : AllocInv False a live) (hc : Counted a live) (hp : p = 0 ∨ p ∈ live)
    (hfit : env.raw = 0 ∨ size ≤ MAX_REQUEST)
    (hnull : p = 0 → env.raw = 0 ∨ a.totalAllocated + atLeastOne size < wordSize)
    (hgrow : p ≠ 0 → size ≠ 0 → size = allocatorMallocUsableSize a.mem p ∨
      (allocatorMallocUsableSize a.mem p < size ∧
        (env.raw = 0 ∨ a.totalAllocated + size < wordSize)))
    (hsound : Heap.Sound 16 wordSize (a.allocatorRealloc p size env).2.log) :
    Counted (a.allocatorRealloc p size env).2
      (exchanged p size (a.allocatorRealloc p size env).1 live) := by
  by_cases hp0 : p = 0
  · rw [hp0, Allocator.allocatorRealloc_null hup] at hsound ⊢
    unfold exchanged
    rw [Allocator.erase_null h, ite_self]
    exact Counted.malloc h hc hfit (hnull hp0) hsound
  have hin : p ∈ live := hp.resolve_left hp0
  by_cases hsize : size = 0
  · rw [hsize, Allocator.allocatorRealloc_zero hup hp0]
    exact Counted.free hup h hc (.inr hin)
  obtain ⟨b, hb, hh⟩ := AllocInv.headed h hin
  have hcase := hgrow hp0 hsize
  rw [hh.usable] at hcase
  rw [Allocator.allocatorRealloc_headed hup hh hsize] at hsound ⊢
  rcases hcase with heq | ⟨hlt, hroom⟩
  · rw [if_pos heq.le]
    exact hc.keep hin hp0 heq
  · rw [if_neg (by omega)] at hsound ⊢
    exact Counted.grow h hc hin hb hh hlt hfit hroom hsound

namespace AllocSys

/-- The counters tell the bytes in use, and more was allocated than freed. -/
def CountsRight (s : AllocSys) : Prop :=
  s.a.allocatorGetActiveAllocations = activeBytes s.a.mem s.live ∧
    s.a.totalFreed ≤ s.a.totalAllocated

/-- The sum of all bytes allocated does not wrap when `n` more are, if libc grants them. -/
def RoomFor (s : AllocSys) (n : ℕ) (env : LibcEnv) : Prop :=
  env.raw = 0 ∨ s.a.totalAllocated + n < wordSize

/-- The call is counted: it is not an `allocator_aligned_alloc` that is served, nor a
`allocator_realloc` that makes a block smaller, and the sum of all bytes allocated does not
wrap. -/
def Tallied (s : AllocSys) : AllocOp → Prop
  | .malloc size env => s.RoomFor (atLeastOne size) env
  | .calloc nmemb size env => s.RoomFor (Allocator.totalElements nmemb size) env
  | .realloc ptr size env =>
    (ptr = 0 → s.RoomFor (atLeastOne size) env) ∧
      (ptr ≠ 0 → size ≠ 0 → size = allocatorMallocUsableSize s.a.mem ptr ∨
        (allocatorMallocUsableSize s.a.mem ptr < size ∧ s.RoomFor size env))
  | .alignedAlloc alignment _ env => env.raw = 0 ∨ isPowerOfTwo alignment = false
  | _ => True

/-- Up, every pointer behind a header of its own, and all of them counted. -/
def CountedUp (s : AllocSys) : Prop := s.HeldUp ∧ Counted s.a s.live

theorem CountedUp.countsRight {s : AllocSys} (h : s.CountedUp) : s.CountsRight := by
  obtain ⟨-, hbal, hroom⟩ := h
  refine ⟨?_, by omega⟩
  unfold Allocator.allocatorGetActiveAllocations
  rw [subW_eq (by omega) hroom]
  omega

theorem counted_step {s : AllocSys} {op : AllocOp} (h : s.CountedUp) (hop : s.LegalUp op)
    (hwrap : s.NoWrap op) (htally : s.Tallied op) : Counted (s.step op).a (s.step op).live := by
  obtain ⟨⟨hup, hinv⟩, hc⟩ := h
  obtain ⟨hrun, hargs, hsound⟩ := hop
  have hnofall : ¬ s.FallsBack := Up.not_fallsBack hup
  cases op with
  | phase f => exact hrun.elim
  | malloc size env =>
    have hfit : env.raw = 0 ∨ size ≤ MAX_REQUEST := hwrap.imp_right fun hf => hf.resolve_left hnofall
    have hmalloc : s.a.allocatorMalloc size env = s.a.mallocReady size env :=
      Allocator.allocatorMalloc_ready hup.1
    show Counted (s.a.allocatorMalloc size env).2 (received (s.a.allocatorMalloc size env).1 _)
    have hs : Heap.Sound 16 wordSize (s.a.allocatorMalloc size env).2.log := hsound
    rw [hmalloc] at hs ⊢
    exact Counted.malloc hinv hc hfit htally hs
  | calloc nmemb size env =>
    have hfit : env.raw = 0 ∨ Allocator.totalElements nmemb size ≤ MAX_REQUEST :=
      hwrap.imp_right fun hf => hf.resolve_left hnofall
    have hcalloc : s.a.allocatorCalloc nmemb size env =
        Allocator.cleared (Allocator.totalElements nmemb size)
          (s.a.mallocReady (Allocator.totalElements nmemb size) env) :=
      Allocator.allocatorCalloc_ready hup
    show Counted (s.a.allocatorCalloc nmemb size env).2
      (received (s.a.allocatorCalloc nmemb size env).1 _)
    have hs : Heap.Sound 16 wordSize (s.a.allocatorCalloc nmemb size env).2.log := hsound
    rw [hcalloc] at hs ⊢
    rw [Allocator.cleared_log] at hs
    exact Counted.calloc hinv hc (Allocator.totalElements_pos nmemb size) hfit htally hs
  | realloc ptr size env =>
    have hfit : env.raw = 0 ∨ size ≤ MAX_REQUEST := hwrap.imp_right fun hf => hf.resolve_left hnofall
    exact Counted.realloc hup hinv hc hargs.1 hfit htally.1 htally.2 hsound
  | alignedAlloc alignment size env =>
    show Counted (s.a.allocatorAlignedAlloc alignment size env).2
      (received (s.a.allocatorAlignedAlloc alignment size env).1 _)
    rw [Allocator.allocatorAlignedAlloc_ready hup]
    rcases htally with hraw | hpow
    · rw [Allocator.alignedPlace_null hraw, ite_self]
      exact hc
    · rw [if_neg (by simp [hpow])]
      exact hc
  | free ptr => exact Counted.free hup hinv hc hargs.1
  | stores m =>
    refine hc.congr rfl rfl (activeBytes_congr fun q hq => ?_)
    obtain ⟨b, hb, hh⟩ := AllocInv.headed hinv hq
    exact hh.usable_congr (AllocInv.sameOn_stores hinv hargs hq hb hh)

end AllocSys

/-- A call that wraps no total and is counted. -/
def AllocSys.Accounted (s : AllocSys) (op : AllocOp) : Prop := s.NoWrap op ∧ s.Tallied op

/-- **The bytes in use are counted**, in every run of an allocator that is up in which no
`allocator_aligned_alloc` is served, no block shrinks, and nothing wraps. -/
theorem active_counted {s : AllocSys} (hopen : s.Opened)
    (hzero : s.a.totalAllocated = 0 ∧ s.a.totalFreed = 0) (ops : List AllocOp)
    (hlegal : Runs.Each AllocSys.step AllocSys.LegalUp s ops)
    (hacc : Runs.Each AllocSys.step AllocSys.Accounted s ops) :
    Runs.Always AllocSys.step AllocSys.CountsRight s ops := by
  have hstart : s.CountedUp := by
    refine ⟨hopen.heldUp, ?_, ?_⟩
    · rw [hzero.1, hzero.2, hopen.live]
      rfl
    · rw [hzero.1]
      decide
  have hrun : Runs.Always AllocSys.step AllocSys.CountedUp s ops :=
    Runs.inv_always (fun s op h hop => ⟨AllocSys.heldUp_step h.1 hop.1 hop.2.1,
      AllocSys.counted_step h hop.1 hop.2.1 hop.2.2⟩) hstart (hlegal.and hacc)
  exact hrun.mono fun s h => h.countsRight

/-- A block that grows, and is freed. -/
def growThenFree : List AllocOp :=
  [.malloc 100 (libcAt 0x1000), .realloc 0x1020 200 (libcAt 0x2000), .free 0x2020]

theorem growThenFree_legal :
    Runs.Each AllocSys.step AllocSys.LegalUp AllocSys.opened growThenFree := by
  refine ⟨⟨trivial, by show 100 < wordSize; decide, by decide +kernel⟩,
    ⟨trivial, ⟨.inr (by decide +kernel), by decide, Allocator.bareApart_of_ne (by decide +kernel)⟩,
      by decide +kernel⟩,
    ⟨trivial, ⟨.inr (by decide +kernel), Allocator.bareApart_of_ne (by decide +kernel)⟩, by decide +kernel⟩, trivial⟩

theorem active_counted_growThenFree :
    Runs.Always AllocSys.step AllocSys.CountsRight AllocSys.opened growThenFree := by
  refine active_counted AllocSys.opened_opened ⟨rfl, rfl⟩ _ growThenFree_legal
    ⟨⟨.inr (.inr (by decide)), .inr (by decide +kernel)⟩,
      ⟨.inr (.inr (by decide)), (fun hp => by cases hp), fun _ _ => .inr ⟨by decide +kernel,
        .inr (by decide +kernel)⟩⟩,
      ⟨trivial, trivial⟩, trivial⟩

/-- An aligned block is handed out without being counted. -/
theorem aligned_alloc_uncounted : ¬ ∀ (s : AllocSys) (ops : List AllocOp), s.Opened →
    (s.a.totalAllocated = 0 ∧ s.a.totalFreed = 0) → Runs.Each AllocSys.step AllocSys.LegalUp s ops →
    Runs.Always AllocSys.step AllocSys.CountsRight s ops := by
  intro hall
  have hlegal : Runs.Each AllocSys.step AllocSys.LegalUp AllocSys.opened
      [.alignedAlloc 64 100 (libcAt 0x1000)] :=
    ⟨⟨trivial, ⟨by decide, by decide⟩, by decide +kernel⟩, trivial⟩
  have hlast : AllocSys.CountsRight
      (AllocSys.opened.step (.alignedAlloc 64 100 (libcAt 0x1000))) :=
    (hall _ _ AllocSys.opened_opened ⟨rfl, rfl⟩ hlegal).last
  exact absurd hlast.1 (by decide +kernel)

end Nomalloc
