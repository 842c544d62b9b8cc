import Nomalloc.Core.AllocatorCustody
import Nomalloc.Lib.Runs

/-!
# Runs of the allocator

The steps of `AllocSys` and what is assumed of them (`AllocSys.Legal`): the client passes sizes
that fit a word and pointers it holds, libc hands out blocks of their own, memory is written by
the owners of the bytes, and the bytes before a block that has no header do not look like one.

`alloc_step` is the one step lemma: the invariant is kept by every call whose total does not wrap
(`NoWrap`) and that asks for more than its header (`Roomy`), as long as no pointer with a header is
freed while the allocator hands pointers to libc unread (`Readable`).
-/

namespace Nomalloc

open Bytes

/-- `allocator_init`, `allocator_shutdown`, and the pieces between which other calls can come. -/
inductive AllocPhase where
  | init (env : LibcEnv)
  | initEnter
  | initMark
  | initDone
  | initFail
  | shutdown
  | shutdownEnter
  | shutdownClear
  | shutdownLeave

/-- A step: a call, or a store by anyone. -/
inductive AllocOp where
  | phase (f : AllocPhase)
  | malloc (size : ℕ) (env : LibcEnv)
  | calloc (nmemb size : ℕ) (env : LibcEnv)
  | realloc (ptr size : ℕ) (env : LibcEnv)
  | alignedAlloc (alignment size : ℕ) (env : LibcEnv)
  | free (ptr : ℕ)
  | stores (m : Mem)

/-- The allocator and the pointers its client holds. -/
structure AllocSys where
  a : Allocator
  live : List ℕ

def AllocPhase.run (a : Allocator) : AllocPhase → Allocator
  | .init env => (a.allocatorInit env).2
  | .initEnter => a.initEnter
  | .initMark => a.initMark
  | .initDone => a.initDone
  | .initFail => a.initFail
  | .shutdown => a.allocatorShutdown
  | .shutdownEnter => a.shutdownEnter
  | .shutdownClear => a.shutdownClear
  | .shutdownLeave => a.shutdownLeave

namespace AllocSys

/-- The client takes what a call returned. -/
def take (live : List ℕ) (r : ℕ × Allocator) : AllocSys := ⟨r.2, received r.1 live⟩

def step (s : AllocSys) : AllocOp → AllocSys
  | .phase f => ⟨f.run s.a, s.live⟩
  | .malloc size env => take s.live (s.a.allocatorMalloc size env)
  | .calloc nmemb size env => take s.live (s.a.allocatorCalloc nmemb size env)
  | .realloc ptr size env =>
    let r := s.a.allocatorRealloc ptr size env
    ⟨r.2, exchanged ptr size r.1 s.live⟩
  | .alignedAlloc alignment size env => take s.live (s.a.allocatorAlignedAlloc alignment size env)
  | .free ptr => ⟨s.a.allocatorFree ptr, s.live.erase ptr⟩
  | .stores m => ⟨s.a.setMem m, s.live⟩

/-- How many bytes at `p` are the client's. -/
def clientSize (a : Allocator) (p : ℕ) : ℕ :=
  match a.blocks.find? (·.addr = p) with
  | some b => b.size
  | none => allocatorMallocUsableSize a.mem p

/-- A byte that may be written: by the client in its own bytes, by others outside all blocks. -/
def Writable (s : AllocSys) (x : ℕ) : Prop :=
  (∃ p ∈ s.live, p ≤ x ∧ x < p + clientSize s.a p) ∨
    ∀ b ∈ s.a.blocks, ¬ (b.addr ≤ x ∧ x < b.addr + b.size)

/-- Calls are passed on to libc as they are. -/
def FallsBack (s : AllocSys) : Prop := s.a.initialized = false ∧ s.a.initializing = true

/-- What the callers promise: words, pointers they hold, bytes they own. -/
def ArgsOk (s : AllocSys) : AllocOp → Prop
  | .phase _ => True
  | .malloc size _ => size < wordSize
  | .calloc nmemb size _ => nmemb < wordSize ∧ size < wordSize
  | .realloc ptr size _ => (ptr = 0 ∨ ptr ∈ s.live) ∧ size < wordSize ∧ s.a.BareApart ptr
  | .alignedAlloc alignment size _ => alignment < wordSize ∧ size < wordSize
  | .free ptr => (ptr = 0 ∨ ptr ∈ s.live) ∧ s.a.BareApart ptr
  | .stores m => ∀ x, m x ≠ s.a.mem x → s.Writable x

/-- And libc hands out 16-byte-aligned blocks that overlap no live one. -/
def Legal (s : AllocSys) (op : AllocOp) : Prop :=
  s.ArgsOk op ∧ Heap.Sound 16 wordSize (s.step op).a.log

/-- libc refuses, or the sum that makes room for the header does not wrap. -/
def NoWrap (s : AllocSys) : AllocOp → Prop
  | .malloc size env => env.raw = 0 ∨ s.FallsBack ∨ size ≤ MAX_REQUEST
  | .calloc nmemb size env =>
    env.raw = 0 ∨ s.FallsBack ∨ Allocator.totalElements nmemb size ≤ MAX_REQUEST
  | .realloc _ size env => env.raw = 0 ∨ s.FallsBack ∨ size ≤ MAX_REQUEST
  | .alignedAlloc alignment size env => env.raw = 0 ∨ size + alignment + 32 < wordSize
  | _ => True

/-- A pointer that is handed to libc without a look at its header has none. -/
def Readable (s : AllocSys) : AllocOp → Prop
  | .free ptr => ptr ≠ 0 → s.a.initialized = false ∨ s.a.initializing = true →
      getHeader s.a.mem ptr = none
  | .realloc ptr size _ => ptr ≠ 0 → s.a.initializing = true →
      (s.a.initialized = true → size = 0) → getHeader s.a.mem ptr = none
  | _ => True

/-- A call that falls back on libc, where neither the alignment nor the size is looked at, asks for
more than the header. -/
def Roomy (s : AllocSys) : AllocOp → Prop
  | .alignedAlloc alignment size env => s.FallsBack → env.raw = 0 ∨ 0 < size + alignment
  | _ => True

end AllocSys

namespace AllocInv
variable {bare : Prop} {a : Allocator} {live : List ℕ} {b : Heap.Block} {p : ℕ}

/-! ## stores -/

theorem clientSize_headed (h : AllocInv bare a live) (hb : b ∈ a.blocks) (hh : Headed a.mem b p) :
    AllocSys.clientSize a p = AllocHeader.requestedSize a.mem (p - 32) := by
  have hnone : a.blocks.find? (·.addr = p) = none := by
    refine List.find?_eq_none.2 fun c hc heq => ?_
    have hcp : c.addr = p := of_decide_eq_true heq
    have ho : Owner bare a.mem b p := .inl hh
    have hcb : c = b := h.sound.eq_of_holds hc hb (hcp ▸ c.holds_addr) ho.holds
    have hroom := hh.room
    rw [hcb] at hcp
    omega
  unfold AllocSys.clientSize
  rw [hnone]
  exact hh.usable

theorem clientSize_le (h : AllocInv bare a live) (hb : b ∈ a.blocks) (ho : Owner bare a.mem b p) :
    b.addr ≤ p ∧ p + AllocSys.clientSize a p ≤ b.addr + b.size := by
  rcases ho with hh | ⟨_, rfl⟩
  · rw [h.clientSize_headed hb hh]
    exact ⟨by have := hh.room; omega, hh.fits⟩
  · refine ⟨le_rfl, ?_⟩
    unfold AllocSys.clientSize
    cases hf : a.blocks.find? (·.addr = b.addr) with
    | none => exact absurd (decide_eq_true rfl) (List.find?_eq_none.1 hf b hb)
    | some c =>
      have hca := List.find?_some hf
      have hc : c = b := h.sound.eq_of_addr (List.mem_of_find?_eq_some hf) hb
        (of_decide_eq_true hca)
      rw [hc]

/-- Stores into the client's bytes, or outside all blocks, touch no header. -/
theorem sameOn_stores (h : AllocInv bare a live) {m : Mem}
    (hm : ∀ x, m x ≠ a.mem x → AllocSys.Writable ⟨a, live⟩ x) (hp : p ∈ live) (hb : b ∈ a.blocks)
    (hh : Headed a.mem b p) : SameOn a.mem m (p - 32) 32 := by
  intro x hx hx'
  have hroom := hh.room
  have hinside := hh.inside
  by_contra hne
  rcases hm x hne with ⟨q, hq, hqx, hxq⟩ | hout
  · obtain ⟨c, hc, ho⟩ := h.owned q hq
    have hin := h.clientSize_le hc ho
    -- the byte lies in one block, which owns one pointer
    have hcb : c = b := h.sound.eq_of_holds hc hb
      (show c.Holds x from ⟨by omega, by dsimp only at hxq; omega⟩) ⟨by omega, by omega⟩
    have hop : Owner bare a.mem b p := .inl hh
    have hqp : q = p := h.eq_of_holds hq hp hb (hcb ▸ ho.holds) hop.holds
    omega
  · exact hout b hb ⟨by omega, by omega⟩

theorem stores (h : AllocInv bare a live) {m : Mem}
    (hm : ∀ x, m x ≠ a.mem x → AllocSys.Writable ⟨a, live⟩ x) : AllocInv bare (a.setMem m) live :=
  h.rewrite rfl fun _ hp _ hb hh => hh.congr (h.sameOn_stores hm hp hb hh)

end AllocInv

/-! ## the calls -/

namespace Allocator
variable {bare : Prop} {a : Allocator} {live : List ℕ} {env : LibcEnv} {size p : ℕ}

/-- A call keeps the invariant if it does so when ready and, during initialisation, through
libc. -/
theorem whenReady_inv {fallback body : Allocator → ℕ × Allocator} (after : ℕ → List ℕ)
    (h : ∀ t : Allocator, t.log = a.log → t.mem = a.mem → AllocInv bare t (after 0))
    (hfall : a.initialized = false ∧ a.initializing = true →
      Heap.Sound 16 wordSize (fallback a).2.log →
      AllocInv bare (fallback a).2 (after (fallback a).1))
    (hbody : ∀ t : Allocator, ¬ (a.initialized = false ∧ a.initializing = true) →
      t.initialized = true → t.initializing = a.initializing → t.log = a.log → t.mem = a.mem →
      Heap.Sound 16 wordSize (body t).2.log → AllocInv bare (body t).2 (after (body t).1))
    (hsound : Heap.Sound 16 wordSize (a.whenReady env fallback body).2.log) :
    AllocInv bare (a.whenReady env fallback body).2 (after (a.whenReady env fallback body).1) := by
  rcases whenReady_cases a env fallback body with
    ⟨hup, he⟩ | ⟨hup, hing, he⟩ | ⟨hup, hing, -, he⟩ | ⟨hup, hing, -, he⟩
  · rw [he] at hsound ⊢
    exact hbody a (by simp [hup]) hup rfl rfl rfl hsound
  · rw [he] at hsound ⊢
    exact hfall ⟨hup, hing⟩ hsound
  · rw [he] at hsound ⊢
    exact hbody _ (by simp [hing]) rfl hing.symm rfl rfl hsound
  · rw [he]
    exact h _ rfl rfl

theorem allocatorMalloc_inv (h : AllocInv bare a live)
    (hbare : a.initialized = false ∧ a.initializing = true → bare)
    (hfit : env.raw = 0 ∨ (a.initialized = false ∧ a.initializing = true) ∨ size ≤ MAX_REQUEST)
    (hsound : Heap.Sound 16 wordSize (a.allocatorMalloc size env).2.log) :
    AllocInv bare (a.allocatorMalloc size env).2 (received (a.allocatorMalloc size env).1 live) := by
  unfold allocatorMalloc at hsound ⊢
  refine whenReady_inv (fun p => received p live) (fun t hlog hmem => h.congr hlog hmem)
    (fun hfall => libcMalloc_inv h (hbare hfall)) ?_ hsound
  intro t hready _ _ hlog hmem
  exact mallocReady_inv (h.congr hlog hmem) (hfit.imp_right fun hf => hf.resolve_left hready)

theorem allocatorMalloc_ready (hup : a.initialized = true) :
    a.allocatorMalloc size env = a.mallocReady size env := whenReady_ready hup

/-- `allocator_calloc` on an initialised allocator: the `memset` stays in the new bytes. -/
theorem calloc_writable {n : ℕ} (h : AllocInv bare a live) (hn : 0 < n)
    (hfit : env.raw = 0 ∨ n ≤ MAX_REQUEST)
    (hsound : Heap.Sound 16 wordSize (a.mallocReady n env).2.log)
    (hp : (a.mallocReady n env).1 ≠ 0) {x : ℕ}
    (hx : fill (a.mallocReady n env).2.mem (a.mallocReady n env).1 n 0 x ≠
      (a.mallocReady n env).2.mem x) :
    AllocSys.Writable
      ⟨(a.mallocReady n env).2, received (a.mallocReady n env).1 live⟩ x := by
  have hinv := mallocReady_inv h hfit hsound
  have hraw : env.raw ≠ 0 := by
    intro hraw
    rw [mallocReady_null hraw] at hp
    exact hp rfl
  obtain ⟨hfst, hlog, -, hheaded, hreq⟩ := mallocReady_headed hraw (hfit.resolve_left hraw) hsound
  have hone : atLeastOne n = n := by
    rw [atLeastOne_eq]
    omega
  have hb : ⟨env.raw, totalSize (atLeastOne n)⟩ ∈ (a.mallocReady n env).2.blocks := by
    unfold blocks
    rw [hlog]
    exact List.mem_cons_self
  refine .inl ⟨(a.mallocReady n env).1, ?_, ?_⟩
  · show _ ∈ received _ live
    rw [received_some hp]
    exact List.mem_cons_self
  · show _ ∧ x < _ + AllocSys.clientSize (a.mallocReady n env).2 _
    rw [hfst] at hx ⊢
    rw [hinv.clientSize_headed hb hheaded, Nat.add_sub_cancel, hreq, hone]
    by_contra hout
    exact hx (fill_outside (by omega))

theorem totalElements_pos (nmemb size : ℕ) : 0 < totalElements nmemb size := by
  unfold totalElements
  split <;> omega

theorem allocatorCalloc_inv {nmemb : ℕ} (h : AllocInv bare a live)
    (hbare : a.initialized = false ∧ a.initializing = true → bare)
    (hfit : env.raw = 0 ∨ (a.initialized = false ∧ a.initializing = true) ∨
      totalElements nmemb size ≤ MAX_REQUEST)
    (hsound : Heap.Sound 16 wordSize (a.allocatorCalloc nmemb size env).2.log) :
    AllocInv bare (a.allocatorCalloc nmemb size env).2
      (received (a.allocatorCalloc nmemb size env).1 live) := by
  unfold allocatorCalloc at hsound ⊢
  refine whenReady_inv (fun p => received p live) (fun t hlog hmem => h.congr hlog hmem)
    (fun hfall => libcCalloc_inv h (hbare hfall)) ?_ hsound
  intro t hready hup _ hlog hmem hs
  have hfit' := hfit.imp_right fun hf => hf.resolve_left hready
  dsimp only at hs ⊢
  rw [allocatorMalloc_ready hup] at hs ⊢
  by_cases hp : (t.mallocReady (totalElements nmemb size) env).1 = 0
  · rw [if_neg (not_not.2 hp)] at hs ⊢
    exact mallocReady_inv (h.congr hlog hmem) hfit' hs
  · rw [if_pos hp] at hs ⊢
    have ht : AllocInv bare t live := h.congr hlog hmem
    exact (mallocReady_inv ht hfit' hs).stores fun x hx =>
      calloc_writable ht (totalElements_pos nmemb size) hfit' hs hp hx

theorem allocatorAlignedAlloc_inv {alignment : ℕ} (h : AllocInv bare a live)
    (hroomy : a.initialized = false ∧ a.initializing = true → env.raw = 0 ∨ 0 < size + alignment)
    (hword : alignment < wordSize) (hfit : env.raw = 0 ∨ size + alignment + 32 < wordSize)
    (hsound : Heap.Sound 16 wordSize (a.allocatorAlignedAlloc alignment size env).2.log) :
    AllocInv bare (a.allocatorAlignedAlloc alignment size env).2
      (received (a.allocatorAlignedAlloc alignment size env).1 live) := by
  unfold allocatorAlignedAlloc at hsound ⊢
  refine whenReady_inv (fun p => received p live) (fun t hlog hmem => h.congr hlog hmem)
    (fun hfall => alignedPlace_inv h (hroomy hfall) hfit) ?_ hsound
  intro t _ _ _ hlog hmem hs
  by_cases hpow : isPowerOfTwo alignment = true
  · obtain ⟨hpos, hle⟩ := isPowerOfTwo_le hpow hword
    rw [if_neg (by simp [hpow]; omega)] at hs ⊢
    refine alignedPlace_inv (h.congr hlog hmem) (.inr (by omega)) (hfit.imp_right fun hf => ?_) hs
    split
    · unfold wordSize at *
      omega
    · exact hf
  · rw [if_pos (by simp [hpow])]
    exact h.congr hlog hmem

/-! ### realloc -/

/-- A block that grows: the new one is handed out, then the old one goes back. -/
theorem reallocGrow_moved {b : Heap.Block} (h : AllocInv bare a live) (hp : p ∈ live)
    (hb : b ∈ a.blocks) (hh : Headed a.mem b p) (hraw : env.raw ≠ 0) (hsize : size ≤ MAX_REQUEST)
    (hgrow : AllocHeader.requestedSize a.mem (p - 32) < size)
    (hsound : Heap.Sound 16 wordSize (a.reallocGrow p (p - 32) size env).2.log) :
    (a.reallocGrow p (p - 32) size env).1 = env.raw + 32 ∧
      (a.reallocGrow p (p - 32) size env).2.mem =
        movedMem a.mem env.raw p (AllocHeader.requestedSize a.mem (p - 32)) size ∧
      (a.reallocGrow p (p - 32) size env).2.log =
        .gave b.addr :: .got ⟨env.raw, totalSize size⟩ :: a.log ∧
      AllocInv bare (a.reallocGrow p (p - 32) size env).2 ((env.raw + 32) :: live.erase p) := by
  rw [reallocGrow_some hraw] at hsound ⊢
  rw [libcFree_log, countAllocated_log, countFreed_log] at hsound
  have hgot : Heap.Sound 16 wordSize (.got ⟨env.raw, totalSize size⟩ :: a.log) := hsound
  have htop : env.raw + totalSize size ≤ wordSize := hgot.1.within
  obtain ⟨htotal, hlo, hhi, hlt⟩ := totalSize_eq hsize
  obtain ⟨hheaded, -, hout, -⟩ := movedMem_headed a.mem p hsize hgrow.le htop
  have hadd : addW env.raw 32 = env.raw + 32 := addW_eq (by omega)
  -- the memory in between, with both blocks out
  have hmid : AllocInv bare ((a.obtain ⟨env.raw, totalSize size⟩).setMem
      (movedMem a.mem env.raw p (AllocHeader.requestedSize a.mem (p - 32)) size))
      ((env.raw + 32) :: live) := h.grant rfl hgot hout (.inl hheaded)
  have hkeep : Headed (movedMem a.mem env.raw p (AllocHeader.requestedSize a.mem (p - 32)) size) b p :=
    hh.congr (hh.sameOn (AllocInv.sameOn_grant hgot.1.apart hout hb))
  have hne : env.raw + 32 ≠ p := by
    rintro rfl
    exact (List.nodup_cons.1 hmid.nodup).1 hp
  have herase : ((env.raw + 32) :: live).erase p = (env.raw + 32) :: live.erase p :=
    List.erase_cons_tail (by simpa using hne)
  rw [hadd, hkeep.raw, ← herase]
  refine ⟨rfl, ?_, ?_, ?_⟩
  · rw [libcFree_mem, countAllocated_mem, countFreed_mem]
    rfl
  · rw [libcFree_log, countAllocated_log, countFreed_log]
    rfl
  · refine hmid.release (List.mem_cons_of_mem _ hp) (List.mem_cons_of_mem _ hb) (.inl hkeep) ?_ ?_
    · rw [libcFree_log, countAllocated_log, countFreed_log]
    · rw [libcFree_mem, countAllocated_mem, countFreed_mem]

/-- A block whose header is found: it stays where it is, or is moved if it has to grow. -/
theorem reallocHeaded_inv {b : Heap.Block} (h : AllocInv bare a live) (hp : p ∈ live)
    (hb : b ∈ a.blocks) (hh : Headed a.mem b p) (hsize : size ≠ 0)
    (hfit : env.raw = 0 ∨ size ≤ MAX_REQUEST) {r : ℕ × Allocator}
    (hr : r = if size ≤ AllocHeader.requestedSize a.mem (p - 32) then
        (p, a.setMem (AllocHeader.setRequestedSize a.mem (p - 32) size))
      else a.reallocGrow p (p - 32) size env)
    (hsound : Heap.Sound 16 wordSize r.2.log) :
    AllocInv bare r.2 (exchanged p size r.1 live) := by
  have hp0 : p ≠ 0 := by
    have hroom := hh.room
    omega
  by_cases hle : size ≤ AllocHeader.requestedSize a.mem (p - 32)
  · rw [if_pos hle] at hr
    rw [hr, exchanged_some hp0]
    have hperm : (p :: live.erase p).Perm live := (List.perm_cons_erase hp).symm
    exact (shrink_inv h hp hb hh hle).perm hperm
  · rw [if_neg hle] at hr
    rw [hr] at hsound ⊢
    by_cases hraw : env.raw = 0
    · rw [reallocGrow_null hraw, exchanged_fail hsize]
      exact h
    · obtain ⟨hfst, -, -, hmoved⟩ := reallocGrow_moved h hp hb hh hraw (hfit.resolve_left hraw)
        (by omega) hsound
      rw [hfst, exchanged_some (by omega)]
      exact hmoved

theorem allocatorRealloc_inv (h : AllocInv bare a live)
    (hbare : a.initialized = false ∧ a.initializing = true → bare) (hp : p = 0 ∨ p ∈ live)
    (hap : a.BareApart p)
    (hfit : env.raw = 0 ∨ (a.initialized = false ∧ a.initializing = true) ∨ size ≤ MAX_REQUEST)
    (hmode : p ≠ 0 → a.initializing = true → (a.initialized = true → size = 0) →
      getHeader a.mem p = none)
    (hsound : Heap.Sound 16 wordSize (a.allocatorRealloc p size env).2.log) :
    AllocInv bare (a.allocatorRealloc p size env).2
      (exchanged p size (a.allocatorRealloc p size env).1 live) := by
  unfold allocatorRealloc at hsound ⊢
  refine whenReady_inv (fun q => exchanged p size q live) ?_ ?_ ?_ hsound
  · intro t hlog hmem
    have hinv : AllocInv bare t live := h.congr hlog hmem
    unfold exchanged
    rw [received_null]
    split
    · exact hinv
    · exact hinv.forget List.erase_sublist
  · intro hfall
    exact libcRealloc_inv h hp
      (fun hp0 => hmode hp0 hfall.2 fun hup => by rw [hfall.1] at hup; cases hup)
      (fun _ => hbare hfall)
  intro t hready hup hing hlog hmem hs
  have hinv : AllocInv bare t live := h.congr hlog hmem
  have hblocks : t.blocks = a.blocks := by
    unfold blocks
    rw [hlog]
  have hfit' := hfit.imp_right fun hf => hf.resolve_left hready
  by_cases hp0 : p = 0
  · rw [if_pos hp0, allocatorMalloc_ready hup] at hs ⊢
    rw [hp0]
    unfold exchanged
    rw [erase_null hinv, ite_self]
    exact mallocReady_inv hinv hfit' hs
  have hp := hp.resolve_left hp0
  have hap' : t.BareApart p := by
    unfold BareApart
    rw [hblocks, hmem]
    exact hap
  rw [if_neg hp0] at hs ⊢
  by_cases hsize : size = 0
  · rw [if_pos hsize]
    dsimp only
    unfold exchanged
    rw [if_neg fun hc => hc.2 hsize, received_null]
    refine allocatorFree_inv hinv (.inr hp) hap' fun _ hdown => ?_
    rw [hmem]
    rcases hdown with hdown | hdown
    · rw [hup] at hdown
      cases hdown
    · exact hmode hp0 (hing ▸ hdown) fun _ => hsize
  rw [if_neg hsize] at hs ⊢
  cases hh : getHeader t.mem p with
  | none =>
    rw [hh] at hs
    exact libcRealloc_inv hinv (.inr hp) (fun _ => hh) (fun hc => absurd hc hp0) hs
  | some header =>
    rw [hh] at hs
    obtain ⟨b, hb, ho⟩ := hinv.owned p hp
    obtain ⟨hheaded, rfl⟩ := headed_of_getHeader ho hb hap' hh
    exact reallocHeaded_inv hinv hp hb hheaded hsize hfit' rfl hs

end Allocator

/-! ## steps and runs -/

theorem AllocPhase.run_keeps (f : AllocPhase) (a : Allocator) :
    (f.run a).log = a.log ∧ (f.run a).mem = a.mem := by
  cases f with
  | init env =>
    show (a.allocatorInit env).2.log = _ ∧ (a.allocatorInit env).2.mem = _
    unfold Allocator.allocatorInit
    split_ifs <;> exact ⟨rfl, rfl⟩
  | shutdown =>
    show a.allocatorShutdown.log = _ ∧ a.allocatorShutdown.mem = _
    unfold Allocator.allocatorShutdown
    dsimp only
    split <;> exact ⟨rfl, rfl⟩
  | initEnter => exact ⟨rfl, rfl⟩
  | initMark => exact ⟨rfl, rfl⟩
  | initDone => exact ⟨rfl, rfl⟩
  | initFail => exact ⟨rfl, rfl⟩
  | shutdownEnter => exact ⟨rfl, rfl⟩
  | shutdownClear => exact ⟨rfl, rfl⟩
  | shutdownLeave => exact ⟨rfl, rfl⟩

/-- Every pointer of the client has an owner of its own. -/
def AllocSys.Inv (bare : Prop) (s : AllocSys) : Prop := AllocInv bare s.a s.live

/-- **The step lemma.**  The invariant is kept by every call that wraps no total and hands no
header's pointer to libc; pointers without a header come only from calls that fall back. -/
theorem alloc_step {bare : Prop} {s : AllocSys} {op : AllocOp} (h : s.Inv bare)
    (hlegal : s.Legal op) (hwrap : s.NoWrap op) (hread : s.Readable op) (hroomy : s.Roomy op)
    (hbare : s.FallsBack → bare) : (s.step op).Inv bare := by
  obtain ⟨hargs, hsound⟩ := hlegal
  cases op with
  | phase f => exact AllocInv.congr h (f.run_keeps s.a).1 (f.run_keeps s.a).2
  | malloc size env => exact Allocator.allocatorMalloc_inv h hbare hwrap hsound
  | calloc nmemb size env => exact Allocator.allocatorCalloc_inv h hbare hwrap hsound
  | realloc ptr size env =>
    exact Allocator.allocatorRealloc_inv h hbare hargs.1 hargs.2.2 hwrap hread hsound
  | alignedAlloc alignment size env =>
    exact Allocator.allocatorAlignedAlloc_inv h hroomy hargs.1 hwrap hsound
  | free ptr => exact Allocator.allocatorFree_inv h hargs.1 hargs.2 hread
  | stores m => exact AllocInv.stores h hargs

namespace AllocSys

/-- A process that has not called the allocator yet, over any memory. -/
def init (m : Mem) : AllocSys := ⟨⟨false, false, 0, 0, m, []⟩, []⟩

theorem init_inv (m : Mem) : (init m).Inv True :=
  ⟨trivial, trivial, fun _ hp => (List.not_mem_nil hp).elim, .nil⟩

/-- Every address handed to libc is one that libc handed out and did not get back since. -/
def HandsBack (s : AllocSys) : Prop := Heap.Matched s.a.log

/-- No total wraps, no pointer with a header goes to libc as it is, and none is the end of its
block. -/
def Kept (s : AllocSys) (op : AllocOp) : Prop := s.NoWrap op ∧ s.Readable op ∧ s.Roomy op

end AllocSys

/-- **libc gets back what it handed out.**  In every run of the allocator, through initialisation
and shutdown, whose calls wrap no total and free no pointer that has a header while
the allocator is not up. -/
theorem freed_matched (m : Mem) (ops : List AllocOp)
    (hlegal : Runs.Each AllocSys.step AllocSys.Legal (AllocSys.init m) ops)
    (hkept : Runs.Each AllocSys.step AllocSys.Kept (AllocSys.init m) ops) :
    Runs.Always AllocSys.step AllocSys.HandsBack (AllocSys.init m) ops := by
  have hrun : Runs.Always AllocSys.step (AllocSys.Inv True) (AllocSys.init m) ops :=
    Runs.inv_always (fun s op h hop =>
      alloc_step h hop.1 hop.2.1 hop.2.2.1 hop.2.2.2 fun _ => trivial)
      (AllocSys.init_inv m) (hlegal.and hkept)
  exact hrun.mono fun s h => h.matched

/-- Two blocks from before the allocator is up, one of them aligned to 24, and one from after, all
freed. -/
def twoOrigins : List AllocOp :=
  [.phase .initEnter, .malloc 16 (libcAt 0x1000), .alignedAlloc 24 100 (libcAt 0x3000),
    .phase .initMark, .phase .initDone, .malloc 8 (libcAt 0x2000), .free 0x1000, .free 0x2020,
    .free 0x3030]

theorem twoOrigins_legal :
    Runs.Each AllocSys.step AllocSys.Legal (AllocSys.init fun _ => 0) twoOrigins := by
  refine ⟨⟨trivial, by decide +kernel⟩, ⟨by show 16 < wordSize; decide, by decide +kernel⟩,
    ⟨⟨by decide, by decide⟩, by decide +kernel⟩,
    ⟨trivial, by decide +kernel⟩, ⟨trivial, by decide +kernel⟩,
    ⟨by show 8 < wordSize; decide, by decide +kernel⟩, ⟨⟨.inr (by decide +kernel), ?_⟩,
    by decide +kernel⟩, ⟨⟨.inr (by decide +kernel), ?_⟩, by decide +kernel⟩,
    ⟨⟨.inr (by decide +kernel), ?_⟩, by decide +kernel⟩, trivial⟩
  · intro _
    decide +kernel
  · exact Allocator.bareApart_of_ne (by decide +kernel)
  · exact Allocator.bareApart_of_ne (by decide +kernel)

theorem freed_matched_twoOrigins :
    Runs.Always AllocSys.step AllocSys.HandsBack (AllocSys.init fun _ => 0) twoOrigins := by
  have hup : ∀ b : Prop, (true = false ∨ false = true) → b := fun b h => by
    rcases h with h | h <;> cases h
  exact freed_matched _ _ twoOrigins_legal ⟨⟨trivial, trivial, trivial⟩,
    ⟨.inr (.inl ⟨rfl, rfl⟩), trivial, trivial⟩, ⟨.inr (by decide), trivial, fun _ => .inr (by decide)⟩,
    ⟨trivial, trivial, trivial⟩, ⟨trivial, trivial, trivial⟩,
    ⟨.inr (.inr (by decide)), trivial, trivial⟩, ⟨trivial, fun _ => hup _, trivial⟩,
    ⟨trivial, fun _ => hup _, trivial⟩, ⟨trivial, fun _ => hup _, trivial⟩, trivial⟩

/-- A block with a header is freed after the allocator has been shut down. -/
def freedAfterShutdown : List AllocOp :=
  [.malloc 8 (libcAt 0x1000), .phase .shutdown, .free 0x1020]

/-- The address handed to `__libc_free` is 32 bytes into the block then. -/
theorem freed_after_shutdown_unmatched : ¬ ∀ m ops,
    Runs.Each AllocSys.step AllocSys.Legal (AllocSys.init m) ops →
    Runs.Always AllocSys.step AllocSys.HandsBack (AllocSys.init m) ops := by
  intro hall
  have hlegal : Runs.Each AllocSys.step AllocSys.Legal (AllocSys.init fun _ => 0)
      freedAfterShutdown := by
    refine ⟨⟨by show 8 < wordSize; decide, by decide +kernel⟩, ⟨trivial, by decide +kernel⟩,
      ⟨⟨.inr (by decide +kernel), ?_⟩, by decide +kernel⟩, trivial⟩
    exact Allocator.bareApart_of_ne (by decide +kernel)
  have hlast : Heap.Matched (Runs.after AllocSys.step (AllocSys.init fun _ => 0)
    freedAfterShutdown).a.log := (hall _ _ hlegal).last
  exact absurd hlast (by decide +kernel)

end Nomalloc
