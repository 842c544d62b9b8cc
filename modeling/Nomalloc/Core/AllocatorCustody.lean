import Nomalloc.Core.AllocatorCalls

/-!
# The allocator in use

`AllocSys` is the allocator and the pointers its client holds.  Its steps (`AllocOp`) are the
calls of the client, the pieces of `allocator_init` and `allocator_shutdown` (between which other
calls can be made), and the stores of everyone into memory.

* `Headed m b p`   the header before `p` leads to the libc block `b`, and `p`'s bytes lie in `b`;
* `Owner`          that, or (where `bare` is allowed) `p` is `b` itself, without a header;
* `AllocInv`       every pointer the client holds has an owner of its own.

Three moves make up all calls: libc hands a block out (`AllocInv.grant`), an owner is handed back
(`AllocInv.release`), memory is written where no header is (`AllocInv.stores`).
-/

namespace Nomalloc

open Bytes

/-! ## owners -/

/-- The header before `p` leads to `b`, and `p`'s bytes lie in `b`. -/
structure Headed (m : Mem) (b : Heap.Block) (p : ℕ) : Prop where
  room : b.addr + 32 ≤ p
  magic : AllocHeader.magic m (p - 32) = ALLOC_MAGIC
  raw : AllocHeader.rawPtr m (p - 32) = b.addr
  fits : p + AllocHeader.requestedSize m (p - 32) ≤ b.addr + b.size
  inside : p < b.addr + b.size

/-- The block of a pointer: found by its header, or (if `bare`) at the pointer itself. -/
def Owner (bare : Prop) (m : Mem) (b : Heap.Block) (p : ℕ) : Prop :=
  Headed m b p ∨ (bare ∧ b.addr = p)

section owners
variable {bare : Prop} {m m' : Mem} {b : Heap.Block} {p : ℕ}

theorem Headed.getHeader (h : Headed m b p) : getHeader m p = some (p - 32) :=
  getHeader_eq_some.2 ⟨(show 32 ≤ p by have := h.room; omega), rfl, h.magic⟩

theorem Headed.usable (h : Headed m b p) :
    allocatorMallocUsableSize m p = AllocHeader.requestedSize m (p - 32) :=
  usableSize_of_header (by have := h.room; omega) h.magic

theorem Headed.congr (h : Headed m b p) (hs : SameOn m m' (p - 32) 32) : Headed m' b p := by
  refine ⟨h.room, ?_, ?_, ?_, h.inside⟩
  · rw [AllocHeader.magic_congr hs, h.magic]
  · rw [AllocHeader.rawPtr_congr hs, h.raw]
  · rw [AllocHeader.requestedSize_congr hs]
    exact h.fits

/-- A block keeps its size while its header stands. -/
theorem Headed.usable_congr (h : Headed m b p) (hs : SameOn m m' (p - 32) 32) :
    allocatorMallocUsableSize m' p = allocatorMallocUsableSize m p := by
  rw [h.usable, (h.congr hs).usable]
  exact AllocHeader.requestedSize_congr hs

theorem Headed.sameOn (h : Headed m b p) (hs : SameOn m m' b.addr b.size) :
    SameOn m m' (p - 32) 32 :=
  hs.sub (by have := h.room; omega) (by have := h.room; have := h.inside; omega)

theorem Owner.holds (h : Owner bare m b p) : b.Holds p := by
  rcases h with h | ⟨_, rfl⟩
  · exact ⟨by have := h.room; omega, by have := h.inside; omega⟩
  · exact b.holds_addr

theorem Owner.keep (h : Owner bare m b p) (hs : SameOn m m' b.addr b.size) : Owner bare m' b p :=
  h.imp_left fun hh => hh.congr (hh.sameOn hs)

theorem Owner.of_noHeader (h : Owner bare m b p) (hn : Nomalloc.getHeader m p = none) :
    bare ∧ b.addr = p := by
  rcases h with h | h
  · rw [h.getHeader] at hn
    cases hn
  · exact h

end owners

/-! ## the invariant -/

/-- No block holds both pointers. -/
def Alone (bs : List Heap.Block) (p q : ℕ) : Prop := ∀ b ∈ bs, b.Holds p → ¬ b.Holds q

instance (bs : List Heap.Block) : Std.Symm (Alone bs) := ⟨fun _ _ h b hb hq hp => h b hb hp hq⟩

/-- libc keeps its promises and gets back what it handed out; the pointers `live` of the client
have an owner each. -/
structure AllocInv (bare : Prop) (a : Allocator) (live : List ℕ) : Prop where
  sound : Heap.Sound 16 wordSize a.log
  matched : Heap.Matched a.log
  owned : ∀ p ∈ live, ∃ b ∈ a.blocks, Owner bare a.mem b p
  alone : live.Pairwise (Alone a.blocks)

namespace AllocInv
variable {bare : Prop} {a a' : Allocator} {live live' : List ℕ} {b c : Heap.Block} {p q : ℕ}

theorem nodup (h : AllocInv bare a live) : live.Nodup := by
  refine h.alone.imp_of_mem fun {p q} hp _ hpq heq => ?_
  obtain ⟨b, hb, ho⟩ := h.owned p hp
  exact hpq b hb ho.holds (heq ▸ ho.holds)

theorem eq_of_holds (h : AllocInv bare a live) (hp : p ∈ live) (hq : q ∈ live) (hb : b ∈ a.blocks)
    (hbp : b.Holds p) (hbq : b.Holds q) : p = q := by
  by_contra hne
  exact h.alone.forall hp hq hne b hb hbp hbq

theorem nonzero (h : AllocInv bare a live) (hp : p ∈ live) : p ≠ 0 := by
  obtain ⟨b, hb, ho⟩ := h.owned p hp
  have hb0 := (h.sound.fits hb).1
  have hhold := ho.holds.1
  omega

theorem congr (h : AllocInv bare a live) (hlog : a'.log = a.log) (hmem : a'.mem = a.mem) :
    AllocInv bare a' live := by
  obtain ⟨h1, h2, h3, h4⟩ := h
  refine ⟨hlog ▸ h1, hlog ▸ h2, ?_, ?_⟩
  · unfold Allocator.blocks at *
    rw [hlog, hmem]
    exact h3
  · unfold Allocator.blocks at *
    rw [hlog]
    exact h4

theorem forget (h : AllocInv bare a live) (hs : live'.Sublist live) : AllocInv bare a live' :=
  ⟨h.sound, h.matched, fun p hp => h.owned p (hs.subset hp), h.alone.sublist hs⟩

theorem perm (h : AllocInv bare a live) (hs : live'.Perm live) : AllocInv bare a live' :=
  ⟨h.sound, h.matched, fun p hp => h.owned p (hs.subset hp),
    (hs.pairwise_iff fun hpq b hb hq hp => hpq b hb hp hq).2 h.alone⟩

/-- A fresh block shares no byte with a live one. -/
theorem sameOn_grant {m m' : Mem} {bs : List Heap.Block} (hfresh : ∀ c ∈ bs, b.Apart c)
    (hmem : ∀ x, x < b.addr ∨ b.addr + b.size ≤ x → m' x = m x) (hc : c ∈ bs) :
    SameOn m m' c.addr c.size := by
  intro x hx hx'
  have hsep := (hfresh c hc).2
  exact hmem x (by omega)

/-- **libc hands out a block**, and the client gets a pointer owned by it. -/
theorem grant (h : AllocInv bare a live) (hlog : a'.log = .got b :: a.log)
    (hsound : Heap.Sound 16 wordSize a'.log)
    (hmem : ∀ x, x < b.addr ∨ b.addr + b.size ≤ x → a'.mem x = a.mem x)
    (ho : Owner bare a'.mem b p) : AllocInv bare a' (p :: live) := by
  rw [hlog] at hsound
  have hfresh : ∀ c ∈ a.blocks, b.Apart c := hsound.1.apart
  have hblocks : a'.blocks = b :: a.blocks := by
    unfold Allocator.blocks
    rw [hlog]
    rfl
  have hold : ∀ q ∈ live, ∃ c ∈ a.blocks, c.Holds q ∧ ¬ b.Holds q := by
    intro q hq
    obtain ⟨c, hc, hoc⟩ := h.owned q hq
    exact ⟨c, hc, hoc.holds, fun hb => (hfresh c hc).not_holds hb hoc.holds⟩
  refine ⟨hlog ▸ hsound, hlog ▸ h.matched, ?_, ?_⟩
  · intro q hq
    rw [hblocks]
    rcases List.mem_cons.1 hq with rfl | hq
    · exact ⟨b, List.mem_cons_self, ho⟩
    · obtain ⟨c, hc, hoc⟩ := h.owned q hq
      exact ⟨c, List.mem_cons_of_mem _ hc, hoc.keep (sameOn_grant hfresh hmem hc)⟩
  · rw [hblocks]
    refine List.pairwise_cons.2 ⟨fun q hq d hd hdp => ?_, h.alone.imp_of_mem ?_⟩
    · obtain ⟨c, hc, hcq, hbq⟩ := hold q hq
      rcases List.mem_cons.1 hd with rfl | hd
      · exact hbq
      · exact absurd hdp ((hfresh d hd).not_holds ho.holds)
    · intro q r hq _ hqr d hd hdq
      rcases List.mem_cons.1 hd with rfl | hd
      · obtain ⟨c, hc, hcq, hbq⟩ := hold q hq
        exact absurd hdq hbq
      · exact hqr d hd hdq

/-- **An owner is handed back to libc.** -/
theorem release (h : AllocInv bare a live) (hp : p ∈ live) (hb : b ∈ a.blocks)
    (ho : Owner bare a.mem b p) (hlog : a'.log = .gave b.addr :: a.log) (hmem : a'.mem = a.mem) :
    AllocInv bare a' (live.erase p) := by
  have hblocks : ∀ c, c ∈ a'.blocks ↔ c ∈ a.blocks ∧ c.addr ≠ b.addr := by
    intro c
    unfold Allocator.blocks
    rw [hlog]
    exact Heap.mem_live_gave
  refine ⟨?_, ?_, ?_, ?_⟩
  · rw [hlog]
    exact h.sound
  · rw [hlog]
    exact ⟨⟨b, hb, rfl⟩, h.matched⟩
  · intro q hq
    obtain ⟨hne, hq⟩ := h.nodup.mem_erase_iff.1 hq
    obtain ⟨c, hc, hoc⟩ := h.owned q hq
    refine ⟨c, (hblocks c).2 ⟨hc, fun ha => hne ?_⟩, by rw [hmem]; exact hoc⟩
    -- the other pointer's owner is another block
    have hcb : c = b := h.sound.eq_of_addr hc hb ha
    exact h.eq_of_holds hq hp hb (hcb ▸ hoc.holds) ho.holds
  · refine (h.alone.sublist List.erase_sublist).imp fun hpq d hd => ?_
    exact hpq d ((hblocks d).1 hd).1

/-- **Memory is written where no header is.** -/
theorem rewrite (h : AllocInv bare a live) (hlog : a'.log = a.log)
    (hmem : ∀ p ∈ live, ∀ b ∈ a.blocks, Headed a.mem b p → Headed a'.mem b p) :
    AllocInv bare a' live := by
  have hblocks : a'.blocks = a.blocks := by
    unfold Allocator.blocks
    rw [hlog]
  refine ⟨hlog ▸ h.sound, hlog ▸ h.matched, ?_, by rw [hblocks]; exact h.alone⟩
  intro p hp
  obtain ⟨b, hb, ho⟩ := h.owned p hp
  exact ⟨b, hblocks ▸ hb, ho.imp_left (hmem p hp b hb)⟩

end AllocInv

/-! ## the calls -/

/-- What the client holds after a call that returned `p`. -/
def received (p : ℕ) (live : List ℕ) : List ℕ := if p = 0 then live else p :: live

/-- After a `realloc` of `ptr` that returned `p`: unless it failed, `ptr` is gone. -/
def exchanged (ptr size p : ℕ) (live : List ℕ) : List ℕ :=
  received p (if p = 0 ∧ size ≠ 0 then live else live.erase ptr)

@[simp] theorem received_null (live : List ℕ) : received 0 live = live := if_pos rfl

theorem received_some {p : ℕ} (h : p ≠ 0) (live : List ℕ) : received p live = p :: live := if_neg h

theorem exchanged_fail {ptr size : ℕ} (h : size ≠ 0) (live : List ℕ) :
    exchanged ptr size 0 live = live := by
  unfold exchanged
  rw [if_pos ⟨rfl, h⟩, received_null]

theorem exchanged_some {ptr size p : ℕ} (h : p ≠ 0) (live : List ℕ) :
    exchanged ptr size p live = p :: live.erase ptr := by
  unfold exchanged
  rw [if_neg fun hc => h hc.1, received_some h]

theorem headed_write {m : Mem} {raw total p n fl : ℕ} (hroom : raw + 32 ≤ p)
    (hfits : p + n ≤ raw + total) (hinside : p < raw + total) (hraw : raw < wordSize)
    (hn : n < wordSize) : Headed (AllocHeader.write m (p - 32) raw total n fl) ⟨raw, total⟩ p := by
  refine ⟨hroom, AllocHeader.magic_write, AllocHeader.rawPtr_write hraw, ?_, hinside⟩
  rw [AllocHeader.requestedSize_write hn]
  exact hfits

namespace Allocator
variable {bare : Prop} {a : Allocator} {live : List ℕ} {env : LibcEnv} {size p : ℕ}

theorem libcMalloc_inv (h : AllocInv bare a live) (hbare : bare)
    (hsound : Heap.Sound 16 wordSize (a.libcMalloc size env).2.log) :
    AllocInv bare (a.libcMalloc size env).2 (received (a.libcMalloc size env).1 live) := by
  by_cases hraw : env.raw = 0
  · rw [libcMalloc_null hraw]
    exact h
  · rw [libcMalloc_some hraw] at hsound ⊢
    rw [received_some hraw]
    exact h.grant rfl hsound (fun _ _ => rfl) (.inr ⟨hbare, rfl⟩)

theorem libcCalloc_inv {nmemb : ℕ} (h : AllocInv bare a live) (hbare : bare)
    (hsound : Heap.Sound 16 wordSize (a.libcCalloc nmemb size env).2.log) :
    AllocInv bare (a.libcCalloc nmemb size env).2
      (received (a.libcCalloc nmemb size env).1 live) := by
  unfold libcCalloc at hsound ⊢
  by_cases hraw : env.raw = 0
  · rw [if_pos hraw]
    exact h
  · rw [if_neg hraw] at hsound ⊢
    rw [received_some hraw]
    exact h.grant rfl hsound (fun x hx => fill_outside hx) (.inr ⟨hbare, rfl⟩)

/-- What `allocator_malloc` hands out: a block of libc with a header at its start. -/
theorem mallocReady_headed (hraw : env.raw ≠ 0) (hsize : size ≤ MAX_REQUEST)
    (hsound : Heap.Sound 16 wordSize (a.mallocReady size env).2.log) :
    (a.mallocReady size env).1 = env.raw + 32 ∧
      (a.mallocReady size env).2.log = .got ⟨env.raw, totalSize (atLeastOne size)⟩ :: a.log ∧
      (∀ x, x < env.raw ∨ env.raw + totalSize (atLeastOne size) ≤ x →
        (a.mallocReady size env).2.mem x = a.mem x) ∧
      Headed (a.mallocReady size env).2.mem ⟨env.raw, totalSize (atLeastOne size)⟩ (env.raw + 32) ∧
      AllocHeader.requestedSize (a.mallocReady size env).2.mem env.raw = atLeastOne size := by
  have hone : atLeastOne size ≤ MAX_REQUEST := by
    rw [atLeastOne_eq]
    unfold MAX_REQUEST wordSize at *
    omega
  obtain ⟨htotal, hlo, hhi, hlt⟩ := totalSize_eq hone
  rw [mallocReady_some hraw] at hsound ⊢
  have htop : env.raw + totalSize (atLeastOne size) ≤ wordSize := hsound.1.within
  have hmem : ∀ m, AllocHeader.write m env.raw env.raw (totalSize (atLeastOne size))
      (atLeastOne size) 0 = AllocHeader.write m (env.raw + 32 - 32) env.raw
        (totalSize (atLeastOne size)) (atLeastOne size) 0 := fun m => by
    rw [Nat.add_sub_cancel]
  refine ⟨addW_eq (by omega), rfl, fun x hx => AllocHeader.write_outside (by omega), ?_,
    AllocHeader.requestedSize_write (by omega)⟩
  show Headed (AllocHeader.write a.mem env.raw env.raw (totalSize (atLeastOne size))
    (atLeastOne size) 0) _ _
  rw [hmem]
  exact headed_write le_rfl (by omega) (by omega) (by omega) (by omega)

theorem mallocReady_inv (h : AllocInv bare a live) (hfit : env.raw = 0 ∨ size ≤ MAX_REQUEST)
    (hsound : Heap.Sound 16 wordSize (a.mallocReady size env).2.log) :
    AllocInv bare (a.mallocReady size env).2 (received (a.mallocReady size env).1 live) := by
  by_cases hraw : env.raw = 0
  · rw [mallocReady_null hraw]
    exact h
  · obtain ⟨hp, hlog, hmem, hheaded, -⟩ :=
      mallocReady_headed hraw (hfit.resolve_left hraw) hsound
    rw [hp, received_some (by omega)]
    exact h.grant hlog hsound hmem (.inl hheaded)

theorem alignedPlace_headed {alignment : ℕ} (hraw : env.raw ≠ 0) (hroomy : 0 < size + alignment)
    (hsize : size + alignment + 32 < wordSize)
    (hsound : Heap.Sound 16 wordSize (a.alignedPlace alignment size env).2.log) :
    (a.alignedPlace alignment size env).1 = alignedTarget env.raw alignment ∧
      env.raw + 32 ≤ alignedTarget env.raw alignment ∧
      (a.alignedPlace alignment size env).2.log =
        .got ⟨env.raw, size + alignment + 32⟩ :: a.log ∧
      (∀ x, x < env.raw ∨ env.raw + (size + alignment + 32) ≤ x →
        (a.alignedPlace alignment size env).2.mem x = a.mem x) ∧
      Headed (a.alignedPlace alignment size env).2.mem ⟨env.raw, size + alignment + 32⟩
        (alignedTarget env.raw alignment) := by
  have htotal : addW (addW size alignment) 32 = size + alignment + 32 := by
    rw [addW_eq (show size + alignment < wordSize by omega)]
    exact addW_eq hsize
  rw [alignedPlace_some hraw, htotal] at hsound ⊢
  have htop : env.raw + (size + alignment + 32) ≤ wordSize := hsound.1.within
  obtain ⟨hlo, hhi⟩ := alignedTarget_room (show env.raw + 32 + alignment ≤ wordSize by omega)
    (show env.raw + 32 < wordSize by omega)
  have hheader : subW (alignedTarget env.raw alignment) 32 =
      alignedTarget env.raw alignment - 32 := subW_eq (by omega) (by omega)
  rw [hheader]
  refine ⟨rfl, hlo, rfl, fun x hx => AllocHeader.write_outside (by omega), ?_⟩
  exact headed_write hlo (by omega) (by omega) (by omega) (by omega)

theorem alignedPlace_inv {alignment : ℕ} (h : AllocInv bare a live)
    (hroomy : env.raw = 0 ∨ 0 < size + alignment)
    (hfit : env.raw = 0 ∨ size + alignment + 32 < wordSize)
    (hsound : Heap.Sound 16 wordSize (a.alignedPlace alignment size env).2.log) :
    AllocInv bare (a.alignedPlace alignment size env).2
      (received (a.alignedPlace alignment size env).1 live) := by
  by_cases hraw : env.raw = 0
  · rw [alignedPlace_null hraw]
    exact h
  · obtain ⟨hp, hlo, hlog, hmem, hheaded⟩ :=
      alignedPlace_headed hraw (hroomy.resolve_left hraw) (hfit.resolve_left hraw) hsound
    rw [hp, received_some (by omega)]
    exact h.grant hlog hsound hmem (.inl hheaded)

/-! ## free and realloc -/

/-- The bytes before a block of libc that the client got without a header do not look like one. -/
def BareApart (a : Allocator) (p : ℕ) : Prop :=
  (∃ b ∈ a.blocks, b.addr = p) → getHeader a.mem p = none

theorem bareApart_of_ne (h : ∀ b ∈ a.blocks, b.addr ≠ p) : a.BareApart p := fun ⟨b, hb, ha⟩ =>
  absurd ha (h b hb)

/-- A header is found only before a pointer that was given one. -/
theorem headed_of_getHeader {b : Heap.Block} {header : ℕ} (ho : Owner bare a.mem b p)
    (hb : b ∈ a.blocks) (hap : a.BareApart p) (hh : getHeader a.mem p = some header) :
    Headed a.mem b p ∧ header = p - 32 := by
  rcases ho with ho | ⟨_, rfl⟩
  · rw [ho.getHeader] at hh
    exact ⟨ho, (Option.some.inj hh).symm⟩
  · rw [hap ⟨b, hb, rfl⟩] at hh
    cases hh

theorem erase_null (h : AllocInv bare a live) : live.erase 0 = live :=
  List.erase_of_not_mem fun hmem => h.nonzero hmem rfl

theorem allocatorFree_inv (h : AllocInv bare a live) (hp : p = 0 ∨ p ∈ live)
    (hap : a.BareApart p)
    (hmode : p ≠ 0 → a.initialized = false ∨ a.initializing = true → getHeader a.mem p = none) :
    AllocInv bare (a.allocatorFree p) (live.erase p) := by
  rcases hp with rfl | hp
  · rw [erase_null h]
    exact h
  have hp0 : p ≠ 0 := h.nonzero hp
  obtain ⟨b, hb, ho⟩ := h.owned p hp
  cases hh : getHeader a.mem p with
  | none =>
    obtain ⟨_, rfl⟩ := ho.of_noHeader hh
    rw [allocatorFree_noHeader hp0 hh]
    exact h.release hp hb ho rfl rfl
  | some header =>
    obtain ⟨hheaded, rfl⟩ := headed_of_getHeader ho hb hap hh
    have hup : a.initialized = true ∧ a.initializing = false := by
      by_contra hdown
      have hnone := hmode hp0 (by revert hdown; cases a.initialized <;> cases a.initializing <;> simp)
      rw [hnone] at hh
      cases hh
    rw [allocatorFree_header hup.1 hup.2 hh, hheaded.raw]
    refine h.release hp hb ho ?_ ?_
    · rw [libcFree_log, countFreed_log]
    · rw [libcFree_mem, countFreed_mem]

theorem libcRealloc_inv (h : AllocInv bare a live) (hp : p = 0 ∨ p ∈ live)
    (hnone : p ≠ 0 → getHeader a.mem p = none) (hbare : p = 0 → bare)
    (hsound : Heap.Sound 16 wordSize (a.libcRealloc p size env).2.log) :
    AllocInv bare (a.libcRealloc p size env).2
      (exchanged p size (a.libcRealloc p size env).1 live) := by
  unfold libcRealloc at hsound ⊢
  by_cases hp0 : p = 0
  · rw [if_pos hp0] at hsound ⊢
    have hinv := libcMalloc_inv h (hbare hp0) hsound
    unfold exchanged
    rw [hp0, erase_null h, ite_self]
    exact hinv
  have hp := hp.resolve_left hp0
  obtain ⟨b, hb, ho⟩ := h.owned p hp
  obtain ⟨hb', rfl⟩ := ho.of_noHeader (hnone hp0)
  rw [if_neg hp0] at hsound ⊢
  by_cases hsize : size = 0
  · rw [if_pos hsize]
    show AllocInv bare (a.libcFree b.addr) (exchanged b.addr size 0 live)
    unfold exchanged
    rw [if_neg fun hc => hc.2 hsize, received_null]
    exact h.release hp hb ho rfl rfl
  rw [if_neg hsize] at hsound ⊢
  by_cases hraw : env.raw = 0
  · rw [if_pos hraw]
    show AllocInv bare a (exchanged b.addr size 0 live)
    rw [exchanged_fail hsize]
    exact h
  · -- the old block goes back first, so that the new one may lie where it was
    rw [if_neg hraw] at hsound ⊢
    rw [exchanged_some hraw]
    have hback : AllocInv bare (a.libcFree b.addr) (live.erase b.addr) :=
      h.release hp hb ho rfl rfl
    refine hback.grant rfl hsound (fun x hx => copy_outside ?_) (.inr ⟨hb', rfl⟩)
    have hmin : min size (a.sizeOfBlock b.addr) ≤ size := Nat.min_le_left _ _
    dsimp only at hx
    omega

/-- A header is rewritten in place for a smaller size. -/
theorem shrink_inv {b : Heap.Block} (h : AllocInv bare a live) (hp : p ∈ live) (hb : b ∈ a.blocks)
    (hh : Headed a.mem b p) (hsize : size ≤ AllocHeader.requestedSize a.mem (p - 32)) :
    AllocInv bare (a.setMem (AllocHeader.setRequestedSize a.mem (p - 32) size)) live := by
  have hlt : size < wordSize := lt_of_le_of_lt hsize (AllocHeader.requestedSize_lt _ _)
  refine h.rewrite rfl fun q hq c hc hcq => ?_
  show Headed (AllocHeader.setRequestedSize a.mem (p - 32) size) c q
  by_cases hqp : q = p
  · subst hqp
    refine ⟨hcq.room, ?_, ?_, ?_, hcq.inside⟩
    · rw [AllocHeader.magic_set, hcq.magic]
    · rw [AllocHeader.rawPtr_set, hcq.raw]
    · rw [AllocHeader.requestedSize_set hlt]
      have hfits := hcq.fits
      omega
  · -- the other pointer's block is apart from the one that holds `p`'s header
    have hne : b ≠ c := by
      rintro rfl
      have ho : Owner bare a.mem b p := .inl hh
      have ho' : Owner bare a.mem b q := .inl hcq
      exact hqp (h.eq_of_holds hq hp hb ho'.holds ho.holds)
    have hsep := (h.sound.apart_of_ne hb hc hne).2
    refine hcq.congr (hcq.sameOn fun x hx hx' => AllocHeader.setRequestedSize_outside ?_)
    have hroom := hh.room
    have hinside := hh.inside
    omega

/-- Where the bytes of a block that grows end up, and what stays. -/
theorem movedMem_headed (m : Mem) (ptr : ℕ) {raw oldSize : ℕ} (hsize : size ≤ MAX_REQUEST)
    (hold : oldSize ≤ size) (htop : raw + totalSize size ≤ wordSize) :
    Headed (movedMem m raw ptr oldSize size) ⟨raw, totalSize size⟩ (raw + 32) ∧
      AllocHeader.requestedSize (movedMem m raw ptr oldSize size) raw = size ∧
      (∀ x, x < raw ∨ raw + totalSize size ≤ x → movedMem m raw ptr oldSize size x = m x) ∧
      (∀ i, i < oldSize → movedMem m raw ptr oldSize size (raw + 32 + i) = m (ptr + i)) := by
  obtain ⟨htotal, hlo, hhi, hlt⟩ := totalSize_eq hsize
  have hadd : addW raw ALLOC_HEADER_SIZE = raw + 32 :=
    addW_eq (show raw + 32 < wordSize by omega)
  have hmem : movedMem m raw ptr oldSize size =
      AllocHeader.write (copy m (raw + 32) ptr oldSize) (raw + 32 - 32) raw (totalSize size) size 0 := by
    unfold movedMem
    rw [hadd, Nat.add_sub_cancel]
  refine ⟨?_, ?_, ?_, ?_⟩
  · rw [hmem]
    exact headed_write le_rfl (by omega) (by omega) (by omega) (by omega)
  · unfold movedMem
    exact AllocHeader.requestedSize_write (by omega)
  · intro x hx
    rw [hmem, AllocHeader.write_outside (by omega), copy_outside (by omega)]
  · intro i hi
    rw [hmem, AllocHeader.write_outside (by omega), copy_inside hi]

end Allocator
end Nomalloc
