import Nomalloc.Core.ReallocChain
import Nomalloc.Core.AlignedAlloc
import Nomalloc.Lib.Objects

/-!
# What the allocator is for

Seen from its client the allocator is a heap of objects: at every address that the client holds there
are as many bytes as `allocator_malloc_usable_size` says.  The headers, the blocks of libc and the
counters are out of sight.

* `AllocSys.objects`    the objects of a state, `AllocOp.call` what a call asks of a heap of objects;
* `allocator_heap`      every run is one of a heap of objects, which share no byte;
* `allocator_keeps`     so an object stays as it is until it is given back, resized or written.
-/

namespace Nomalloc

open Bytes

namespace AllocSys

def objects (s : AllocSys) : Objects UInt8 := fun p =>
  if p ∈ s.live then some (bytesAt s.a.mem p (allocatorMallocUsableSize s.a.mem p)) else none

/-- What the client gets. -/
def returned (s : AllocSys) : AllocOp → ℕ
  | .malloc size env => (s.a.allocatorMalloc size env).1
  | .calloc nmemb size env => (s.a.allocatorCalloc nmemb size env).1
  | .realloc ptr size env => (s.a.allocatorRealloc ptr size env).1
  | .alignedAlloc alignment size env => (s.a.allocatorAlignedAlloc alignment size env).1
  | _ => 0

end AllocSys

namespace AllocOp

/-- What is asked for. -/
def call : AllocOp → Objects.Call UInt8
  | .phase _ => .write fun _ bs => bs
  | .malloc size _ => .grant fun p bs => 16 ∣ p ∧ bs.length = atLeastOne size
  | .calloc nmemb size _ =>
    .grant fun p bs => 16 ∣ p ∧ bs = List.replicate (Allocator.totalElements nmemb size) 0
  | .realloc ptr size _ =>
    if ptr = 0 then .grant fun p bs => 16 ∣ p ∧ bs.length = atLeastOne size
    else if size = 0 then .drop ptr
    else .resize ptr size
  | .alignedAlloc alignment size _ => .grant fun p bs => alignment ∣ p ∧ bs.length = atLeastOne size
  | .free ptr => .drop ptr
  | .stores m => .write fun p bs => bytesAt m p bs.length

end AllocOp

namespace AllocSys

/-- A run as its client sees it. -/
def trace : AllocSys → List AllocOp → List (Objects.Call UInt8 × ℕ)
  | _, [] => []
  | s, op :: ops => (op.call, s.returned op) :: (s.step op).trace ops

section
variable {s t : AllocSys} {a' : Allocator} {p q size : ℕ} {b : Heap.Block} {env : LibcEnv}

theorem objects_some (hp : p ∈ s.live) :
    s.objects p = some (bytesAt s.a.mem p (allocatorMallocUsableSize s.a.mem p)) := if_pos hp

theorem objects_none (hp : p ∉ s.live) : s.objects p = none := if_neg hp

/-- An object whose bytes and size stay. -/
theorem objects_unchanged (hp : p ∈ s.live) (hp' : p ∈ t.live) (h : Unchanged s.a.mem t.a.mem p) :
    t.objects p = s.objects p := by
  rw [objects_some hp, objects_some hp', h.1]
  refine congrArg some (bytesAt_congr fun x hx hx' => ?_)
  have hbyte := h.2 (x - p) (by omega)
  rwa [Nat.add_sub_cancel' hx] at hbyte

theorem unchanged_of_objects
    (h : t.objects p = some (bytesAt s.a.mem p (allocatorMallocUsableSize s.a.mem p))) :
    p ∈ t.live ∧ Unchanged s.a.mem t.a.mem p := by
  have hp' : p ∈ t.live := by
    by_contra hnot
    rw [objects_none hnot] at h
    cases h
  rw [objects_some hp'] at h
  have hbytes := Option.some.inj h
  have hsize : allocatorMallocUsableSize t.a.mem p = allocatorMallocUsableSize s.a.mem p := by
    have hlength := congrArg List.length hbytes
    rwa [length_bytesAt, length_bytesAt] at hlength
  rw [hsize] at hbytes
  exact ⟨hp', hsize, fun i hi => byte_of_bytesAt hbytes hi⟩

/-- Where nothing changes in memory and nobody comes or goes. -/
theorem objects_congr (hlive : ∀ p, p ∈ t.live ↔ p ∈ s.live) (hmem : t.a.mem = s.a.mem) :
    t.objects = s.objects := by
  funext p
  unfold objects
  rw [hmem]
  exact if_congr (hlive p) rfl rfl

/-- **A block of libc becomes an object.** -/
theorem objects_grant (h : s.HeldUp) (hlive : t.live = received p s.live)
    (hlog : t.a.log = .got b :: s.a.log) (hsound : Heap.Sound 16 wordSize t.a.log)
    (hmem : ∀ x, x < b.addr ∨ b.addr + b.size ≤ x → t.a.mem x = s.a.mem x)
    (hh : Headed t.a.mem b p) :
    p ≠ 0 ∧ s.objects p = none ∧
      t.objects = s.objects.put p (bytesAt t.a.mem p (allocatorMallocUsableSize t.a.mem p)) := by
  have hp0 : p ≠ 0 := by
    have hroom := hh.room
    omega
  have hgrant : AllocInv False t.a (p :: s.live) := AllocInv.grant h.2 hlog hsound hmem (.inl hh)
  have hfresh : p ∉ s.live := (List.nodup_cons.mp hgrant.nodup).1
  rw [hlog] at hsound
  rw [received_some hp0] at hlive
  refine ⟨hp0, objects_none hfresh, ?_⟩
  funext q
  by_cases hq : q = p
  · subst hq
    rw [Objects.put_self]
    exact objects_some (hlive ▸ List.mem_cons_self)
  rw [Objects.put_of_ne hq]
  by_cases hin : q ∈ s.live
  · refine objects_unchanged hin (hlive ▸ List.mem_cons_of_mem _ hin) ?_
    exact AllocInv.unchanged_grant h.2 hsound.1.apart hmem hin
  · rw [objects_none hin]
    refine objects_none fun hin' => ?_
    rw [hlive] at hin'
    exact (List.mem_cons.mp hin').elim hq hin

theorem call_of_mem_trace {ops : List AllocOp} {c : Objects.Call UInt8 × ℕ} (hc : c ∈ s.trace ops) :
    ∃ op ∈ ops, c.1 = op.call := by
  induction ops generalizing s with
  | nil => cases hc
  | cons op ops ih =>
    rcases List.mem_cons.mp hc with rfl | hc
    · exact ⟨op, List.mem_cons_self, rfl⟩
    · obtain ⟨op', hop', hcall⟩ := ih hc
      exact ⟨op', List.mem_cons_of_mem _ hop', hcall⟩

/-! ## the calls -/

theorem heap_refused {ok : ℕ → List UInt8 → Prop} (hlive : t.live = s.live) (hmem : t.a.mem = s.a.mem) :
    Objects.Step s.objects (.grant ok) 0 t.objects := by
  rw [objects_congr (fun p => by rw [hlive]) hmem]
  exact .refused

theorem heap_malloc (h : s.HeldUp) (hfit : env.raw = 0 ∨ size ≤ MAX_REQUEST)
    (hsound : Heap.Sound 16 wordSize (s.a.mallocReady size env).2.log) :
    Objects.Step s.objects (.grant fun p bs => 16 ∣ p ∧ bs.length = atLeastOne size)
      (s.a.mallocReady size env).1 (take s.live (s.a.mallocReady size env)).objects := by
  by_cases hraw : env.raw = 0
  · rw [Allocator.mallocReady_null hraw]
    exact heap_refused rfl rfl
  · obtain ⟨hp, hlog, hmem, hh, hreq⟩ :=
      Allocator.mallocReady_headed hraw (hfit.resolve_left hraw) hsound
    rw [← hp] at hh
    obtain ⟨hp0, hfree, hobjects⟩ :=
      objects_grant (t := take s.live (s.a.mallocReady size env)) h rfl hlog hsound hmem hh
    have haligned := (hlog ▸ hsound).1.aligned
    rw [hobjects]
    refine .granted hp0 hfree ⟨hp ▸ Nat.dvd_add haligned (by decide), ?_⟩
    show (bytesAt _ _ (allocatorMallocUsableSize (s.a.mallocReady size env).2.mem _)).length = _
    rw [length_bytesAt, hh.usable, hp, Nat.add_sub_cancel, hreq]

/-- The `memset` of `allocator_calloc` stays behind the header and in the block. -/
theorem heap_cleared {n : ℕ} (h : s.HeldUp) (hn : 0 < n) (hfit : env.raw = 0 ∨ n ≤ MAX_REQUEST)
    (hsound : Heap.Sound 16 wordSize (s.a.mallocReady n env).2.log) :
    Objects.Step s.objects (.grant fun p bs => 16 ∣ p ∧ bs = List.replicate n 0)
      (Allocator.cleared n (s.a.mallocReady n env)).1
      (take s.live (Allocator.cleared n (s.a.mallocReady n env))).objects := by
  have hone : atLeastOne n = n := by
    rw [atLeastOne_eq]
    omega
  by_cases hraw : env.raw = 0
  · rw [Allocator.mallocReady_null hraw]
    exact heap_refused rfl rfl
  · obtain ⟨hp, hlog, hmem, hh, hreq⟩ :=
      Allocator.mallocReady_headed hraw (hfit.resolve_left hraw) hsound
    have hfits := hh.fits
    rw [Nat.add_sub_cancel, hreq] at hfits
    have hne : (s.a.mallocReady n env).1 ≠ 0 := by omega
    have hheader : SameOn (s.a.mallocReady n env).2.mem
        (fill (s.a.mallocReady n env).2.mem (env.raw + 32) n 0) (env.raw + 32 - 32) 32 :=
      fun x hx hx' => fill_outside (by omega)
    have husable := hh.usable_congr hheader
    rw [hh.usable, Nat.add_sub_cancel, hreq, hone] at husable
    unfold Allocator.cleared
    rw [if_pos hne, hp]
    obtain ⟨hp0, hfree, hobjects⟩ :=
      objects_grant (t := take s.live (env.raw + 32, (s.a.mallocReady n env).2.setMem
        (fill (s.a.mallocReady n env).2.mem (env.raw + 32) n 0))) h rfl hlog hsound
        (fun x hx => (fill_outside (by dsimp only at hx hfits; omega)).trans (hmem x hx))
        (hh.congr hheader)
    have haligned := (hlog ▸ hsound).1.aligned
    rw [hobjects]
    refine .granted hp0 hfree ⟨Nat.dvd_add haligned (by decide), ?_⟩
    show bytesAt (fill _ _ _ 0) _ (allocatorMallocUsableSize (fill _ _ _ 0) _) = _
    rw [husable]
    exact bytesAt_fill

theorem heap_aligned {alignment : ℕ} (h : s.HeldUp) (ha : 0 < alignment)
    (hfit : env.raw = 0 ∨ size + alignment + 32 < wordSize)
    (hsound : Heap.Sound 16 wordSize (s.a.alignedPlace alignment size env).2.log) :
    Objects.Step s.objects (.grant fun p bs => alignment ∣ p ∧ bs.length = size)
      (s.a.alignedPlace alignment size env).1
      (take s.live (s.a.alignedPlace alignment size env)).objects := by
  by_cases hraw : env.raw = 0
  · rw [Allocator.alignedPlace_null hraw]
    exact heap_refused rfl rfl
  · have hsize := hfit.resolve_left hraw
    obtain ⟨hp, hlo, hlog, hmem, hh⟩ := Allocator.alignedPlace_headed hraw (by omega) hsize hsound
    have hsound' := hsound
    rw [hlog] at hsound'
    have htop : env.raw + (size + alignment + 32) ≤ wordSize := hsound'.1.within
    obtain ⟨hdvd, -, -⟩ := Allocator.alignedTarget_bounds ha (show env.raw + 32 + alignment ≤ wordSize by omega)
    have hreq : AllocHeader.requestedSize (s.a.alignedPlace alignment size env).2.mem
        (Allocator.alignedTarget env.raw alignment - 32) = size := by
      have hinside := hh.inside
      rw [Allocator.alignedPlace_some hraw, subW_eq (by omega) (by dsimp only at hinside; omega)]
      exact AllocHeader.requestedSize_write (by omega)
    rw [← hp] at hh hdvd hreq
    obtain ⟨hp0, hfree, hobjects⟩ :=
      objects_grant (t := take s.live (s.a.alignedPlace alignment size env)) h rfl hlog hsound hmem hh
    rw [hobjects]
    refine .granted hp0 hfree ⟨hdvd, ?_⟩
    show (bytesAt _ _ (allocatorMallocUsableSize (s.a.alignedPlace alignment size env).2.mem _)).length = _
    rw [length_bytesAt, hh.usable, hreq]

/-- A `free`, and a `realloc` to no bytes. -/
theorem heap_free (h : s.HeldUp) (hp : p = 0 ∨ p ∈ s.live) :
    Objects.Step s.objects (.drop p) 0 (AllocSys.objects ⟨s.a.allocatorFree p, s.live.erase p⟩) := by
  have hnodup := AllocInv.nodup h.2
  have hdrop : AllocSys.objects ⟨s.a.allocatorFree p, s.live.erase p⟩ = s.objects.drop p := by
    rcases hp with rfl | hp
    · have hnull : s.objects 0 = none := objects_none fun hin => AllocInv.nonzero h.2 hin rfl
      rw [Objects.drop_of_none hnull]
      exact objects_congr (fun q => by rw [Allocator.erase_null h.2]) rfl
    · obtain ⟨b, hb, hh⟩ := AllocInv.headed h.2 hp
      have hmem : (s.a.allocatorFree p).mem = s.a.mem := by
        rw [Allocator.allocatorFree_header h.1.1 h.1.2 hh.getHeader, Allocator.libcFree_mem,
          Allocator.countFreed_mem]
      funext q
      by_cases hq : q = p
      · subst hq
        rw [Objects.drop_self]
        exact objects_none fun hin => (hnodup.mem_erase_iff.mp hin).1 rfl
      · rw [Objects.drop_of_ne hq]
        unfold AllocSys.objects
        rw [hmem]
        exact if_congr (by rw [hnodup.mem_erase_iff]; exact and_iff_right hq) rfl rfl
  rw [hdrop]
  exact .dropped

/-- **A `realloc`** whose answer is a `ReallocStep`. -/
theorem heap_resize (h0 : s.HeldUp) (hp : p ∈ s.live) (hsize : size ≠ 0) (hnodup : t.live.Nodup)
    (hlive : t.live = exchanged p size q s.live) (h : ReallocStep s t p size q) :
    Objects.Step s.objects (.resize p size) q t.objects := by
  by_cases hq : q = 0
  · subst hq
    obtain ⟨-, hself⟩ := h.failed rfl
    rw [exchanged_fail hsize] at hlive
    have hsame : t.objects = s.objects := by
      funext o
      by_cases ho : o ∈ s.live
      · by_cases hop : o = p
        · subst hop
          exact objects_unchanged ho (hlive ▸ ho) hself
        · exact objects_unchanged ho (hlive ▸ ho) (h.others o ho hop).2
      · rw [objects_none ho, objects_none (hlive ▸ ho)]
    rw [hsame]
    exact .stays
  · obtain ⟨hin, husable, hbytes⟩ := h.served hq
    rw [exchanged_some hq] at hlive
    have hfree : q = p ∨ s.objects q = none := by
      by_cases hqp : q = p
      · exact .inl hqp
      · refine .inr (objects_none fun hqs => ?_)
        rw [hlive] at hnodup
        exact (List.nodup_cons.mp hnodup).1 ((List.mem_erase_of_ne hqp).mpr hqs)
    have hsame : t.objects = (s.objects.drop p).put q (bytesAt t.a.mem q size) := by
      funext o
      by_cases hoq : o = q
      · subst hoq
        rw [Objects.put_self, objects_some hin, husable]
      · rw [Objects.put_of_ne hoq]
        by_cases hop : o = p
        · subst hop
          rw [Objects.drop_self]
          refine objects_none fun hin' => ?_
          rw [hlive] at hin'
          refine (List.mem_cons.mp hin').elim hoq fun he => ?_
          exact ((AllocInv.nodup h0.2).mem_erase_iff.mp he).1 rfl
        · rw [Objects.drop_of_ne hop]
          by_cases ho : o ∈ s.live
          · exact objects_unchanged ho (h.others o ho hop).1 (h.others o ho hop).2
          · rw [objects_none ho]
            refine objects_none fun hin' => ?_
            rw [hlive] at hin'
            exact (List.mem_cons.mp hin').elim hoq fun he => ho (List.mem_of_mem_erase he)
    rw [hsame]
    refine .resized hq (objects_some hp) hfree length_bytesAt ?_
    rw [length_bytesAt]
    exact bytesAt_prefix hbytes

/-- `realloc` also where libc has nothing to give. -/
theorem realloc_fit (h : s.HeldUp) (hp : p ∈ s.live) (hsize : size ≠ 0)
    (hfit : env.raw = 0 ∨ size ≤ MAX_REQUEST)
    (hsound : Heap.Sound 16 wordSize (s.step (.realloc p size env)).a.log) :
    ReallocStep s (s.step (.realloc p size env)) p size (s.realloc p size env) := by
  by_cases hmax : size ≤ MAX_REQUEST
  · exact realloc_step h hp (Nat.pos_of_ne_zero hsize) hmax hsound
  have hraw := hfit.resolve_right hmax
  obtain ⟨b, hb, hh⟩ := AllocInv.headed h.2 hp
  have hcall : s.a.allocatorRealloc p size env = _ := Allocator.allocatorRealloc_headed h.1 hh hsize
  unfold realloc
  show ReallocStep s ⟨(s.a.allocatorRealloc p size env).2,
    exchanged p size (s.a.allocatorRealloc p size env).1 s.live⟩ p size _
  rw [hcall]
  by_cases hle : size ≤ AllocHeader.requestedSize s.a.mem (p - 32)
  · rw [if_pos hle]
    exact realloc_inPlace h hp hb hh hle
  · rw [if_neg hle, Allocator.reallocGrow_null hraw, exchanged_fail hsize]
    exact ⟨fun hc => absurd rfl hc, fun _ => ⟨hp, .refl _ _⟩, fun o ho _ => ⟨ho, .refl _ _⟩⟩

theorem heap_realloc (h : s.HeldUp) (hp : p = 0 ∨ p ∈ s.live)
    (hfit : env.raw = 0 ∨ size ≤ MAX_REQUEST)
    (hsound : Heap.Sound 16 wordSize (s.step (.realloc p size env)).a.log)
    (hnodup : (s.step (.realloc p size env)).live.Nodup) :
    Objects.Step s.objects (AllocOp.realloc p size env).call (s.realloc p size env)
      (s.step (.realloc p size env)).objects := by
  have hready : s.a.allocatorRealloc p size env = _ := Allocator.whenReady_ready h.1.1
  unfold AllocOp.call
  dsimp only at hready ⊢
  by_cases hp0 : p = 0
  · rw [if_pos hp0, Allocator.allocatorMalloc_ready h.1.1] at hready
    rw [if_pos hp0]
    have hstep : s.step (.realloc p size env) = take s.live (s.a.mallocReady size env) := by
      show AllocSys.mk (s.a.allocatorRealloc p size env).2
        (exchanged p size (s.a.allocatorRealloc p size env).1 s.live) = _
      rw [hready, hp0]
      unfold exchanged
      rw [Allocator.erase_null h.2, ite_self]
      rfl
    rw [hstep] at hsound ⊢
    unfold realloc
    rw [hready]
    exact heap_malloc h hfit hsound
  have hp := hp.resolve_left hp0
  rw [if_neg hp0] at hready ⊢
  by_cases hsize : size = 0
  · rw [if_pos hsize] at hready ⊢
    have hstep : s.step (.realloc p size env) = ⟨s.a.allocatorFree p, s.live.erase p⟩ := by
      show AllocSys.mk (s.a.allocatorRealloc p size env).2
        (exchanged p size (s.a.allocatorRealloc p size env).1 s.live) = _
      rw [hready]
      unfold exchanged
      rw [if_neg fun hc => hc.2 hsize, received_null]
    rw [hstep]
    unfold realloc
    rw [hready]
    exact heap_free h (.inr hp)
  · rw [if_neg hsize]
    exact heap_resize h hp hsize hnodup rfl (realloc_fit h hp hsize hfit hsound)

/-- What the client and others write. -/
theorem heap_stores (h : s.HeldUp) {m : Mem} (hm : ∀ x, m x ≠ s.a.mem x → s.Writable x) :
    Objects.Step s.objects (AllocOp.stores m).call 0 (s.step (.stores m)).objects := by
  have hsame : (s.step (.stores m)).objects =
      fun p => (s.objects p).map fun bs => bytesAt m p bs.length := by
    funext p
    by_cases hp : p ∈ s.live
    · obtain ⟨b, hb, hh⟩ := AllocInv.headed h.2 hp
      have husable := hh.usable_congr (AllocInv.sameOn_stores h.2 hm hp hb hh)
      have hp' : p ∈ (s.step (.stores m)).live := hp
      rw [objects_some hp, Option.map_some, length_bytesAt, objects_some hp', ← husable]
      rfl
    · have hp' : p ∉ (s.step (.stores m)).live := hp
      rw [objects_none hp, objects_none hp']
      rfl
  rw [hsame]
  exact .written

/-- **One step of a running allocator** is one of a heap of objects. -/
theorem heap_step (h : s.HeldUp) {op : AllocOp} (hop : s.LegalUp op) (hwrap : s.NoWrap op) :
    Objects.Step s.objects op.call (s.returned op) (s.step op).objects := by
  have hnodup := AllocInv.nodup (heldUp_step h hop hwrap).2
  obtain ⟨hrunning, hargs, hsound⟩ := hop
  have hfalls : ¬ s.FallsBack := h.1.not_fallsBack
  cases op with
  | phase f => exact absurd hrunning id
  | malloc size env =>
    have hcall : s.a.allocatorMalloc size env = s.a.mallocReady size env :=
      Allocator.allocatorMalloc_ready h.1.1
    show Objects.Step s.objects _ (s.a.allocatorMalloc size env).1
      (take s.live (s.a.allocatorMalloc size env)).objects
    have hsound' : Heap.Sound 16 wordSize (s.a.allocatorMalloc size env).2.log := hsound
    rw [hcall] at hsound' ⊢
    exact heap_malloc h (hwrap.imp_right fun hf => hf.resolve_left hfalls) hsound'
  | calloc nmemb size env =>
    have hsound' : Heap.Sound 16 wordSize (s.a.allocatorCalloc nmemb size env).2.log := hsound
    show Objects.Step s.objects _ (s.a.allocatorCalloc nmemb size env).1
      (take s.live (s.a.allocatorCalloc nmemb size env)).objects
    rw [Allocator.allocatorCalloc_ready h.1] at hsound' ⊢
    rw [Allocator.cleared_log] at hsound'
    exact heap_cleared h (Allocator.totalElements_pos nmemb size)
      (hwrap.imp_right fun hf => hf.resolve_left hfalls) hsound'
  | realloc p size env =>
    exact heap_realloc h hargs.1 (hwrap.imp_right fun hf => hf.resolve_left hfalls) hsound hnodup
  | alignedAlloc alignment size env =>
    have hsound' : Heap.Sound 16 wordSize (s.a.allocatorAlignedAlloc alignment size env).2.log := hsound
    show Objects.Step s.objects _ (s.a.allocatorAlignedAlloc alignment size env).1
      (take s.live (s.a.allocatorAlignedAlloc alignment size env)).objects
    rw [Allocator.allocatorAlignedAlloc_ready h.1] at hsound' ⊢
    by_cases hpow : isPowerOfTwo alignment = true
    · rw [if_pos hpow] at hsound' ⊢
      obtain ⟨hpos, hle⟩ := isPowerOfTwo_le hpow hargs.1
      refine heap_aligned h hpos (hwrap.imp_right fun hf => ?_) hsound'
      rw [atLeastOne_eq]
      unfold wordSize at *
      omega
    · rw [if_neg hpow]
      exact heap_refused rfl rfl
  | free p => exact heap_free h hargs.1
  | stores m => exact heap_stores h hargs

/-- No byte belongs to two objects: they lie in blocks of their own. -/
theorem HeldUp.disjoint (h : s.HeldUp) : s.objects.Disjoint := by
  intro p q bs cs hp hq hpq
  have hpin : p ∈ s.live := by
    by_contra hnot
    rw [objects_none hnot] at hp
    cases hp
  have hqin : q ∈ s.live := by
    by_contra hnot
    rw [objects_none hnot] at hq
    cases hq
  obtain ⟨b, hb, hhb⟩ := AllocInv.headed h.2 hpin
  obtain ⟨c, hc, hhc⟩ := AllocInv.headed h.2 hqin
  rw [objects_some hpin] at hp
  rw [objects_some hqin] at hq
  rw [← Option.some.inj hp, ← Option.some.inj hq, length_bytesAt, length_bytesAt, hhb.usable, hhc.usable]
  have hob : Owner False s.a.mem b p := .inl hhb
  have hoc : Owner False s.a.mem c q := .inl hhc
  have hne : b ≠ c := by
    rintro rfl
    exact hpq (AllocInv.eq_of_holds h.2 hpin hqin hb hob.holds hoc.holds)
  have hsep := (h.2.sound.apart_of_ne hb hc hne).2
  have hb1 := hhb.room
  have hb2 := hhb.fits
  have hc1 := hhc.room
  have hc2 := hhc.fits
  omega

theorem heap_run (h : s.HeldUp) (ops : List AllocOp)
    (hlegal : Runs.Each AllocSys.step AllocSys.LegalUp s ops)
    (hwrap : Runs.Each AllocSys.step AllocSys.NoWrap s ops) :
    Objects.Run s.objects (s.trace ops) (Runs.after AllocSys.step s ops).objects ∧
      Runs.Always AllocSys.step AllocSys.HeldUp s ops := by
  induction ops generalizing s with
  | nil => exact ⟨.nil, h⟩
  | cons op ops ih =>
    obtain ⟨hop, hops⟩ := hlegal
    obtain ⟨hw, hws⟩ := hwrap
    obtain ⟨hrun, halways⟩ := ih (heldUp_step h hop hw) hops hws
    exact ⟨.cons (heap_step h hop hw) hrun, h, halways⟩

end

end AllocSys

/-- **The allocator is a heap of objects.**  In every run of an allocator that is up whose calls wrap
no total, each call does to the objects of the client what it was asked for and nothing else, and at
every moment no byte belongs to two objects. -/
theorem allocator_heap {s : AllocSys} (hopen : s.Opened) (ops : List AllocOp)
    (hlegal : Runs.Each AllocSys.step AllocSys.LegalUp s ops)
    (hwrap : Runs.Each AllocSys.step AllocSys.NoWrap s ops) :
    Objects.Run (fun _ => none) (s.trace ops) (Runs.after AllocSys.step s ops).objects ∧
      Runs.Always AllocSys.step (fun t => t.objects.Disjoint) s ops := by
  obtain ⟨hrun, halways⟩ := AllocSys.heap_run hopen.heldUp ops hlegal hwrap
  have hempty : s.objects = fun _ => none := by
    funext p
    exact AllocSys.objects_none (by rw [hopen.live]; exact List.not_mem_nil)
  rw [hempty] at hrun
  exact ⟨hrun, halways.mono fun t ht => ht.disjoint⟩

/-- A block that shrinks in place, moves, gets a neighbour and is given back. -/
theorem allocator_heap_small :
    Objects.Run (fun _ => none)
      (AllocSys.opened.trace (shrinkThenGrow ++ [.calloc 3 4 (libcAt 0x1000), .free 0x2020]))
      (Runs.after AllocSys.step AllocSys.opened
        (shrinkThenGrow ++ [.calloc 3 4 (libcAt 0x1000), .free 0x2020])).objects ∧
      Runs.Always AllocSys.step (fun t => t.objects.Disjoint) AllocSys.opened
        (shrinkThenGrow ++ [.calloc 3 4 (libcAt 0x1000), .free 0x2020]) := by
  obtain ⟨hmalloc, hshrink, hgrow, -⟩ := shrinkThenGrow_legal
  refine allocator_heap AllocSys.opened_opened _ ⟨hmalloc, hshrink, hgrow, ?_, ?_, trivial⟩
    ⟨.inr (.inr (by decide)), .inl rfl, .inr (.inr (by decide)), .inr (.inr (by decide)), trivial,
      trivial⟩
  · exact ⟨trivial, ⟨by decide, by decide⟩, by decide +kernel⟩
  · exact ⟨trivial, ⟨.inr (by decide +kernel), Allocator.bareApart_of_ne (by decide +kernel)⟩,
      by decide +kernel⟩

/-- **An object stays as it is** until it is given back, resized or written, whatever else is asked of
the allocator in between. -/
theorem allocator_keeps {s : AllocSys} (hopen : s.Opened) (before ops : List AllocOp)
    (hlegal : Runs.Each AllocSys.step AllocSys.LegalUp s before)
    (hwrap : Runs.Each AllocSys.step AllocSys.NoWrap s before)
    (hlegal' : Runs.Each AllocSys.step AllocSys.LegalUp (Runs.after AllocSys.step s before) ops)
    (hwrap' : Runs.Each AllocSys.step AllocSys.NoWrap (Runs.after AllocSys.step s before) ops)
    {p : ℕ} (hp : p ∈ (Runs.after AllocSys.step s before).live)
    (hspare : ∀ op ∈ ops, op.call.Spares p (bytesAt (Runs.after AllocSys.step s before).a.mem p
      (allocatorMallocUsableSize (Runs.after AllocSys.step s before).a.mem p))) :
    p ∈ (Runs.after AllocSys.step s (before ++ ops)).live ∧
      Unchanged (Runs.after AllocSys.step s before).a.mem
        (Runs.after AllocSys.step s (before ++ ops)).a.mem p := by
  have hheld := (AllocSys.heap_run hopen.heldUp before hlegal hwrap).2.last
  obtain ⟨hrun, -⟩ := AllocSys.heap_run hheld ops hlegal' hwrap'
  rw [← Runs.after_append] at hrun
  have hkept := hrun.kept (AllocSys.objects_some hp) fun c hc => by
    obtain ⟨op, hop, hcall⟩ := AllocSys.call_of_mem_trace hc
    rw [hcall]
    exact hspare op hop
  exact AllocSys.unchanged_of_objects hkept

/-- A neighbour comes and goes. -/
theorem allocator_keeps_neighbour :
    0x1020 ∈ (Runs.after AllocSys.step AllocSys.opened
        ([.malloc 100 (libcAt 0x1000)] ++ [.malloc 50 (libcAt 0x2000), .free 0x2020])).live ∧
      Unchanged (Runs.after AllocSys.step AllocSys.opened [.malloc 100 (libcAt 0x1000)]).a.mem
        (Runs.after AllocSys.step AllocSys.opened
          ([.malloc 100 (libcAt 0x1000)] ++ [.malloc 50 (libcAt 0x2000), .free 0x2020])).a.mem 0x1020 := by
  refine allocator_keeps AllocSys.opened_opened [.malloc 100 (libcAt 0x1000)]
    [.malloc 50 (libcAt 0x2000), .free 0x2020] ⟨⟨trivial, ?_, ?_⟩, trivial⟩
    ⟨.inr (.inr (by decide)), trivial⟩ ⟨⟨trivial, ?_, ?_⟩, ⟨trivial, ⟨?_, ?_⟩, ?_⟩, trivial⟩
    ⟨.inr (.inr (by decide)), trivial, trivial⟩ (by decide +kernel) ?_
  · show 100 < wordSize
    decide
  · decide +kernel
  · show 50 < wordSize
    decide
  · decide +kernel
  · exact .inr (by decide +kernel)
  · exact Allocator.bareApart_of_ne (by decide +kernel)
  · decide +kernel
  · intro op hop
    rcases List.mem_cons.mp hop with rfl | hop
    · trivial
    · rw [List.mem_singleton.mp hop]
      show (0x2020 : ℕ) ≠ 0x1020
      decide

end Nomalloc
