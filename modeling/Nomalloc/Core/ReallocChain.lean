import Nomalloc.Core.AllocatorCounters

/-!
# Chains of `realloc`

A pointer is passed through `allocator_realloc` again and again, each time with the pointer the
last call left (`reallocChain`).  A call that succeeds keeps the bytes up to the smaller of the two
sizes, a call that fails keeps everything, and nobody else's bytes change (`ReallocStep`);
`realloc_chain` follows this along a chain, from any state a run can reach.
-/

namespace Nomalloc

open Bytes

/-! ## bytes that stay -/

/-- The pointer keeps its usable size and its bytes. -/
def Unchanged (m m' : Mem) (p : ℕ) : Prop :=
  allocatorMallocUsableSize m' p = allocatorMallocUsableSize m p ∧
    ∀ i, i < allocatorMallocUsableSize m p → m' (p + i) = m (p + i)

theorem Unchanged.refl (m : Mem) (p : ℕ) : Unchanged m m p := ⟨rfl, fun _ _ => rfl⟩

theorem Unchanged.trans {m m' m'' : Mem} {p : ℕ} (h : Unchanged m m' p) (h' : Unchanged m' m'' p) :
    Unchanged m m'' p :=
  ⟨h'.1.trans h.1, fun i hi => (h'.2 i (by rw [h.1]; exact hi)).trans (h.2 i hi)⟩

/-- What is not written in its block stays with the pointer. -/
theorem Headed.unchanged {m m' : Mem} {b : Heap.Block} {p : ℕ} (h : Headed m b p)
    (hs : SameOn m m' b.addr b.size) : Unchanged m m' p := by
  have hroom := h.room
  have hfits := h.fits
  refine ⟨h.usable_congr (h.sameOn hs), fun i hi => ?_⟩
  rw [h.usable] at hi
  exact hs (p + i) (by omega) (by omega)

namespace AllocInv
variable {a : Allocator} {live : List ℕ} {b : Heap.Block} {m : Mem} {p q : ℕ}

theorem unchanged_other (h : AllocInv False a live) (hp : p ∈ live) (hb : b ∈ a.blocks)
    (hh : Headed a.mem b p) (hm : ∀ x, x < b.addr ∨ b.addr + b.size ≤ x → m x = a.mem x)
    (hq : q ∈ live) (hqp : q ≠ p) : Unchanged a.mem m q := by
  obtain ⟨c, hc, hhc⟩ := h.headed hq
  have hop : Owner False a.mem b p := .inl hh
  have hoq : Owner False a.mem c q := .inl hhc
  have hne : b ≠ c := by
    rintro rfl
    exact hqp (h.eq_of_holds hq hp hb hoq.holds hop.holds)
  refine hhc.unchanged fun x hx hx' => hm x ?_
  have hsep := (h.sound.apart_of_ne hb hc hne).2
  omega

/-- Nor does a write into a fresh block. -/
theorem unchanged_grant (h : AllocInv False a live) (hfresh : ∀ c ∈ a.blocks, b.Apart c)
    (hm : ∀ x, x < b.addr ∨ b.addr + b.size ≤ x → m x = a.mem x) (hq : q ∈ live) :
    Unchanged a.mem m q := by
  obtain ⟨c, hc, hhc⟩ := h.headed hq
  exact hhc.unchanged (sameOn_grant hfresh hm hc)

end AllocInv

/-! ## one call -/

/-- `allocator_realloc(p, size)` took `s` to `t` and returned `q`. -/
structure ReallocStep (s t : AllocSys) (p size q : ℕ) : Prop where
  /-- a call that succeeds -/
  served : q ≠ 0 → q ∈ t.live ∧ allocatorMallocUsableSize t.a.mem q = size ∧
    ∀ i, i < allocatorMallocUsableSize s.a.mem p → i < size → t.a.mem (q + i) = s.a.mem (p + i)
  /-- a call that fails -/
  failed : q = 0 → p ∈ t.live ∧ Unchanged s.a.mem t.a.mem p
  /-- everyone else -/
  others : ∀ o ∈ s.live, o ≠ p → o ∈ t.live ∧ Unchanged s.a.mem t.a.mem o

/-- The pointer that a call left: what it returned, or the old one where it failed. -/
def leftWith (q p : ℕ) : ℕ := if q = 0 then p else q

namespace AllocSys
variable {s : AllocSys} {p size : ℕ} {env : LibcEnv}

/-- What `allocator_realloc` returns. -/
def realloc (s : AllocSys) (p size : ℕ) (env : LibcEnv) : ℕ :=
  (s.a.allocatorRealloc p size env).1

theorem realloc_inPlace {b : Heap.Block} (h : s.HeldUp) (hp : p ∈ s.live) (hb : b ∈ s.a.blocks)
    (hh : Headed s.a.mem b p) (hle : size ≤ AllocHeader.requestedSize s.a.mem (p - 32)) :
    ReallocStep s ⟨s.a.setMem (AllocHeader.setRequestedSize s.a.mem (p - 32) size),
      exchanged p size p s.live⟩ p size p := by
  have hp0 : p ≠ 0 := AllocInv.nonzero h.2 hp
  have hroom := hh.room
  have hlt : size < wordSize := lt_of_le_of_lt hle (AllocHeader.requestedSize_lt _ _)
  have hlive : ∀ o, o ∈ exchanged p size p s.live ↔ o ∈ s.live := fun o => by
    rw [exchanged_some hp0]
    exact (List.perm_cons_erase hp).symm.mem_iff
  have houtside : ∀ x, x < b.addr ∨ b.addr + b.size ≤ x →
      AllocHeader.setRequestedSize s.a.mem (p - 32) size x = s.a.mem x := fun x hx => by
    have hinside := hh.inside
    exact AllocHeader.setRequestedSize_outside (by omega)
  refine ⟨fun _ => ⟨(hlive p).2 hp, ?_, fun i _ _ => ?_⟩, fun hc => absurd hc hp0, ?_⟩
  · show allocatorMallocUsableSize (AllocHeader.setRequestedSize s.a.mem (p - 32) size) p = size
    rw [usableSize_of_header (by omega) (AllocHeader.magic_set.trans hh.magic),
      AllocHeader.requestedSize_set hlt]
  · exact AllocHeader.setRequestedSize_outside (by omega)
  · intro o ho hop
    exact ⟨(hlive o).2 ho, AllocInv.unchanged_other h.2 hp hb hh houtside ho hop⟩

/-- The block is too small: its bytes are copied to a fresh one. -/
theorem realloc_moved {b : Heap.Block} (h : s.HeldUp) (hp : p ∈ s.live) (hb : b ∈ s.a.blocks)
    (hh : Headed s.a.mem b p) (hgrow : AllocHeader.requestedSize s.a.mem (p - 32) < size)
    (hraw : env.raw ≠ 0) (hsize : size ≤ MAX_REQUEST)
    (hsound : Heap.Sound 16 wordSize (s.a.reallocGrow p (p - 32) size env).2.log) :
    ReallocStep s ⟨(s.a.reallocGrow p (p - 32) size env).2,
      exchanged p size (s.a.reallocGrow p (p - 32) size env).1 s.live⟩ p size
      (s.a.reallocGrow p (p - 32) size env).1 := by
  obtain ⟨hfst, hmem, hlog, -⟩ :=
    Allocator.reallocGrow_moved h.2 hp hb hh hraw hsize hgrow hsound
  have hgot : Heap.Sound 16 wordSize (.got ⟨env.raw, Allocator.totalSize size⟩ :: s.a.log) := by
    rw [hlog] at hsound
    exact hsound
  obtain ⟨hheaded, hreq, hout, hcopied⟩ :=
    Allocator.movedMem_headed s.a.mem p hsize hgrow.le hgot.1.within
  rw [hfst, exchanged_some (by omega)]
  refine ⟨fun _ => ⟨List.mem_cons_self, ?_, fun i hi _ => ?_⟩, fun hc => by omega, ?_⟩
  · show allocatorMallocUsableSize (s.a.reallocGrow p (p - 32) size env).2.mem (env.raw + 32) = _
    rw [hmem, hheaded.usable, Nat.add_sub_cancel, hreq]
  · rw [hh.usable] at hi
    show (s.a.reallocGrow p (p - 32) size env).2.mem _ = _
    rw [hmem]
    exact hcopied i hi
  · intro o ho hop
    refine ⟨List.mem_cons_of_mem _ ((AllocInv.nodup h.2).mem_erase_iff.2 ⟨hop, ho⟩), ?_⟩
    show Unchanged s.a.mem (s.a.reallocGrow p (p - 32) size env).2.mem o
    rw [hmem]
    exact AllocInv.unchanged_grant h.2 hgot.1.apart hout ho

/-- **One `realloc`** of a pointer the client holds, to a positive size whose total does not
wrap. -/
theorem realloc_step (h : s.HeldUp) (hp : p ∈ s.live) (hpos : 0 < size)
    (hsize : size ≤ MAX_REQUEST)
    (hsound : Heap.Sound 16 wordSize (s.step (.realloc p size env)).a.log) :
    ReallocStep s (s.step (.realloc p size env)) p size (s.realloc p size env) := by
  obtain ⟨b, hb, hh⟩ := AllocInv.headed h.2 hp
  have hcall : s.a.allocatorRealloc p size env =
      if size ≤ AllocHeader.requestedSize s.a.mem (p - 32) then
        (p, s.a.setMem (AllocHeader.setRequestedSize s.a.mem (p - 32) size))
      else s.a.reallocGrow p (p - 32) size env :=
    Allocator.allocatorRealloc_headed h.1 hh hpos.ne'
  unfold realloc
  show ReallocStep s ⟨(s.a.allocatorRealloc p size env).2,
    exchanged p size (s.a.allocatorRealloc p size env).1 s.live⟩ p size _
  have hs : Heap.Sound 16 wordSize (s.a.allocatorRealloc p size env).2.log := hsound
  rw [hcall] at hs ⊢
  by_cases hle : size ≤ AllocHeader.requestedSize s.a.mem (p - 32)
  · rw [if_pos hle]
    exact realloc_inPlace h hp hb hh hle
  · rw [if_neg hle] at hs ⊢
    by_cases hraw : env.raw = 0
    · rw [Allocator.reallocGrow_null hraw, exchanged_fail hpos.ne']
      exact ⟨fun hc => absurd rfl hc, fun _ => ⟨hp, .refl _ _⟩, fun o ho _ => ⟨ho, .refl _ _⟩⟩
    · exact realloc_moved h hp hb hh (by omega) hraw hsize hs

/-! ## chains -/

/-- `realloc` again and again: the state and the pointer at the end. -/
def reallocChain (s : AllocSys) (p : ℕ) : List (ℕ × LibcEnv) → AllocSys × ℕ
  | [] => (s, p)
  | c :: cs =>
    reallocChain (s.step (.realloc p c.1 c.2)) (leftWith (s.realloc p c.1 c.2) p) cs

/-- The sizes of a chain are positive and wrap no total, and libc keeps its promises. -/
def ChainLegal (s : AllocSys) (p : ℕ) : List (ℕ × LibcEnv) → Prop
  | [] => True
  | c :: cs => (0 < c.1 ∧ c.1 ≤ MAX_REQUEST ∧ s.Legal (.realloc p c.1 c.2)) ∧
    ChainLegal (s.step (.realloc p c.1 c.2)) (leftWith (s.realloc p c.1 c.2) p) cs

/-- Every call of the chain returns a pointer. -/
def ChainServed (s : AllocSys) (p : ℕ) : List (ℕ × LibcEnv) → Prop
  | [] => True
  | c :: cs => s.realloc p c.1 c.2 ≠ 0 ∧
    ChainServed (s.step (.realloc p c.1 c.2)) (leftWith (s.realloc p c.1 c.2) p) cs

/-- What a chain of `realloc` does to the memory. -/
structure ChainHolds (s : AllocSys) (p : ℕ) (cs : List (ℕ × LibcEnv)) : Prop where
  /-- every call succeeds: the bytes below the smallest size -/
  bytes : s.ChainServed p cs → ∀ i, i < allocatorMallocUsableSize s.a.mem p → (∀ c ∈ cs, i < c.1) →
    (s.reallocChain p cs).1.a.mem ((s.reallocChain p cs).2 + i) = s.a.mem (p + i)
  /-- and the usable size is the last one asked for -/
  usable : s.ChainServed p cs → ∀ c ∈ cs.getLast?,
    allocatorMallocUsableSize (s.reallocChain p cs).1.a.mem (s.reallocChain p cs).2 = c.1
  /-- a call that fails, anywhere in the chain, changes nothing -/
  failed : ∀ pre c post, cs = pre ++ c :: post →
    (s.reallocChain p pre).1.realloc (s.reallocChain p pre).2 c.1 c.2 = 0 →
    (s.reallocChain p pre).2 ∈
        ((s.reallocChain p pre).1.step (.realloc (s.reallocChain p pre).2 c.1 c.2)).live ∧
      Unchanged (s.reallocChain p pre).1.a.mem
        ((s.reallocChain p pre).1.step (.realloc (s.reallocChain p pre).2 c.1 c.2)).a.mem
        (s.reallocChain p pre).2
  /-- everyone else -/
  others : ∀ o ∈ s.live, o ≠ p → Unchanged s.a.mem (s.reallocChain p cs).1.a.mem o

/-- One call of a chain keeps the invariant and leaves a pointer in the client's hands. -/
theorem chain_step (h : s.HeldUp) (hp : p ∈ s.live) (hpos : 0 < size) (hsize : size ≤ MAX_REQUEST)
    (hlegal : s.Legal (.realloc p size env)) :
    (s.step (.realloc p size env)).HeldUp ∧
      leftWith (s.realloc p size env) p ∈ (s.step (.realloc p size env)).live ∧
      ReallocStep s (s.step (.realloc p size env)) p size (s.realloc p size env) ∧
      ∀ o ∈ s.live, o ≠ p → o ≠ leftWith (s.realloc p size env) p := by
  have hstep := realloc_step h hp hpos hsize hlegal.2
  have hheld : (s.step (.realloc p size env)).HeldUp :=
    heldUp_step h ⟨trivial, hlegal⟩ (.inr (.inr hsize))
  refine ⟨hheld, ?_, hstep, fun o ho hop => ?_⟩
  · unfold leftWith
    split
    · next hq => exact (hstep.failed hq).1
    · next hq => exact (hstep.served hq).1
  · unfold leftWith
    split
    · exact hop
    · next hq =>
      -- the returned pointer was not in the client's hands
      have hlive : (s.step (.realloc p size env)).live = s.realloc p size env :: s.live.erase p :=
        exchanged_some hq _
      have hnodup := AllocInv.nodup hheld.2
      rw [hlive] at hnodup
      rintro rfl
      exact (List.nodup_cons.1 hnodup).1 ((AllocInv.nodup h.2).mem_erase_iff.2 ⟨hop, ho⟩)

theorem chain_cut (pre cs : List (ℕ × LibcEnv)) {s : AllocSys} {p : ℕ} (h : s.HeldUp)
    (hp : p ∈ s.live) (hlegal : s.ChainLegal p (pre ++ cs)) :
    (s.reallocChain p pre).1.HeldUp ∧
      (s.reallocChain p pre).2 ∈ (s.reallocChain p pre).1.live ∧
      (s.reallocChain p pre).1.ChainLegal (s.reallocChain p pre).2 cs := by
  induction pre generalizing s p with
  | nil => exact ⟨h, hp, hlegal⟩
  | cons c pre ih =>
    obtain ⟨⟨hpos, hsize, hcall⟩, hrest⟩ := hlegal
    obtain ⟨hheld, hin, -, -⟩ := chain_step h hp hpos hsize hcall
    exact ih hheld hin hrest

theorem chain_bytes (cs : List (ℕ × LibcEnv)) {s : AllocSys} {p : ℕ} (h : s.HeldUp)
    (hp : p ∈ s.live) (hlegal : s.ChainLegal p cs) (hserved : s.ChainServed p cs) {i : ℕ}
    (hi : i < allocatorMallocUsableSize s.a.mem p) (hall : ∀ c ∈ cs, i < c.1) :
    (s.reallocChain p cs).1.a.mem ((s.reallocChain p cs).2 + i) = s.a.mem (p + i) := by
  induction cs generalizing s p with
  | nil => rfl
  | cons c cs ih =>
    obtain ⟨⟨hpos, hsize, hcall⟩, hrest⟩ := hlegal
    obtain ⟨hheld, hin, hstep, -⟩ := chain_step h hp hpos hsize hcall
    obtain ⟨hlive, husable, hbytes⟩ := hstep.served hserved.1
    have hic : i < c.1 := hall c List.mem_cons_self
    have hleft : leftWith (s.realloc p c.1 c.2) p = s.realloc p c.1 c.2 := if_neg hserved.1
    have hnext := ih hheld hin hrest hserved.2 (by rw [hleft, husable]; exact hic)
      (fun d hd => hall d (List.mem_cons_of_mem _ hd))
    calc _ = (s.step (.realloc p c.1 c.2)).a.mem (leftWith (s.realloc p c.1 c.2) p + i) := hnext
      _ = (s.step (.realloc p c.1 c.2)).a.mem (s.realloc p c.1 c.2 + i) := by rw [hleft]
      _ = s.a.mem (p + i) := hbytes i hi hic

theorem chain_usable (cs : List (ℕ × LibcEnv)) {s : AllocSys} {p : ℕ} (h : s.HeldUp)
    (hp : p ∈ s.live) (hlegal : s.ChainLegal p cs) (hserved : s.ChainServed p cs)
    {c : ℕ × LibcEnv} (hc : c ∈ cs.getLast?) :
    allocatorMallocUsableSize (s.reallocChain p cs).1.a.mem (s.reallocChain p cs).2 = c.1 := by
  induction cs generalizing s p with
  | nil => cases hc
  | cons d cs ih =>
    obtain ⟨⟨hpos, hsize, hcall⟩, hrest⟩ := hlegal
    obtain ⟨hheld, hin, hstep, -⟩ := chain_step h hp hpos hsize hcall
    cases cs with
    | nil =>
      cases hc
      have hleft : leftWith (s.realloc p d.1 d.2) p = s.realloc p d.1 d.2 := if_neg hserved.1
      show allocatorMallocUsableSize _ (leftWith (s.realloc p d.1 d.2) p) = d.1
      rw [hleft]
      exact (hstep.served hserved.1).2.1
    | cons e cs =>
      rw [List.getLast?_cons_cons] at hc
      exact ih hheld hin hrest hserved.2 hc

theorem chain_others (cs : List (ℕ × LibcEnv)) {s : AllocSys} {p o : ℕ} (h : s.HeldUp)
    (hp : p ∈ s.live) (hlegal : s.ChainLegal p cs) (ho : o ∈ s.live) (hop : o ≠ p) :
    Unchanged s.a.mem (s.reallocChain p cs).1.a.mem o := by
  induction cs generalizing s p with
  | nil => exact .refl _ _
  | cons c cs ih =>
    obtain ⟨⟨hpos, hsize, hcall⟩, hrest⟩ := hlegal
    obtain ⟨hheld, hin, hstep, hleft⟩ := chain_step h hp hpos hsize hcall
    obtain ⟨holive, hsame⟩ := hstep.others o ho hop
    exact hsame.trans (ih hheld hin hrest holive (hleft o ho hop))

theorem chain_holds {cs : List (ℕ × LibcEnv)} (h : s.HeldUp) (hp : p ∈ s.live)
    (hlegal : s.ChainLegal p cs) : s.ChainHolds p cs := by
  refine ⟨fun hserved i hi hall => chain_bytes cs h hp hlegal hserved hi hall,
    fun hserved c hc => chain_usable cs h hp hlegal hserved hc, ?_,
    fun o ho hop => chain_others cs h hp hlegal ho hop⟩
  intro pre c post hcs hnull
  rw [hcs] at hlegal
  obtain ⟨hheld, hin, ⟨hpos, hsize, hcall⟩, -⟩ := chain_cut pre (c :: post) h hp hlegal
  exact (realloc_step hheld hin hpos hsize hcall.2).failed hnull

end AllocSys

/-- **Chains of `realloc` keep the bytes**, from every state that an allocator that is up can
reach without wrapping a total. -/
theorem realloc_chain {s : AllocSys} (hopen : s.Opened) (ops : List AllocOp)
    (hlegal : Runs.Each AllocSys.step AllocSys.LegalUp s ops)
    (hwrap : Runs.Each AllocSys.step AllocSys.NoWrap s ops) {p : ℕ}
    (hp : p ∈ (Runs.after AllocSys.step s ops).live) (cs : List (ℕ × LibcEnv))
    (hcs : (Runs.after AllocSys.step s ops).ChainLegal p cs) :
    (Runs.after AllocSys.step s ops).ChainHolds p cs := by
  have hheld : (Runs.after AllocSys.step s ops).HeldUp :=
    Runs.inv_after (fun s op h hop => AllocSys.heldUp_step h hop.1 hop.2) hopen.heldUp
      (hlegal.and hwrap)
  exact AllocSys.chain_holds hheld hp hcs

/-- An aligned block that shrinks, fails to grow, and grows. -/
theorem realloc_chain_aligned :
    (Runs.after AllocSys.step AllocSys.opened [.alignedAlloc 64 100 (libcAt 0x1000)]).ChainHolds
      0x1040 [(40, libcAt 0), (80, libcAt 0), (200, libcAt 0x2000)] := by
  refine realloc_chain AllocSys.opened_opened [.alignedAlloc 64 100 (libcAt 0x1000)]
    ⟨⟨trivial, ⟨by decide, by decide⟩, by decide +kernel⟩, trivial⟩
    ⟨.inr (by decide), trivial⟩ (by decide +kernel) _ ⟨⟨by decide, by decide, ?_⟩,
      ⟨by decide, by decide, ?_⟩, ⟨by decide, by decide, ?_⟩, trivial⟩
  · exact ⟨⟨.inr (by decide +kernel), by decide, Allocator.bareApart_of_ne (by decide +kernel)⟩, by decide +kernel⟩
  · exact ⟨⟨.inr (by decide +kernel), by decide, Allocator.bareApart_of_ne (by decide +kernel)⟩, by decide +kernel⟩
  · exact ⟨⟨.inr (by decide +kernel), by decide, Allocator.bareApart_of_ne (by decide +kernel)⟩, by decide +kernel⟩

/-- The block of `malloc(2^64 - 63)` has no byte: the next block's header lies among the bytes its
client was promised, and a `realloc` of that next block rewrites them. -/
theorem wrapped_malloc_overwritten : ¬ ∀ (s : AllocSys) (ops : List AllocOp), s.Opened →
    Runs.Each AllocSys.step AllocSys.LegalUp s ops →
    ∀ p ∈ (Runs.after AllocSys.step s ops).live, ∀ cs,
      (Runs.after AllocSys.step s ops).ChainLegal p cs →
      (Runs.after AllocSys.step s ops).ChainHolds p cs := by
  intro hall
  have hchain := hall AllocSys.opened
    [.malloc (2 ^ 64 - 63) (libcAt 0x1000), .malloc 8 (libcAt 0x1020)] AllocSys.opened_opened
    ⟨⟨trivial, by show 2 ^ 64 - 63 < wordSize; decide, by decide +kernel⟩,
      ⟨trivial, by show 8 < wordSize; decide, by decide +kernel⟩, trivial⟩
    0x1040 (by decide +kernel) [(4, libcAt 0)]
    ⟨⟨by decide, by decide,
      ⟨.inr (by decide +kernel), by decide, Allocator.bareApart_of_ne (by decide +kernel)⟩, by decide +kernel⟩, trivial⟩
  have hother := (hchain.others 0x1020 (by decide +kernel) (by decide)).2 16 (by decide +kernel)
  exact absurd hother (by decide +kernel)

end Nomalloc
