import Nomalloc.Cache.LirsGhosts
import Nomalloc.Utils.NextPower

/-!
# How many blocks the table of the LIRS cache holds

Nothing limits the ghosts on S: a put that drives a block of S out of Q leaves one, and the pruning
stops at the LIR block at the bottom.

* `Scanned.scan`           puts of new keys add a block each to a cache whose S ends with a LIR block;
* `LirsRun.exists_large`   so the table outgrows every number, whatever the capacity of the cache; a
                           cache of capacity 2, where no new block is LIR, is warmed up by a promotion
                           first;
* `blocks_bounded_iff`     there is a bound for the capacities of which no cache can be made only.
-/

namespace Nomalloc

/-- A run of a cache of this capacity from `lirs_create`. -/
structure LirsRun (capacity : ℕ) where
  maxSize : ℕ
  callback : Bool
  cache : LirsCache
  created : lirsCreate capacity maxSize true true = some cache
  ops : List LirsOp
  fresh : Runs.Each LirsCache.step LirsOp.FreshMemory (lirsSetEvictCallback cache callback) ops

/-- A property of every state of the run. -/
def LirsRun.Always {capacity : ℕ} (r : LirsRun capacity) (Q : LirsCache → Prop) : Prop :=
  Runs.Always LirsCache.step Q (lirsSetEvictCallback r.cache r.callback) r.ops

/-- The state that the run ends in. -/
def LirsRun.last {capacity : ℕ} (r : LirsRun capacity) : LirsCache :=
  Runs.after LirsCache.step (lirsSetEvictCallback r.cache r.callback) r.ops

def LirsOp.key : LirsOp → ℕ
  | .get key => key
  | .put key _ _ _ => key
  | .remove key => key

/-! ## a scan -/

/-- Puts of `n` keys from `m + 1` on, each with its own memory. -/
def scanOps (m n : ℕ) : List LirsOp :=
  (List.range n).map fun i => .put (m + i + 1) 1 1 (some (m + i + 1))

/-- A cache of `n` blocks, of keys up to `m`, all on S, which ends with a LIR block, or is empty and
will. -/
structure Scanned (m n : ℕ) (c : LirsCache) : Prop where
  ready : LirsReady c
  room : 0 < subW c.capacity c.hirCapacity ∨ c.sStack ≠ []
  max : c.maxSize = wordSize - 1
  length : c.heap.length = n
  onS : ∀ q ∈ c.heap, q ∈ c.sStack
  old : ∀ q ∈ c.heap, q ≤ m ∧ (c.block q).key ≤ m
  bottom : ∀ q, c.sStack.getLast? = some q → (c.block q).type = .lir

section
variable {m n k : ℕ} {c : LirsCache}

theorem Scanned.fresh (h : Scanned m n c) : m + 1 ∉ c.heap := fun hin =>
  Nat.not_succ_le_self m (h.old _ hin).1

theorem Scanned.key_ne (h : Scanned m n c) {q : ℕ} (hq : q ∈ c.heap) : (c.block q).key ≠ m + 1 := by
  have := (h.old q hq).2
  omega

theorem Scanned.find_none (h : Scanned m n c) : lirsFindBlock c (m + 1) = none := by
  cases hf : lirsFindBlock c (m + 1) with
  | none => rfl
  | some p =>
    obtain ⟨hp, hkey⟩ := h.ready.inv.find_some hf
    exact absurd hkey (h.key_ne hp)

theorem Scanned.not_full (h : Scanned m n c) : c.full 1 = false := by
  unfold LirsCache.full
  rw [h.max]
  have := addW_lt c.stats.totalSize 1
  exact decide_eq_false (by omega)

/-- The bottom of S is LIR: nothing lies under it. -/
theorem Scanned.under_eq (h : Scanned m n c) : c.under c.sStack = [] := by
  unfold LirsCache.under
  refine List.rtakeWhile_eq_nil_iff.mpr fun hne hq => ?_
  have := h.bottom _ (List.getLast?_eq_getLast_of_ne_nil hne)
  simp [this] at hq

/-- The block that leaves Q, if one does, stays on S as a ghost. -/
theorem Scanned.staysOnS (h : Scanned m n c) {q : ℕ} (hev : c.evicts = some q) : c.StaysOnS q := by
  have hq : q ∈ c.qQueue := by
    unfold LirsCache.evicts at hev
    split_ifs at hev
    exact List.mem_of_mem_head? hev
  refine ⟨h.onS q (h.ready.inv.shape.mem_heap_of_q hq), ?_⟩
  rw [h.under_eq]
  exact List.not_mem_nil

theorem Scanned.lost_eq (h : Scanned m n c) (mem : ℕ) : c.lostPut 1 (some mem) = 0 := by
  unfold LirsCache.lostPut
  rw [h.not_full, h.under_eq]
  cases hev : c.evicts with
  | none => rfl
  | some q => simp [ghostsOn, h.staysOnS hev]

/-- With the new block on S its bottom is still LIR: the new one is, when it is the only one. -/
theorem Scanned.bottom_entered (h : Scanned m n c) {q : ℕ}
    (hq : ((m + 1) :: c.sStack).getLast? = some q) :
    (entered c (m + 1) (m + 1) 1 1).types q = .lir := by
  cases hl : c.sStack.getLast? with
  | none =>
    have hnil := List.getLast?_eq_none_iff.mp hl
    rw [hnil] at hq
    cases hq
    have hroom : RoomForLir c := by
      unfold RoomForLir
      rw [h.ready.inv.shape.sSize, hnil]
      exact h.room.resolve_right fun hne => hne hnil
    show ((entered c (m + 1) (m + 1) 1 1).block (m + 1)).type = .lir
    rw [entered_self]
    exact if_pos hroom
  | some r =>
    have hrq : q = r := by
      rw [List.getLast?_cons, hl] at hq
      exact (Option.some.inj hq).symm
    subst hrq
    have hne : q ≠ m + 1 := by
      rintro rfl
      exact h.fresh (h.ready.inv.shape.mem_heap_of_s (List.mem_of_getLast? hl))
    rw [entered_type 1 1 hne]
    exact h.bottom q hl

theorem Scanned.step (h : Scanned m n c) :
    Scanned (m + 1) (n + 1) (c.step (.put (m + 1) 1 1 (some (m + 1)))) := by
  have hfresh : (LirsOp.put (m + 1) 1 1 (some (m + 1))).FreshMemory c := fun p hp => by
    cases hp
    exact h.fresh
  have hblocks :=
    (h.ready.ghosts_putEntered 1 (Nat.succ_ne_zero m) h.find_none h.not_full h.fresh).blocks
  obtain ⟨-, -, hheap, hs, -⟩ := entered_fields c (m + 1) (m + 1) 1 1
  have hinv := h.ready.inv.newBlock h.fresh 1 1 fun q hq => h.key_ne hq
  have hkeep := (h.ready.inv.put h.ready.queue (m + 1) 1 1 hfresh).1
  have hup := hinv.upkeep_prune.trans hinv.prune.1.evictFrame.upkeep
  have hput := lirsPut_entered (c := c) (p := m + 1) 1 (Nat.succ_ne_zero m) h.find_none h.not_full
  rw [h.lost_eq, hheap, List.length_cons, h.length] at hblocks
  rw [hput] at hblocks hkeep
  have hstack : (lirsEvictHir (lirsPruneSStack (entered c (m + 1) (m + 1) 1 1))).sStack =
      (m + 1) :: c.sStack := by
    rw [sStack_evict, hinv.prune_sStack, hs, List.rdropWhile_eq_self_iff]
    intro hne hq
    have := h.bottom_entered (List.getLast?_eq_getLast_of_ne_nil hne)
    simp [this] at hq
  show Scanned (m + 1) (n + 1) (lirsPut c (m + 1) 1 1 (some (m + 1))).1
  rw [hput]
  refine ⟨?_, ?_, ?_, hblocks, fun q hq => ?_, fun q hq => ?_, fun q hq => ?_⟩
  · rw [← hput]
    exact h.ready.step hfresh
  · rw [hstack]
    exact .inr (List.cons_ne_nil _ _)
  · rw [hup.maxSize, (entered_rest c (m + 1) (m + 1) 1 1).1]
    exact h.max
  · have hmem := hup.mem_heap hq
    rw [hheap, List.mem_cons] at hmem
    rw [hstack, List.mem_cons]
    exact hmem.imp_right (h.onS q)
  · have hmem := hup.mem_heap hq
    rw [hheap, List.mem_cons] at hmem
    rw [hup.key q]
    rcases hmem with rfl | hmem
    · rw [entered_self]
      exact ⟨le_refl _, le_refl _⟩
    · have hne : q ≠ m + 1 := fun he => h.fresh (he ▸ hmem)
      rw [entered_other c (m + 1) (m + 1) 1 1 hne]
      exact (h.old q hmem).imp Nat.le_succ_of_le Nat.le_succ_of_le
  · rw [hstack] at hq
    have htype := h.bottom_entered hq
    have hq' : q ∈ (entered c (m + 1) (m + 1) 1 1).heap := by
      refine hinv.shape.mem_heap_of_s ?_
      rw [hs]
      exact List.mem_of_getLast? hq
    obtain ⟨hq1, ht1⟩ := hinv.prune.2.keepsLir q hq' htype
    exact (hinv.prune.1.evictFrame.lir q hq1 ht1).2

/-- **A scan of `n` keys adds `n` blocks.** -/
theorem Scanned.scan (h : Scanned m k c) (n : ℕ) :
    Runs.Each LirsCache.step LirsOp.FreshMemory c (scanOps m n) ∧
      Scanned (m + n) (k + n) (Runs.after LirsCache.step c (scanOps m n)) := by
  induction n with
  | zero => exact ⟨trivial, h⟩
  | succ n ih =>
    have hops : scanOps m (n + 1) =
        scanOps m n ++ [.put (m + n + 1) 1 1 (some (m + n + 1))] := by
      unfold scanOps
      rw [List.range_succ, List.map_append]
      rfl
    rw [hops, Runs.each_concat, Runs.after_append]
    refine ⟨⟨ih.1, fun p hp hin => ?_⟩, ih.2.step⟩
    cases hp
    exact ih.2.fresh hin

theorem key_le_of_mem_scanOps {op : LirsOp} (h : op ∈ scanOps m n) : op.key ≤ m + n := by
  obtain ⟨i, hi, rfl⟩ := List.mem_map.mp h
  have := List.mem_range.mp hi
  show m + i + 1 ≤ m + n
  omega

end

/-! ## every capacity -/

/-- The share of Q is less than the whole. -/
theorem hirShare_lt {capacity : ℕ} (h : 0 < capacity) : hirShare capacity < capacity := by
  have hcap := round53_le capacity
  have hprod := round53_le (round53 capacity * 5764607523034235)
  unfold hirShare
  rw [Nat.div_lt_iff_lt_mul (by decide)]
  omega

theorem lirShare_pos {capacity : ℕ} (hcap : capacity < wordSize) (h2 : capacity ≠ 2) :
    0 < subW capacity (max (hirShare capacity) LIRS_MIN_HIR_BLOCKS) := by
  obtain rfl | rfl | hle : capacity = 0 ∨ capacity = 1 ∨ 3 ≤ capacity := by omega
  · decide
  · decide
  · have hshare := hirShare_lt (show 0 < capacity by omega)
    unfold subW LIRS_MIN_HIR_BLOCKS wordSize at *
    omega

/-- A new cache is ready for a scan where the first block of all will be LIR. -/
theorem lirsCreate_scanned {capacity : ℕ} {c : LirsCache} (hcap : capacity < wordSize)
    (h2 : capacity ≠ 2) (hc : lirsCreate capacity (wordSize - 1) true true = some c) :
    Scanned 0 0 (lirsSetEvictCallback c false) := by
  obtain ⟨-, -, hcapacity, hhir, -⟩ := lirsCreate_inv hc
  obtain ⟨hheap, -, -, hmax⟩ := lirsCreate_heap hc
  have hready := lirsCreate_ready hc false
  have hempty : ∀ q, q ∉ (lirsSetEvictCallback c false).heap := fun q hq => by
    rw [show (lirsSetEvictCallback c false).heap = [] from hheap] at hq
    exact absurd hq List.not_mem_nil
  refine ⟨hready, .inl ?_, hmax, congrArg List.length hheap, fun q hq => absurd hq (hempty q),
    fun q hq => absurd hq (hempty q), fun q hq => ?_⟩
  · show 0 < subW c.capacity c.hirCapacity
    rw [hcapacity, hhir]
    exact lirShare_pos hcap h2
  · exact absurd (hready.inv.shape.mem_heap_of_s (List.mem_of_getLast? hq)) (hempty q)

/-- The cache of capacity 2, where Q has it all. -/
def cacheOfTwo : LirsCache :=
  lirsSetEvictCallback ((lirsCreate 2 (wordSize - 1) true true).get rfl) false

/-- Both keys are brought onto S, and the upper one promoted above a HIR block, so that none is
demoted for it. -/
def warmUp : List LirsOp :=
  [.put 1 1 1 (some 1), .put 2 1 1 (some 2), .get 1, .get 2, .get 2, .remove 1]

theorem warmUp_fresh : Runs.Each LirsCache.step LirsOp.FreshMemory cacheOfTwo warmUp := by
  refine ⟨fun p hp => ?_, fun p hp => ?_, trivial, trivial, trivial, trivial, trivial⟩
  · cases hp
    decide +kernel
  · cases hp
    decide +kernel

theorem warmUp_scanned : Scanned 2 1 (Runs.after LirsCache.step cacheOfTwo warmUp) := by
  have hready : LirsReady (Runs.after LirsCache.step cacheOfTwo warmUp) :=
    Runs.inv_after (fun _ _ h hfresh => h.step hfresh)
      (lirsCreate_ready (Option.some_get _).symm false) warmUp_fresh
  have hheap : (Runs.after LirsCache.step cacheOfTwo warmUp).heap = [2] := by decide +kernel
  have hstack : (Runs.after LirsCache.step cacheOfTwo warmUp).sStack = [2] := by decide +kernel
  refine ⟨hready, .inr ?_, by decide +kernel, by rw [hheap]; rfl, ?_, ?_, ?_⟩
  · rw [hstack]
    exact List.cons_ne_nil _ _
  · rw [hheap, hstack]
    exact fun q hq => hq
  · rw [hheap]
    intro q hq
    rw [List.mem_singleton.mp hq]
    decide +kernel
  · rw [hstack]
    intro q hq
    cases hq
    decide +kernel

/-- When `lirs_create` makes a cache. -/
theorem lirsCreate_some_iff (capacity maxSize : ℕ) :
    (∃ c, lirsCreate capacity maxSize true true = some c) ↔ capacity * 2 % wordSize ≤ 2 ^ 63 := by
  rw [← Doubling.loop_ends_iff (w := 64) (by decide)]
  simp only [← hashSizeLoop_eq]
  rw [hashSizeLoop_ends_iff]
  unfold lirsCreate
  cases hashSizeLoop 65 1 (capacity * 2 % wordSize) with
  | none => simp
  | some size => simp

section
variable {capacity : ℕ}

/-- **The table outgrows every number** of blocks, with no more keys than that and two. -/
theorem LirsRun.exists_large (hcap : capacity < wordSize) (hmade : capacity * 2 % wordSize ≤ 2 ^ 63)
    (n : ℕ) :
    ∃ r : LirsRun capacity, (∀ op ∈ r.ops, op.key ≤ n + 2) ∧ n ≤ r.last.tableBlocks.length := by
  have hlarge : ∀ {m k : ℕ} {c : LirsCache}, Scanned m k c →
      n ≤ (Runs.after LirsCache.step c (scanOps m n)).tableBlocks.length := fun h => by
    have hscan := (h.scan n).2
    rw [hscan.ready.inv.shape.tableBlocks_perm.length_eq, hscan.length]
    exact Nat.le_add_left _ _
  by_cases h2 : capacity = 2
  · subst h2
    refine ⟨⟨wordSize - 1, false, _, (Option.some_get rfl).symm, warmUp ++ scanOps 2 n,
      Runs.each_append.mpr ⟨warmUp_fresh, (warmUp_scanned.scan n).1⟩⟩, fun op hop => ?_, ?_⟩
    · rcases List.mem_append.mp hop with hop | hop
      · have hwarm : ∀ op ∈ warmUp, op.key ≤ 2 := by decide
        exact (hwarm op hop).trans (Nat.le_add_left _ _)
      · exact (key_le_of_mem_scanOps hop).trans (by omega)
    · show n ≤ (Runs.after LirsCache.step cacheOfTwo (warmUp ++ scanOps 2 n)).tableBlocks.length
      rw [Runs.after_append]
      exact hlarge warmUp_scanned
  · obtain ⟨c, hc⟩ := (lirsCreate_some_iff capacity (wordSize - 1)).mpr hmade
    have hstart := lirsCreate_scanned hcap h2 hc
    refine ⟨⟨wordSize - 1, false, c, hc, scanOps 0 n, (hstart.scan n).1⟩, fun op hop => ?_,
      hlarge hstart⟩
    exact (key_le_of_mem_scanOps hop).trans (by omega)

/-- No number bounds the blocks of the runs of a capacity of which a cache can be made. -/
theorem LirsRun.not_bounded (hcap : capacity < wordSize) (hmade : capacity * 2 % wordSize ≤ 2 ^ 63)
    {bound : ℕ} : ¬ ∀ r : LirsRun capacity, r.Always fun c => c.tableBlocks.length ≤ bound := by
  intro hbound
  obtain ⟨r, -, hlarge⟩ := LirsRun.exists_large hcap hmade (bound + 1)
  exact absurd (hlarge.trans (hbound r).last) (Nat.not_succ_le_self bound)

end

/-- **The blocks of the table have no bound**, whatever the capacity, unless `lirs_create` makes no
cache of that capacity at all.  As many keys as there are to be blocks, and two, are enough. -/
theorem blocks_bounded_iff {capacity : ℕ} (hcap : capacity < wordSize) :
    ((∃ bound, ∀ r : LirsRun capacity, r.Always fun c => c.tableBlocks.length ≤ bound) ↔
      2 ^ 63 < capacity * 2 % wordSize) ∧
    (capacity * 2 % wordSize ≤ 2 ^ 63 → ∀ n, ∃ r : LirsRun capacity,
      (∀ op ∈ r.ops, op.key ≤ n + 2) ∧ n ≤ r.last.tableBlocks.length) := by
  refine ⟨⟨fun ⟨bound, hbound⟩ => ?_, fun hnone => ⟨0, fun r => ?_⟩⟩,
    LirsRun.exists_large hcap⟩
  · exact not_le.mp fun hmade => LirsRun.not_bounded hcap hmade hbound
  · have hmade := (lirsCreate_some_iff capacity r.maxSize).mp ⟨_, r.created⟩
    omega

theorem blocks_bounded_three :
    ((∃ bound, ∀ r : LirsRun 3, r.Always fun c => c.tableBlocks.length ≤ bound) ↔
      2 ^ 63 < 3 * 2 % wordSize) ∧
    (3 * 2 % wordSize ≤ 2 ^ 63 → ∀ n, ∃ r : LirsRun 3,
      (∀ op ∈ r.ops, op.key ≤ n + 2) ∧ n ≤ r.last.tableBlocks.length) :=
  blocks_bounded_iff (by decide)

/-- There is no bound for capacity 3. -/
theorem scan_outgrows :
    ¬ ∀ capacity, ∃ bound, ∀ r : LirsRun capacity, r.Always fun c => c.tableBlocks.length ≤ bound := by
  intro h
  obtain ⟨bound, hbound⟩ := h 3
  exact LirsRun.not_bounded (by decide) (by decide) hbound

end Nomalloc
