import Nomalloc.Cache.LirsContents
import Nomalloc.Lib.MemLog

/-!
# `lirs_clear` and `lirs_destroy`

Both free the blocks in two loops, over S and then over Q, and what they do to the memory of blocks
is logged: `list_del` and `hlist_del` write to the node of the block and to those of its neighbours,
and a loop reads the `next` pointer of a block before it frees it.  The first loop takes its blocks
off S and out of the table, not off Q: a block that is on both is freed there, and visited again by
the second loop.

* `lirsFreeBlocks`           the two loops
* `LirsCache.FreesBlocks`    each block is freed once, with its callback, and none is touched after
* `clear_frees_blocks_iff`   they do so exactly when no block is on both S and Q
-/

namespace Nomalloc

open MemEvent

/-! ## the two loops -/

/-- The blocks before and after `p` on a list. -/
def neighbours (l : List ℕ) (p : ℕ) : List ℕ :=
  (l.takeWhile (· ≠ p)).getLast?.toList ++ (l.dropWhile (· ≠ p)).tail.head?.toList

/-- `lirs_remove_hash(cache, block); lirs_block_destroy(block, cache);` -/
def lirsFreeBlock (cache : LirsCache) (log : List (MemEvent ℕ)) (p : ℕ) :
    LirsCache × List (MemEvent ℕ) :=
  let chain := cache.hashTable (cache.bucket (cache.block p).key)
  let log := log ++ accesses (p :: neighbours chain p)
  (lirsBlockDestroy (lirsRemoveHash cache p) p, log ++ accesses [p] ++ [.free p])

/-- The first loop at the block `p`: its `next` is read, then the body runs. -/
def lirsClearS (st : LirsCache × List (MemEvent ℕ)) (p : ℕ) : LirsCache × List (MemEvent ℕ) :=
  let (cache, log) := st
  let log := log ++ accesses (p :: p :: neighbours cache.sStack p)
  let cache := { cache with sStack := cache.sStack.erase p }
  lirsFreeBlock cache log p

/-- The second loop at the block `p`. -/
def lirsClearQ (st : LirsCache × List (MemEvent ℕ)) (p : ℕ) : LirsCache × List (MemEvent ℕ) :=
  let (cache, log) := st
  let log := log ++ accesses (p :: p :: neighbours cache.qQueue p)
  let cache := { cache with qQueue := cache.qQueue.erase p }
  let log := log ++ accesses [p]
  if !(cache.block p).inSStack then lirsFreeBlock cache log p else (cache, log)

/-- The loops of `lirs_clear` and `lirs_destroy`. -/
def lirsFreeBlocks (cache : LirsCache) : LirsCache × List (MemEvent ℕ) :=
  let st := cache.sStack.foldl lirsClearS (cache, [])
  st.1.qQueue.foldl lirsClearQ st

/-- `lirs_clear`: the cache that it leaves and the log. -/
def lirsClear (cache : LirsCache) : LirsCache × List (MemEvent ℕ) :=
  let (cache, log) := lirsFreeBlocks cache
  ({ cache with
      hashTable := fun _ => []
      sStack := []
      qQueue := []
      sStackSize := 0
      qQueueSize := 0
      stats := { cache.stats with
        lirCount := 0
        hirResidentCount := 0
        hirNonResidentCount := 0
        totalSize := 0 } }, log)

/-- `lirs_destroy`: the calls made to the callback and the log.  The table and the cache are freed
after the blocks. -/
def lirsDestroy (cache : LirsCache) : List (ℕ × ℕ × ℕ) × List (MemEvent ℕ) :=
  let (cache, log) := lirsFreeBlocks cache
  (cache.evicted, log)

/-- The blocks of the table are freed, each once and with its callback, and no block is accessed
after that. -/
structure LirsCache.FreesBlocks (c : LirsCache) (evicted : List (ℕ × ℕ × ℕ))
    (log : List (MemEvent ℕ)) : Prop where
  once : ∀ i, ∀ p ∈ c.hashTable i, (freed log).count p = 1
  only : ∀ p ∈ freed log, ∃ i, p ∈ c.hashTable i
  calls : evicted =
    c.evicted ++ (freed log).flatMap fun p => lirsCalls c.evictCallback (c.block p).entry
  safe : NoUseAfterFree log

/-! ## freeing one block -/

theorem mem_of_mem_neighbours {l : List ℕ} {p q : ℕ} (hq : q ∈ neighbours l p) : q ∈ l := by
  rcases List.mem_append.mp hq with hq | hq
  · exact (List.takeWhile_prefix _).mem (List.mem_of_getLast? (Option.mem_toList.mp hq))
  · exact (List.dropWhile_suffix _).mem
      (List.mem_of_mem_tail (List.mem_of_head? (Option.mem_toList.mp hq)))

/-- While the blocks `gone` have been freed. -/
structure Clearing (c : LirsCache) (gone : List ℕ) (st : LirsCache × List (MemEvent ℕ)) : Prop where
  block : st.1.block = c.block
  callback : st.1.evictCallback = c.evictCallback
  sub : ∀ i, (st.1.hashTable i).Sublist (c.hashTable i)
  table : ∀ i, ∀ q ∈ st.1.hashTable i, q ∉ gone
  freed : freed st.2 = gone
  calls : st.1.evicted =
    c.evicted ++ gone.flatMap fun p => lirsCalls c.evictCallback (c.block p).entry
  safe : NoUseAfterFree st.2

section
variable {c cache : LirsCache} {gone ps : List ℕ} {log : List (MemEvent ℕ)} {p : ℕ}

theorem Clearing.touch (h : Clearing c gone (cache, log)) (ps : List ℕ)
    (hps : ∀ p ∈ ps, p ∉ gone) : Clearing c gone (cache, log ++ accesses ps) := by
  refine ⟨h.block, h.callback, h.sub, h.table, ?_, h.calls, ?_⟩
  · rw [freed_append, freed_accesses, List.append_nil]
    exact h.freed
  · refine noUseAfterFree_accesses h.safe fun p hp => ?_
    rw [h.freed]
    exact hps p hp

theorem Clearing.unlinkS (h : Clearing c gone (cache, log)) (l : List ℕ) :
    Clearing c gone ({ cache with sStack := l }, log) :=
  ⟨h.block, h.callback, h.sub, h.table, h.freed, h.calls, h.safe⟩

theorem Clearing.unlinkQ (h : Clearing c gone (cache, log)) (l : List ℕ) :
    Clearing c gone ({ cache with qQueue := l }, log) :=
  ⟨h.block, h.callback, h.sub, h.table, h.freed, h.calls, h.safe⟩

theorem Clearing.freeBlock (h : Clearing c gone (cache, log)) (hnd : ∀ i, (c.hashTable i).Nodup)
    (hp : p ∉ gone) : Clearing c (gone ++ [p]) (lirsFreeBlock cache log p) := by
  have hchain := h.touch
    (p :: neighbours (cache.hashTable (cache.bucket (cache.block p).key)) p) fun q hq => by
      rcases List.mem_cons.mp hq with rfl | hq
      · exact hp
      · exact h.table _ q (mem_of_mem_neighbours hq)
  have hlast := hchain.touch [p] fun q hq => by
    rw [List.mem_singleton.mp hq]
    exact hp
  refine ⟨h.block, h.callback, fun i => List.erase_sublist.trans (h.sub i), fun i q hq => ?_, ?_,
    ?_, noUseAfterFree_free hlast.safe⟩
  · obtain ⟨hne, hq⟩ := ((h.sub i).nodup (hnd i)).mem_erase_iff.mp hq
    rw [List.mem_append, List.mem_singleton, not_or]
    exact ⟨h.table i q hq, hne⟩
  · show MemEvent.freed (_ ++ [MemEvent.free p]) = _
    rw [freed_append, freed_free]
    exact congrArg (· ++ [p]) hlast.freed
  · show (if cache.evictCallback && (cache.block p).value != 0 then
      cache.evicted ++ [(cache.block p).entry] else cache.evicted) = _
    rw [lirsCalls_append, show cache.evicted = _ from h.calls,
      show cache.evictCallback = c.evictCallback from h.callback,
      show cache.block = c.block from h.block, List.flatMap_append, List.flatMap_singleton,
      List.append_assoc]

/-! ## the loops -/

/-- The first loop frees the blocks of S. -/
theorem Clearing.loopS (hnd : ∀ i, (c.hashTable i).Nodup) {st : LirsCache × List (MemEvent ℕ)}
    (h : Clearing c gone st) (hs : st.1.sStack = ps) (hps : (gone ++ ps).Nodup) :
    Clearing c (gone ++ ps) (ps.foldl lirsClearS st) ∧
      (ps.foldl lirsClearS st).1.qQueue = st.1.qQueue := by
  induction ps generalizing gone st with
  | nil =>
    rw [List.append_nil]
    exact ⟨h, rfl⟩
  | cons p ps ih =>
    obtain ⟨cache, log⟩ := st
    have hout : ∀ q ∈ p :: ps, q ∉ gone := fun q hq hin =>
      (List.nodup_append.mp hps).2.2 q hin q hq rfl
    have hs' : cache.sStack = p :: ps := hs
    have h1 := h.touch (p :: p :: neighbours cache.sStack p) fun q hq => by
      rcases List.mem_cons.mp hq with rfl | hq
      · exact hout q List.mem_cons_self
      rcases List.mem_cons.mp hq with rfl | hq
      · exact hout q List.mem_cons_self
      · exact hout q (hs' ▸ mem_of_mem_neighbours hq)
    have h2 := (h1.unlinkS (cache.sStack.erase p)).freeBlock hnd (hout p List.mem_cons_self)
    have hrest : (lirsClearS (cache, log) p).1.sStack = ps := by
      show cache.sStack.erase p = ps
      rw [hs', List.erase_cons_head]
    rw [List.append_cons] at hps ⊢
    exact ih h2 hrest hps

/-- The second loop frees the blocks of Q that are not on S. -/
theorem Clearing.loopQ (hnd : ∀ i, (c.hashTable i).Nodup) {st : LirsCache × List (MemEvent ℕ)}
    (h : Clearing c gone st) (hq : st.1.qQueue = ps) (hps : (gone ++ ps).Nodup)
    (hflag : ∀ p ∈ ps, (c.block p).inSStack = false) :
    Clearing c (gone ++ ps) (ps.foldl lirsClearQ st) := by
  induction ps generalizing gone st with
  | nil =>
    rw [List.append_nil]
    exact h
  | cons p ps ih =>
    obtain ⟨cache, log⟩ := st
    have hout : ∀ q ∈ p :: ps, q ∉ gone := fun q hq hin =>
      (List.nodup_append.mp hps).2.2 q hin q hq rfl
    have hq' : cache.qQueue = p :: ps := hq
    have h1 := h.touch (p :: p :: neighbours cache.qQueue p) fun q hq => by
      rcases List.mem_cons.mp hq with rfl | hq
      · exact hout q List.mem_cons_self
      rcases List.mem_cons.mp hq with rfl | hq
      · exact hout q List.mem_cons_self
      · exact hout q (hq' ▸ mem_of_mem_neighbours hq)
    have h2 := (h1.unlinkQ (cache.qQueue.erase p)).touch [p] fun q hq => by
      rw [List.mem_singleton.mp hq]
      exact hout p List.mem_cons_self
    have h3 := h2.freeBlock hnd (hout p List.mem_cons_self)
    have hin : (!(cache.block p).inSStack) = true := by
      rw [show cache.block = c.block from h.block, hflag p List.mem_cons_self]
      rfl
    have hstep : lirsClearQ (cache, log) p =
        lirsFreeBlock { cache with qQueue := cache.qQueue.erase p }
          (log ++ accesses (p :: p :: neighbours cache.qQueue p) ++ accesses [p]) p := if_pos hin
    have hrest : (lirsClearQ (cache, log) p).1.qQueue = ps := by
      rw [hstep]
      show cache.qQueue.erase p = ps
      rw [hq', List.erase_cons_head]
    rw [← hstep] at h3
    rw [List.append_cons] at hps ⊢
    exact ih h3 hrest hps fun q hq => hflag q (List.mem_cons_of_mem _ hq)

theorem lirsClearQ_visits (ps : List ℕ) (st : LirsCache × List (MemEvent ℕ)) :
    ∃ log, (ps.foldl lirsClearQ st).2 = st.2 ++ log ∧ ∀ p ∈ ps, MemEvent.access p ∈ log := by
  induction ps generalizing st with
  | nil => exact ⟨[], (List.append_nil _).symm, fun p hp => absurd hp (by simp)⟩
  | cons p ps ih =>
    obtain ⟨log, hlog, hall⟩ := ih (lirsClearQ st p)
    have hstep : ∃ log', (lirsClearQ st p).2 = st.2 ++ MemEvent.access p :: log' := by
      unfold lirsClearQ lirsFreeBlock
      dsimp only
      split_ifs
      · simp only [accesses, List.map_cons, List.append_assoc, List.cons_append]
        exact ⟨_, rfl⟩
      · simp only [accesses, List.map_cons, List.append_assoc, List.cons_append]
        exact ⟨_, rfl⟩
    obtain ⟨log', hlog'⟩ := hstep
    refine ⟨MemEvent.access p :: log' ++ log, ?_, fun q hq => ?_⟩
    · rw [List.foldl_cons, hlog, hlog', List.append_assoc]
    · rcases List.mem_cons.mp hq with rfl | hq
      · exact List.mem_append_left _ List.mem_cons_self
      · exact List.mem_append_right _ (hall q hq)

end

/-! ## the blocks of a cache -/

section
variable {c : LirsCache} {p : ℕ}

/-- A block is on S or on Q. -/
theorem LirsInv.listed_iff (h : LirsInv c) : p ∈ c.sStack ++ c.qQueue ↔ ∃ i, p ∈ c.hashTable i := by
  have htable : (∃ i, p ∈ c.hashTable i) ↔ p ∈ c.heap :=
    ⟨fun ⟨i, hi⟩ => ((h.shape.bucket i p).mp hi).1,
      fun hp => ⟨_, (h.shape.bucket _ p).mpr ⟨hp, rfl⟩⟩⟩
  rw [htable, List.mem_append]
  constructor
  · rintro (hp | hp)
    · exact h.shape.mem_heap_of_s hp
    · exact h.shape.mem_heap_of_q hp
  · intro hp
    by_cases ht : (c.block p).type = .hirResident
    · exact Or.inr ((h.inQ_iff hp).mp ht)
    · exact Or.inl ((h.shape.sFlag p).mpr ⟨hp, (h.blocks p hp).stacked ht⟩)

theorem clearing_start (c : LirsCache) : Clearing c [] (c, []) :=
  ⟨rfl, rfl, fun _ => List.Sublist.refl _, fun _ _ _ => List.not_mem_nil, rfl,
    (List.append_nil _).symm, noUseAfterFree_nil⟩

/-- **The loops free the blocks exactly when** no block is on both lists. -/
theorem LirsInv.freesBlocks_iff (h : LirsInv c) :
    c.FreesBlocks (lirsFreeBlocks c).1.evicted (lirsFreeBlocks c).2 ↔
      ∀ p ∈ c.sStack, p ∉ c.qQueue := by
  have hnd := h.shape.bucketNodup
  obtain ⟨hS, hqueue⟩ := (clearing_start c).loopS hnd rfl (by simpa using h.shape.sNodup)
  rw [List.nil_append] at hS
  unfold lirsFreeBlocks
  extract_lets st
  have hst : st.1.qQueue = c.qQueue := hqueue
  rw [hst]
  constructor
  · intro hfrees p hs hq
    obtain ⟨log, hlog, hall⟩ := lirsClearQ_visits c.qQueue st
    have hsafe := hfrees.safe
    rw [hlog] at hsafe
    exact not_noUseAfterFree (by rw [hS.freed]; exact hs) (hall p hq) hsafe
  · intro hdis
    have hall : (c.sStack ++ c.qQueue).Nodup :=
      List.nodup_append.mpr ⟨h.shape.sNodup, h.shape.qNodup, fun p hs q hq he =>
        hdis p hs (he ▸ hq)⟩
    have hflag : ∀ p ∈ c.qQueue, (c.block p).inSStack = false := fun p hq =>
      Bool.eq_false_iff.mpr fun hf =>
        hdis p ((h.shape.sFlag p).mpr ⟨h.shape.mem_heap_of_q hq, hf⟩) hq
    have hQ := hS.loopQ hnd hst hall hflag
    refine ⟨fun i p hp => ?_, fun p hp => ?_, ?_, hQ.safe⟩
    · rw [hQ.freed]
      exact List.count_eq_one_of_mem hall (h.listed_iff.mpr ⟨i, hp⟩)
    · rw [hQ.freed] at hp
      exact h.listed_iff.mp hp
    · rw [hQ.freed]
      exact hQ.calls

end

/-- **`lirs_clear` and `lirs_destroy` free the blocks, and touch none after it was freed, exactly in
the states** in which no block is on both S and Q. -/
theorem clear_frees_blocks_iff {capacity maxSize : ℕ} {cacheOk tableOk : Bool} {c s : LirsCache}
    (hc : lirsCreate capacity maxSize cacheOk tableOk = some c) (callback : Bool)
    (ops : List LirsOp)
    (hfresh : Runs.Each LirsCache.step LirsOp.FreshMemory (lirsSetEvictCallback c callback) ops)
    (hs : s = Runs.after LirsCache.step (lirsSetEvictCallback c callback) ops) :
    (s.FreesBlocks (lirsClear s).1.evicted (lirsClear s).2 ↔ ∀ p ∈ s.sStack, p ∉ s.qQueue) ∧
      (s.FreesBlocks (lirsDestroy s).1 (lirsDestroy s).2 ↔ ∀ p ∈ s.sStack, p ∉ s.qQueue) := by
  have hready : LirsReady s := by
    rw [hs]
    exact (lirsCreate_ready hc callback).after hfresh
  exact ⟨hready.inv.freesBlocks_iff, hready.inv.freesBlocks_iff⟩

/-- A cache with one block, which is LIR. -/
theorem clear_frees_blocks_run :
    let s := Runs.after LirsCache.step
      (lirsSetEvictCallback ((lirsCreate 3 1000 true true).get rfl) true)
      [.put 16 1 1 (some 100)]
    (s.FreesBlocks (lirsClear s).1.evicted (lirsClear s).2 ↔ ∀ p ∈ s.sStack, p ∉ s.qQueue) ∧
      (s.FreesBlocks (lirsDestroy s).1 (lirsDestroy s).2 ↔ ∀ p ∈ s.sStack, p ∉ s.qQueue) := by
  refine clear_frees_blocks_iff (Option.some_get _).symm true _ ?_ rfl
  refine ⟨fun p hp => ?_, trivial⟩
  cases hp
  decide

/-- The second block is HIR resident, and on both lists: the first loop frees it and the second loop
reads its `next` pointer. -/
theorem clear_touches_freed_block :
    ∃ c, lirsCreate 3 1000 true true = some c ∧ ∃ ops : List LirsOp,
      Runs.Each LirsCache.step LirsOp.FreshMemory c ops ∧
        ¬ NoUseAfterFree (lirsClear (Runs.after LirsCache.step c ops)).2 ∧
        ¬ NoUseAfterFree (lirsDestroy (Runs.after LirsCache.step c ops)).2 := by
  refine ⟨(lirsCreate 3 1000 true true).get rfl, (Option.some_get _).symm,
    [.put 16 1 1 (some 100), .put 32 2 1 (some 200)], ⟨?_, ?_, trivial⟩, fun h => ?_, fun h => ?_⟩
  · intro p hp
    cases hp
    decide
  · intro p hp
    cases hp
    decide +kernel
  · rw [← List.take_append_drop 6 (lirsClear _).2] at h
    revert h
    exact not_noUseAfterFree (p := 200) (by decide +kernel) (by decide +kernel)
  · rw [← List.take_append_drop 6 (lirsDestroy _).2] at h
    revert h
    exact not_noUseAfterFree (p := 200) (by decide +kernel) (by decide +kernel)

end Nomalloc
