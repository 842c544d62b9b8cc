import Nomalloc.Lib.Bins
import Nomalloc.Memory.ChunkBlocks

/-!
# The books of a chunk

What `chunk_alloc_small` and `chunk_free_small` keep of a chunk whatever they are called with:
frees of any pointer under any class, metadata requests that fail, runs of no block.

* `chunkRuns chunk`    the runs linked in a chunk, class by class;
* `ListsKept`          at most one run of a class is open, and a run is linked under its class;
* `Books`              every free count agrees with its bitmap, `num_runs` counts the runs linked,
                       and the two byte counters differ by the bytes in use;
* `SmallAlloc`         what `chunk_alloc_small` can do, one case for each outcome;
* `Books.alloc`, `Books.free`   the step lemmas, and `books_balanced` for whole runs.

A store through a run pointer moves one record of `chunkRuns`, so every fact is read off a
permutation that puts that record first.
-/

namespace Nomalloc

/-- The runs linked in a chunk, class by class. -/
def chunkRuns (chunk : Chunk) : List ChunkRun :=
  binned (fun c => chunk.runsFree c ++ chunk.runsFull c) (List.range NUM_SIZE_CLASSES)

/-- The runs of the classes other than `c`. -/
def otherRuns (chunk : Chunk) (c : ℕ) : List ChunkRun :=
  binned (fun c => chunk.runsFree c ++ chunk.runsFull c) ((List.range NUM_SIZE_CLASSES).erase c)

namespace ChunkRun

/-- The bytes of its blocks in use. -/
def usedBytes (run : ChunkRun) : ℕ := setCount run.allocBitmap run.numBlocks * run.blockSize

end ChunkRun

/-- The bytes in use of some runs. -/
def usedBytes (runs : List ChunkRun) : ℕ := (runs.map ChunkRun.usedBytes).sum

/-- At most one run of a class is open, and what is linked under a class is a run of it. -/
structure ListsKept (chunk : Chunk) : Prop where
  short : ∀ c, (chunk.runsFree c).length ≤ 1
  run : ∀ c, ∀ r ∈ chunk.runsFree c ++ chunk.runsFull c, RunKept c r

structure Books (chunk : Chunk) : Prop where
  short : ∀ c, (chunk.runsFree c).length ≤ 1
  run : ∀ c, ∀ r ∈ chunk.runsFree c ++ chunk.runsFull c, RunKept c r
  named : ∀ r ∈ chunkRuns chunk, 0 < r.addr ∧ r.addr < wordSize
  nodup : ((chunkRuns chunk).map ChunkRun.addr).Nodup
  counted : chunk.numRuns = (chunkRuns chunk).length
  freed : chunk.freedBytes < wordSize
  balance : chunk.allocatedBytes ≡
    chunk.freedBytes + chunk.usableOffset + usedBytes (chunkRuns chunk) [MOD wordSize]

section
variable {chunk chunk' : Chunk} {c b : ℕ} {run run' : ChunkRun} {rest : List ChunkRun}

theorem lt_of_classToSize_pos (h : 0 < classToSize c) : c < NUM_SIZE_CLASSES := by
  by_contra hc
  have hs : ¬ c < NUM_SMALL_CLASSES := fun hlt => hc (lt_of_lt_of_le hlt (by decide))
  simp [classToSize, hs, hc] at h

theorem mem_chunkRuns {r : ChunkRun} :
    r ∈ chunkRuns chunk ↔
      ∃ c < NUM_SIZE_CLASSES, r ∈ chunk.runsFree c ++ chunk.runsFull c := by
  unfold chunkRuns
  rw [mem_binned]
  simp only [List.mem_range]

theorem chunkRuns_split (chunk : Chunk) (hc : c < NUM_SIZE_CLASSES) :
    (chunkRuns chunk).Perm ((chunk.runsFree c ++ chunk.runsFull c) ++ otherRuns chunk c) :=
  binned_split _ (List.mem_range.mpr hc)

theorem otherRuns_congr
    (h : ∀ c', c' ≠ c → chunk'.runsFree c' = chunk.runsFree c' ∧
      chunk'.runsFull c' = chunk.runsFull c') : otherRuns chunk' c = otherRuns chunk c := by
  refine binned_congr fun c' hc' => ?_
  obtain ⟨h1, h2⟩ := h c' ((List.nodup_range.mem_erase_iff).mp hc').1
  rw [h1, h2]

/-! ## one record of the lists -/

theorem openRunTaken_others (chunk : Chunk) (c : ℕ) (run : ChunkRun) (c' : ℕ) (hne : c' ≠ c) :
    (openRunTaken chunk c run).runsFree c' = chunk.runsFree c' ∧
      (openRunTaken chunk c run).runsFull c' = chunk.runsFull c' := by
  rcases openRunTaken_lists chunk c run with ⟨-, h1, h2⟩ | ⟨-, h1, h2⟩
  · simp [h1, h2, hne]
  · simp [h1, h2, hne]

theorem blockCleared_others (chunk : Chunk) (c : ℕ) (run : ChunkRun) (b c' : ℕ) (hne : c' ≠ c) :
    (blockCleared chunk c run b).runsFree c' = chunk.runsFree c' ∧
      (blockCleared chunk c run b).runsFull c' = chunk.runsFull c' := by
  rcases blockCleared_lists chunk c run b with ⟨-, h1, h2⟩ | ⟨-, h1, h2⟩
  · simp [h1, h2, hne]
  · simp [h1, h2, hne]

/-- Among records of different addresses a store changes one, and `list_del` takes one out. -/
theorem exists_run_split {l : List ChunkRun} (hnd : (l.map ChunkRun.addr).Nodup) (hmem : run ∈ l) :
    ∃ s t, l = s ++ run :: t ∧
      (∀ run' : ChunkRun, run'.addr = run.addr → storeRun run' l = s ++ run' :: t) ∧
      unlinkRun run l = s ++ t := by
  obtain ⟨s, t, rfl⟩ := List.append_of_mem hmem
  rw [List.map_append, List.map_cons, List.nodup_append] at hnd
  obtain ⟨-, ht, hst⟩ := hnd
  have hs : ∀ r ∈ s, r.addr ≠ run.addr := fun r hr =>
    hst _ (List.mem_map_of_mem hr) _ List.mem_cons_self
  have ht' : ∀ r ∈ t, r.addr ≠ run.addr := fun r hr he =>
    (List.nodup_cons.mp ht).1 (he ▸ List.mem_map_of_mem hr)
  refine ⟨s, t, rfl, fun run' ha => ?_, ?_⟩
  · have hkeep : ∀ l : List ChunkRun, (∀ r ∈ l, r.addr ≠ run.addr) → storeRun run' l = l := by
      intro l hl
      refine (List.map_congr_left fun r hr => ?_).trans (List.map_id l)
      exact if_neg fun he => hl r hr (he.trans ha)
    have hcons : storeRun run' (run :: t) = run' :: storeRun run' t := by
      simp [storeRun, ha]
    rw [storeRun_append, hcons, hkeep s hs, hkeep t ht']
  · have hkeep : ∀ l : List ChunkRun, (∀ r ∈ l, r.addr ≠ run.addr) → unlinkRun run l = l :=
      fun l hl => List.filter_eq_self.mpr fun r hr => decide_eq_true (hl r hr)
    have hcons : unlinkRun run (run :: t) = unlinkRun run t := by
      simp [unlinkRun]
    rw [unlinkRun_append, hcons, hkeep s hs, hkeep t ht']

theorem chunkRuns_linkRun (hc : c < NUM_SIZE_CLASSES) (hl : chunk.runsFree c = [])
    (run : ChunkRun) : (chunkRuns (linkRun chunk c run)).Perm (run :: chunkRuns chunk) := by
  have hrest : otherRuns (linkRun chunk c run) c = otherRuns chunk c :=
    otherRuns_congr fun c' hne => ⟨Function.update_of_ne hne .., rfl⟩
  have hsplit := chunkRuns_split chunk hc
  have hsplit' := chunkRuns_split (linkRun chunk c run) hc
  rw [hl, List.nil_append] at hsplit
  rw [linkRun_runsFree, hrest] at hsplit'
  exact hsplit'.trans (hsplit.symm.cons run)

theorem chunkRuns_openRunTaken (hc : c < NUM_SIZE_CLASSES) (hl : chunk.runsFree c = [run]) :
    ∃ rest, (chunkRuns chunk).Perm (run :: rest) ∧
      (chunkRuns (openRunTaken chunk c run)).Perm (run.take run.firstFree :: rest) := by
  have hsplit := chunkRuns_split chunk hc
  have hsplit' := chunkRuns_split (openRunTaken chunk c run) hc
  rw [hl, List.singleton_append, List.cons_append] at hsplit
  refine ⟨chunk.runsFull c ++ otherRuns chunk c, hsplit, hsplit'.trans ?_⟩
  have hsame := openRunTaken_others chunk c run
  rcases openRunTaken_lists chunk c run with ⟨-, h1, h2⟩ | ⟨-, h1, h2⟩
  · rw [otherRuns_congr hsame, h1, h2, Function.update_self, Function.update_self, List.nil_append]
    exact (List.perm_append_singleton ..).append_right _
  · rw [otherRuns_congr hsame, h1, h2, Function.update_self, List.singleton_append,
      List.cons_append]

/-- A block is cleared: its run goes with its last block. -/
theorem chunkRuns_blockCleared (hc : c < NUM_SIZE_CLASSES)
    (hnd : ((chunk.runsFree c ++ chunk.runsFull c).map ChunkRun.addr).Nodup)
    (hmem : run ∈ chunk.runsFree c ++ chunk.runsFull c) :
    ∃ rest, (chunkRuns chunk).Perm (run :: rest) ∧
      (chunkRuns (blockCleared chunk c run b)).Perm
        (if run.freeBlocksCount + 1 = run.numBlocks then rest else run.release b :: rest) := by
  have hsplit := chunkRuns_split chunk hc
  have hsplit' := chunkRuns_split (blockCleared chunk c run b) hc
  obtain ⟨s, t, he, hstore, hunlink⟩ := exists_run_split hnd hmem
  rw [he] at hsplit
  refine ⟨s ++ t ++ otherRuns chunk c, hsplit.trans ?_, hsplit'.trans ?_⟩
  · rw [List.append_assoc, List.cons_append, List.append_assoc]
    exact List.perm_middle
  have hsame := blockCleared_others chunk c run b
  rcases blockCleared_lists chunk c run b with ⟨hlast, h1, h2⟩ | ⟨hlast, h1, h2⟩
  · rw [if_pos hlast, otherRuns_congr hsame, h1, h2,
      Function.update_self, Function.update_self, ← unlinkRun_append, hunlink]
  · rw [if_neg hlast, otherRuns_congr hsame, h1, h2,
      Function.update_self, Function.update_self, ← storeRun_append, hstore (run.release b) rfl,
      List.append_assoc, List.cons_append, List.append_assoc]
    exact List.perm_middle

theorem openRunTaken_bytes (chunk : Chunk) (c : ℕ) (run : ChunkRun) :
    (openRunTaken chunk c run).allocatedBytes = addW chunk.allocatedBytes run.blockSize ∧
      (openRunTaken chunk c run).freedBytes = chunk.freedBytes := by
  unfold openRunTaken
  by_cases hz : (run.take run.firstFree).freeBlocksCount = 0
  · simp [hz]
  · simp [hz]

theorem blockCleared_bytes (chunk : Chunk) (c : ℕ) (run : ChunkRun) (b : ℕ) :
    (blockCleared chunk c run b).allocatedBytes = chunk.allocatedBytes ∧
      (blockCleared chunk c run b).freedBytes = addW chunk.freedBytes run.blockSize := by
  unfold blockCleared
  by_cases hlast : run.freeBlocksCount + 1 = run.numBlocks
  · simp [hlast]
  · simp [hlast]

theorem blockCleared_numRuns (chunk : Chunk) (c : ℕ) (run : ChunkRun) (b : ℕ) :
    (blockCleared chunk c run b).numRuns =
      if run.freeBlocksCount + 1 = run.numBlocks then subW chunk.numRuns 1 else chunk.numRuns := by
  unfold blockCleared
  by_cases hlast : run.freeBlocksCount + 1 = run.numBlocks
  · simp [hlast]
  · simp [hlast]

/-! ## what the books are about -/

theorem usedBytes_perm {l k : List ChunkRun} (h : l.Perm k) : usedBytes l = usedBytes k :=
  (h.map _).sum_eq

@[simp] theorem usedBytes_cons (run : ChunkRun) (l : List ChunkRun) :
    usedBytes (run :: l) = run.usedBytes + usedBytes l := by
  unfold usedBytes
  rw [List.map_cons, List.sum_cons]

theorem RunKept.usedBytes_take (h : RunKept c run) (hb : b < run.numBlocks)
    (hclear : bitmapGet run.allocBitmap b = false) :
    (run.take b).usedBytes = run.usedBytes + run.blockSize := by
  show setCount (bitmapSet run.allocBitmap b) run.numBlocks * run.blockSize =
    setCount run.allocBitmap run.numBlocks * run.blockSize + run.blockSize
  rw [setCount_set hb (h.word_lt hb) hclear, Nat.succ_mul]

theorem usedBytes_release (hb : b < run.numBlocks) (hset : bitmapGet run.allocBitmap b = true) :
    run.usedBytes = (run.release b).usedBytes + run.blockSize := by
  show setCount run.allocBitmap run.numBlocks * run.blockSize =
    setCount (bitmapClearBit run.allocBitmap b) run.numBlocks * run.blockSize + run.blockSize
  rw [setCount_clearBit hb hset, Nat.succ_mul]

/-- Different words that are not zero. -/
theorem length_lt_of_nodup {l : List ℕ} {n : ℕ} (hnd : l.Nodup)
    (h : ∀ a ∈ l, 0 < a ∧ a < n) (hn : 0 < n) : l.length < n := by
  have hsub : l ⊆ List.range' 1 (n - 1) := fun a ha => by
    obtain ⟨h1, h2⟩ := h a ha
    exact List.mem_range'_1.mpr ⟨h1, by omega⟩
  have hle := (hnd.subperm hsub).length_le
  rw [List.length_range'] at hle
  omega

namespace ListsKept

theorem open_cases (h : ListsKept chunk) (c : ℕ) :
    chunk.runsFree c = [] ∨ ∃ run, chunk.runsFree c = [run] := by
  have hshort := h.short c
  rcases hl : chunk.runsFree c with _ | ⟨run, _ | ⟨run', rest⟩⟩
  · exact Or.inl rfl
  · exact Or.inr ⟨run, rfl⟩
  · rw [hl] at hshort
    simp at hshort

theorem link (h : ListsKept chunk) (hpos : 0 < classToSize c) (a x : ℕ) :
    ListsKept (linkRun chunk c (newRun c a x)) := by
  refine ⟨fun c' => ?_, fun c' r hr => ?_⟩
  · by_cases he : c' = c
    · subst he
      rw [linkRun_runsFree]
      exact le_rfl
    · simpa [linkRun, he] using h.short c'
  · by_cases he : c' = c
    · subst he
      rw [linkRun_runsFree, List.singleton_append] at hr
      rcases List.mem_cons.mp hr with rfl | hr
      · exact newRun_kept hpos
      · exact h.run c' r (List.mem_append_right _ hr)
    · exact h.run c' r (by simpa [linkRun, he] using hr)

theorem take (h : ListsKept chunk) (hl : chunk.runsFree c = [run])
    (hb : run.firstFree < run.numBlocks) : ListsKept (openRunTaken chunk c run) := by
  have hmem : run ∈ chunk.runsFree c ++ chunk.runsFull c := by rw [hl]; exact List.mem_cons_self
  have hrun := h.run c run hmem
  have hclear := ChunkRun.firstFree_clear hb
  have hothers := openRunTaken_others chunk c run
  refine ⟨fun c' => ?_, fun c' r hr => ?_⟩
  · by_cases he : c' = c
    · subst he
      rcases openRunTaken_lists chunk c' run with ⟨-, h1, -⟩ | ⟨-, h1, -⟩
      · simp [h1]
      · simp [h1]
    · rw [(hothers c' he).1]
      exact h.short c'
  · by_cases he : c' = c
    · subst he
      have hr' : r = run.take run.firstFree ∨ r ∈ chunk.runsFull c' := by
        rcases openRunTaken_lists chunk c' run with ⟨-, h1, h2⟩ | ⟨-, h1, h2⟩
        · rw [h1, h2] at hr
          simpa [or_comm] using hr
        · rw [h1, h2] at hr
          simpa using hr
      rcases hr' with rfl | hr'
      · exact hrun.take hb hclear
      · exact h.run c' r (List.mem_append_right _ hr')
    · rw [(hothers c' he).1, (hothers c' he).2] at hr
      exact h.run c' r hr

theorem clear (h : ListsKept chunk) (hmem : run ∈ chunk.runsFree c ++ chunk.runsFull c)
    (hb : b < run.numBlocks) (hset : bitmapGet run.allocBitmap b = true) :
    ListsKept (blockCleared chunk c run b) := by
  have hothers := blockCleared_others chunk c run b
  refine ⟨fun c' => ?_, fun c' r hr => ?_⟩
  · by_cases he : c' = c
    · subst he
      refine le_trans ?_ (h.short c')
      rcases blockCleared_lists chunk c' run b with ⟨-, h1, -⟩ | ⟨-, h1, -⟩
      · rw [h1, Function.update_self]
        exact List.length_filter_le _ _
      · rw [h1, Function.update_self, length_storeRun]
    · rw [(hothers c' he).1]
      exact h.short c'
  · by_cases he : c' = c
    · subst he
      rcases blockCleared_lists chunk c' run b with ⟨-, h1, h2⟩ | ⟨-, h1, h2⟩
      · rw [h1, h2, Function.update_self, Function.update_self, ← unlinkRun_append] at hr
        exact h.run c' r (mem_unlinkRun.mp hr).1
      · rw [h1, h2, Function.update_self, Function.update_self, ← storeRun_append] at hr
        rcases mem_storeRun.mp hr with ⟨hr, -⟩ | ⟨rfl, -⟩
        · exact h.run c' r hr
        · exact (h.run c' run hmem).release hb hset
    · rw [(hothers c' he).1, (hothers c' he).2] at hr
      exact h.run c' r hr

end ListsKept

namespace Books

theorem lists (h : Books chunk) : ListsKept chunk := ⟨h.short, h.run⟩

theorem class_nodup (h : Books chunk) (c : ℕ) :
    ((chunk.runsFree c ++ chunk.runsFull c).map ChunkRun.addr).Nodup := by
  rcases hl : chunk.runsFree c ++ chunk.runsFull c with _ | ⟨r, l⟩
  · exact List.nodup_nil
  have hmem : r ∈ chunk.runsFree c ++ chunk.runsFull c := by rw [hl]; exact List.mem_cons_self
  have hnd := ((chunkRuns_split chunk (lt_of_classToSize_pos (h.run c r hmem).pos)).map
    ChunkRun.addr).nodup_iff.mp h.nodup
  rw [List.map_append, hl] at hnd
  exact hnd.of_append_left

theorem numRuns_lt (h : Books chunk) : (chunkRuns chunk).length < wordSize := by
  have hlt := length_lt_of_nodup h.nodup (fun a ha => by
    obtain ⟨r, hr, rfl⟩ := List.mem_map.mp ha
    exact h.named r hr) (by decide)
  rwa [List.length_map] at hlt

theorem replaced (h : Books chunk) (hp : (chunkRuns chunk).Perm (run :: rest))
    (hp' : (chunkRuns chunk').Perm (run' :: rest)) (ha : run'.addr = run.addr) :
    (∀ r ∈ chunkRuns chunk', 0 < r.addr ∧ r.addr < wordSize) ∧
      ((chunkRuns chunk').map ChunkRun.addr).Nodup ∧
      (chunkRuns chunk').length = (chunkRuns chunk).length := by
  have hmap : ((chunkRuns chunk').map ChunkRun.addr).Perm ((chunkRuns chunk).map ChunkRun.addr) := by
    have h1 := hp'.map ChunkRun.addr
    rw [List.map_cons, ha, ← List.map_cons] at h1
    exact h1.trans (hp.map ChunkRun.addr).symm
  refine ⟨fun r hr => ?_, hmap.nodup_iff.mpr h.nodup, hp'.length_eq.trans hp.length_eq.symm⟩
  obtain ⟨r₀, hr₀, he⟩ := List.mem_map.mp (hmap.mem_iff.mp (List.mem_map_of_mem hr))
  rw [← he]
  exact h.named r₀ hr₀

theorem link (h : Books chunk) (hl : chunk.runsFree c = []) (hpos : 0 < classToSize c) {a x : ℕ}
    (ha : 0 < a ∧ a < wordSize) (hfresh : FreshRun chunk a) :
    Books (linkRun chunk c (newRun c a x)) := by
  have hp := chunkRuns_linkRun (lt_of_classToSize_pos hpos) hl (newRun c a x)
  have hnamed : ∀ r ∈ chunkRuns (linkRun chunk c (newRun c a x)), 0 < r.addr ∧ r.addr < wordSize := by
    intro r hr
    rcases List.mem_cons.mp (hp.mem_iff.mp hr) with rfl | hr
    · exact ha
    · exact h.named r hr
  have hnd : ((chunkRuns (linkRun chunk c (newRun c a x))).map ChunkRun.addr).Nodup := by
    refine (hp.map ChunkRun.addr).nodup_iff.mpr (List.nodup_cons.mpr ⟨fun hin => ?_, h.nodup⟩)
    obtain ⟨r, hr, he⟩ := List.mem_map.mp hin
    obtain ⟨c', -, hr⟩ := mem_chunkRuns.mp hr
    exact hfresh c' r hr he
  have hlt := length_lt_of_nodup hnd (fun a ha => by
    obtain ⟨r, hr, rfl⟩ := List.mem_map.mp ha
    exact hnamed r hr) (by decide)
  rw [List.length_map, hp.length_eq, List.length_cons] at hlt
  have hlists := h.lists.link hpos a x
  refine ⟨hlists.short, hlists.run, hnamed, hnd, ?_, h.freed, ?_⟩
  · show addW chunk.numRuns 1 = _
    rw [hp.length_eq, List.length_cons, h.counted, addW_eq hlt]
  · have hzero : (newRun c a x).usedBytes = 0 := by
      show setCount (bitmapInit _ false) _ * _ = 0
      rw [setCount_init, Nat.zero_mul]
    rw [usedBytes_perm hp, usedBytes_cons, hzero, Nat.zero_add]
    exact h.balance

theorem take (h : Books chunk) (hl : chunk.runsFree c = [run])
    (hb : run.firstFree < run.numBlocks) : Books (openRunTaken chunk c run) := by
  have hmem : run ∈ chunk.runsFree c ++ chunk.runsFull c := by rw [hl]; exact List.mem_cons_self
  have hrun := h.run c run hmem
  have hclear := ChunkRun.firstFree_clear hb
  obtain ⟨rest, hp, hp'⟩ := chunkRuns_openRunTaken (lt_of_classToSize_pos hrun.pos) hl
  obtain ⟨hnamed, hnd, hlen⟩ := h.replaced hp hp' rfl
  obtain ⟨-, -, hoff, -, hnum⟩ := openRunTaken_fields chunk c run
  obtain ⟨halloc, hfreed⟩ := openRunTaken_bytes chunk c run
  have hlists := h.lists.take hl hb
  refine ⟨hlists.short, hlists.run, hnamed, hnd, ?_, ?_, ?_⟩
  · rw [hnum, hlen, h.counted]
  · rw [hfreed]
    exact h.freed
  · rw [halloc, hfreed, hoff, usedBytes_perm hp', usedBytes_cons, hrun.usedBytes_take hb hclear]
    have hbal := (addW_modEq _ run.blockSize).trans (h.balance.add_right run.blockSize)
    rw [usedBytes_perm hp, usedBytes_cons] at hbal
    convert hbal using 1
    ring

theorem clear (h : Books chunk) (hmem : run ∈ chunk.runsFree c ++ chunk.runsFull c)
    (hb : b < run.numBlocks) (hset : bitmapGet run.allocBitmap b = true) :
    Books (blockCleared chunk c run b) := by
  have hrun := h.run c run hmem
  obtain ⟨rest, hp, hp'⟩ := chunkRuns_blockCleared (b := b) (lt_of_classToSize_pos hrun.pos)
    (h.class_nodup c) hmem
  obtain ⟨-, -, hoff, -⟩ := blockCleared_fields chunk c run b
  obtain ⟨halloc, hfreed⟩ := blockCleared_bytes chunk c run b
  have hlists := h.lists.clear hmem hb hset
  have hfreedLt : (blockCleared chunk c run b).freedBytes < wordSize := by
    rw [hfreed]
    exact addW_lt _ _
  have hbal : ∀ used, usedBytes (chunkRuns chunk) = used + run.blockSize →
      (blockCleared chunk c run b).allocatedBytes ≡ (blockCleared chunk c run b).freedBytes +
        (blockCleared chunk c run b).usableOffset + used [MOD wordSize] := by
    intro used hused
    have hbal := h.balance
    rw [hused] at hbal
    have hadd := ((addW_modEq chunk.freedBytes run.blockSize).add_right chunk.usableOffset).add_right
      used
    rw [halloc, hfreed, hoff]
    refine hbal.trans ?_
    convert hadd.symm using 1
    ring
  by_cases hlast : run.freeBlocksCount + 1 = run.numBlocks
  · -- it was the last block: the run goes
    rw [if_pos hlast] at hp'
    have hone : run.usedBytes = run.blockSize := by
      have hcount := hrun.count
      have : setCount run.allocBitmap run.numBlocks = 1 := by omega
      unfold ChunkRun.usedBytes
      rw [this, Nat.one_mul]
    refine ⟨hlists.short, hlists.run, fun r hr => ?_, ?_, ?_, hfreedLt, hbal _ ?_⟩
    · exact h.named r (hp.mem_iff.mpr (List.mem_cons_of_mem _ (hp'.mem_iff.mp hr)))
    · have hnd := (hp.map ChunkRun.addr).nodup_iff.mp h.nodup
      exact (hp'.map ChunkRun.addr).nodup_iff.mpr (List.nodup_cons.mp hnd).2
    · have hlen := hp.length_eq
      have hlt := h.numRuns_lt
      rw [List.length_cons] at hlen
      rw [blockCleared_numRuns, if_pos hlast, hp'.length_eq, h.counted, subW_eq (by omega) hlt]
      omega
    · rw [usedBytes_perm hp, usedBytes_perm hp', usedBytes_cons, hone, Nat.add_comm]
  · rw [if_neg hlast] at hp'
    obtain ⟨hnamed, hnd, hlen⟩ := h.replaced hp hp' rfl
    refine ⟨hlists.short, hlists.run, hnamed, hnd, ?_, hfreedLt, hbal _ ?_⟩
    · rw [blockCleared_numRuns, if_neg hlast, hlen, h.counted]
    · rw [usedBytes_perm hp, usedBytes_perm hp', usedBytes_cons, usedBytes_cons,
        usedBytes_release hb hset]
      ring

end Books

/-! ## the two functions -/

/-- The class has no open run, and libc answers both requests for a new one. -/
structure OpensRun (chunk : Chunk) (c : ℕ) (env : MetaEnv) (a x : ℕ) : Prop where
  none_open : chunk.runsFree c = []
  run : env.run = some a
  bitmap : env.bitmap = some x
  pos : 0 < classToSize c

/-- What `chunk_alloc_small` can do: the chunk it leaves and the pointer it returns. -/
inductive SmallAlloc (chunk : Chunk) (c : ℕ) (env : MetaEnv) : Chunk → Option ℕ → Prop where
  | refused : SmallAlloc chunk c env chunk none
  | blockless {a x : ℕ} (h : OpensRun chunk c env a x) (hz : (newRun c a x).numBlocks = 0) :
    SmallAlloc chunk c env (linkRun chunk c (newRun c a x)) none
  | first {a x : ℕ} (h : OpensRun chunk c env a x) (hb : 0 < (newRun c a x).numBlocks) :
    SmallAlloc chunk c env (openRunTaken (linkRun chunk c (newRun c a x)) c (newRun c a x))
      (some (smallAddr chunk (newRun c a x)))
  | next {run : ChunkRun} (hl : chunk.runsFree c = [run]) (hb : run.firstFree < run.numBlocks) :
    SmallAlloc chunk c env (openRunTaken chunk c run) (some (smallAddr chunk run))

theorem chunkTakeBlock_full (h : run.numBlocks ≤ run.firstFree) (calls : List LibcCall) :
    chunkTakeBlock chunk c run calls = ⟨chunk, none, calls⟩ := if_pos h

/-- The class gets a new run. -/
theorem chunkAllocSmall_opens {env : MetaEnv} {a x : ℕ} (h : OpensRun chunk c env a x) :
    chunkAllocSmall chunk c env = chunkTakeBlock (linkRun chunk c (newRun c a x)) c (newRun c a x)
      [.malloc a, .calloc x] := by
  obtain ⟨hl, hrun, hbitmap, hpos⟩ := h
  unfold chunkAllocSmall
  simp only [chunkFindAvailableRun, hl, hrun, hbitmap, List.head?_nil, Nat.ne_of_gt hpos, if_false,
    List.nil_append]
  rfl

theorem newRun_firstFree_lt {a x : ℕ} (hb : 0 < (newRun c a x).numBlocks) :
    (newRun c a x).firstFree < (newRun c a x).numBlocks :=
  lt_of_eq_of_lt (bitmapFindFirstClear_init hb) hb

/-- No run can be opened for the class: there is an open one, or a request fails. -/
theorem chunkAllocSmall_unopened {env : MetaEnv} (hno : ∀ a x, ¬ OpensRun chunk c env a x) :
    chunkAllocSmall chunk c env = ⟨chunk, none, []⟩ ∨
      (∃ a, env.run = some a ∧
        chunkAllocSmall chunk c env = ⟨chunk, none, [.malloc a, .free a]⟩) ∨
      ∃ run, (chunk.runsFree c).head? = some run ∧
        chunkAllocSmall chunk c env = chunkTakeBlock chunk c run [] := by
  rcases hl : (chunk.runsFree c).head? with _ | run
  · rcases env with ⟨_ | a, bitmap⟩
    · exact Or.inl (by simp only [chunkAllocSmall, chunkFindAvailableRun, hl])
    refine Or.inr (Or.inl ⟨a, rfl, ?_⟩)
    by_cases hz : classToSize c = 0
    · simp only [chunkAllocSmall, chunkFindAvailableRun, hl, hz, if_true]
    rcases bitmap with _ | x
    · simp only [chunkAllocSmall, chunkFindAvailableRun, hl, hz, if_false]
    · exact absurd ⟨List.head?_eq_none_iff.mp hl, rfl, rfl, Nat.pos_of_ne_zero hz⟩ (hno a x)
  · exact Or.inr (Or.inr ⟨run, rfl, by simp only [chunkAllocSmall, chunkFindAvailableRun, hl]⟩)

theorem chunkAllocSmall_outcome (h : ListsKept chunk) (c : ℕ) (env : MetaEnv) :
    SmallAlloc chunk c env (chunkAllocSmall chunk c env).chunk (chunkAllocSmall chunk c env).ptr := by
  by_cases hopens : ∃ a x, OpensRun chunk c env a x
  · obtain ⟨a, x, hopens⟩ := hopens
    rw [chunkAllocSmall_opens hopens]
    rcases Nat.eq_zero_or_pos (newRun c a x).numBlocks with hn | hn
    · rw [chunkTakeBlock_full (hn ▸ Nat.zero_le _)]
      exact .blockless hopens hn
    · rw [chunkTakeBlock_taken (linkRun_runsFree ..) (newRun_firstFree_lt hn), smallAddr_linkRun]
      dsimp only
      exact .first hopens hn
  · have hno : ∀ a x, ¬ OpensRun chunk c env a x := fun a x h => hopens ⟨a, x, h⟩
    rcases chunkAllocSmall_unopened hno with he | ⟨a, -, he⟩ | ⟨run, hl, he⟩
    · rw [he]
      exact .refused
    · rw [he]
      exact .refused
    · rw [he]
      obtain ⟨run', hl'⟩ := (h.open_cases c).resolve_left fun hnil => by simp [hnil] at hl
      obtain rfl : run' = run := by simpa [hl'] using hl
      rcases Nat.lt_or_ge run'.firstFree run'.numBlocks with hb | hb
      · rw [chunkTakeBlock_taken hl' hb]
        dsimp only
        exact .next hl' hb
      · rw [chunkTakeBlock_full hb]
        exact .refused

theorem ListsKept.alloc (h : ListsKept chunk) (c : ℕ) (env : MetaEnv) :
    ListsKept (chunkAllocSmall chunk c env).chunk := by
  have hout := chunkAllocSmall_outcome h c env
  generalize (chunkAllocSmall chunk c env).chunk = chunk', (chunkAllocSmall chunk c env).ptr = p
    at hout
  cases hout with
  | refused => exact h
  | blockless hopens _ => exact h.link hopens.pos ..
  | first hopens hb => exact (h.link hopens.pos ..).take (linkRun_runsFree ..) (newRun_firstFree_lt hb)
  | next hl hb => exact h.take hl hb

theorem ListsKept.free (h : ListsKept chunk) (ptr c : ℕ) :
    ListsKept (chunkFreeSmall chunk ptr c).1 := by
  rcases chunkFreeSmall_cases (h.run c) ptr with he | ⟨-, run, hmem, b, hb, hset, -, -, he⟩
  · rw [he]
    exact h
  · rw [he]
    exact h.clear hmem hb hset

/-- The record that libc hands out for a run: an address of its own. -/
def MetaEnv.Fresh (env : MetaEnv) (chunk : Chunk) : Prop :=
  ∀ a, env.run = some a → (0 < a ∧ a < wordSize) ∧ FreshRun chunk a

theorem Books.alloc (h : Books chunk) (c : ℕ) {env : MetaEnv} (henv : env.Fresh chunk) :
    Books (chunkAllocSmall chunk c env).chunk := by
  have hout := chunkAllocSmall_outcome h.lists c env
  generalize (chunkAllocSmall chunk c env).chunk = chunk', (chunkAllocSmall chunk c env).ptr = p
    at hout
  cases hout with
  | refused => exact h
  | blockless hopens _ =>
    obtain ⟨ha, hfresh⟩ := henv _ hopens.run
    exact h.link hopens.none_open hopens.pos ha hfresh
  | first hopens hb =>
    obtain ⟨ha, hfresh⟩ := henv _ hopens.run
    exact (h.link hopens.none_open hopens.pos ha hfresh).take (linkRun_runsFree ..)
      (newRun_firstFree_lt hb)
  | next hl hb => exact h.take hl hb

theorem Books.free (h : Books chunk) (ptr c : ℕ) : Books (chunkFreeSmall chunk ptr c).1 := by
  rcases chunkFreeSmall_cases (h.run c) ptr with he | ⟨-, run, hmem, b, hb, hset, -, -, he⟩
  · rw [he]
    exact h
  · rw [he]
    exact h.clear hmem hb hset

theorem Books.create {size base : ℕ} (hc : chunkCreate size (some base) = some chunk) :
    Books chunk := by
  cases hc
  have hnil : ∀ c ∈ List.range NUM_SIZE_CLASSES, ([] ++ [] : List ChunkRun) = [] := fun _ _ => rfl
  have hruns : binned (fun _ : ℕ => ([] ++ [] : List ChunkRun)) (List.range NUM_SIZE_CLASSES) = [] :=
    List.flatMap_eq_nil_iff.mpr hnil
  refine ⟨fun _ => Nat.zero_le 1, fun _ r hr => absurd hr List.not_mem_nil, fun r hr => ?_, ?_, ?_,
    Nat.pos_of_ne_zero (by decide), ?_⟩
  · unfold chunkRuns at hr
    rw [hruns] at hr
    exact absurd hr List.not_mem_nil
  · unfold chunkRuns
    rw [hruns]
    exact List.nodup_nil
  · unfold chunkRuns
    rw [hruns]
    rfl
  · unfold chunkRuns
    rw [hruns]
    show alignUp SIZEOF_CHUNK 16 ≡ 0 + alignUp SIZEOF_CHUNK 16 + 0 [MOD wordSize]
    rw [Nat.zero_add, Nat.add_zero]

end

/-- A call of one of the two functions: any pointer, any class, metadata requests that may fail. -/
def ChunkOp.Called (s : ChunkSys) : ChunkOp → Prop
  | .alloc c env => c < NUM_SIZE_CLASSES ∧ env.Fresh s.chunk
  | .free _ c => c < NUM_SIZE_CLASSES

/-- The four counters agree. -/
structure ChunkSys.Balanced (s : ChunkSys) : Prop where
  blocks : ∀ r ∈ chunkRuns s.chunk,
    r.freeBlocksCount + setCount r.allocBitmap r.numBlocks = r.numBlocks
  runs : s.chunk.numRuns = ((List.range NUM_SIZE_CLASSES).map fun c =>
    (s.chunk.runsFree c).length + (s.chunk.runsFull c).length).sum
  bytes : subW s.chunk.allocatedBytes s.chunk.freedBytes = (s.chunk.usableOffset +
    ((chunkRuns s.chunk).map fun r => setCount r.allocBitmap r.numBlocks * r.blockSize).sum) %
      wordSize

theorem Books.balanced {s : ChunkSys} (h : Books s.chunk) : s.Balanced := by
  refine ⟨fun r hr => ?_, ?_, ?_⟩
  · obtain ⟨c, -, hr⟩ := mem_chunkRuns.mp hr
    exact (h.run c r hr).count
  · rw [h.counted]
    unfold chunkRuns binned
    rw [List.length_flatMap]
    exact congrArg List.sum (List.map_congr_left fun c _ => List.length_append)
  · have hsub := subW_modEq s.chunk.allocatedBytes (Nat.le_of_lt h.freed)
    have hadd : subW s.chunk.allocatedBytes s.chunk.freedBytes + s.chunk.freedBytes ≡
        s.chunk.usableOffset + usedBytes (chunkRuns s.chunk) + s.chunk.freedBytes
          [MOD wordSize] := by
      refine (hsub.trans h.balance).trans ?_
      rw [show s.chunk.freedBytes + s.chunk.usableOffset + usedBytes (chunkRuns s.chunk) =
        s.chunk.usableOffset + usedBytes (chunkRuns s.chunk) + s.chunk.freedBytes by ring]
    exact (Nat.mod_eq_of_lt (subW_lt _ _)).symm.trans hadd.add_right_cancel'

theorem ChunkSys.books_step (s : ChunkSys) (op : ChunkOp) (h : Books s.chunk)
    (hop : op.Called s) : Books (s.step op).chunk := by
  cases op with
  | alloc c env => exact h.alloc c hop.2
  | free ptr c => exact h.free ptr c

/-- **The books balance** after every run of calls, whatever is freed and whichever metadata
request fails. -/
theorem books_balanced {size base : ℕ} {chunk : Chunk} {ops : List ChunkOp}
    (hc : chunkCreate size (some base) = some chunk)
    (hcalls : Runs.Each ChunkSys.step ChunkOp.Called ⟨chunk, []⟩ ops) :
    Runs.Always ChunkSys.step ChunkSys.Balanced ⟨chunk, []⟩ ops := by
  have hrun : Runs.Always ChunkSys.step (fun s => Books s.chunk) ⟨chunk, []⟩ ops :=
    Runs.inv_always ChunkSys.books_step (Books.create hc) hcalls
  exact hrun.mono fun s hs => hs.balanced

/-- A block is taken, freed under another class and then twice, and a metadata request fails. -/
theorem books_balanced_run :
    Runs.Always ChunkSys.step ChunkSys.Balanced ⟨firstChunk, []⟩
      [.alloc 0 ⟨some 100, some 200⟩, .free (CHUNK_ALIGN + 1600) 1, .free (CHUNK_ALIGN + 1600) 0,
        .free (CHUNK_ALIGN + 1600) 0, .alloc 1 ⟨none, none⟩] := by
  have hc : chunkCreate CHUNK_DEFAULT_SIZE (some CHUNK_ALIGN) = some firstChunk := rfl
  have h0 : 0 < NUM_SIZE_CLASSES := by decide
  have h1 : 1 < NUM_SIZE_CLASSES := by decide
  refine books_balanced hc ⟨⟨h0, ?_⟩, h1, h0, h0, ⟨h1, fun a ha => nomatch ha⟩, trivial⟩
  rintro a ⟨⟩
  exact ⟨by decide, firstChunk_fresh 100⟩

end Nomalloc
