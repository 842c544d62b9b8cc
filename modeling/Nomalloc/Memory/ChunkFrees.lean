import Nomalloc.Memory.ChunkBooks

/-!
# Which run a free finds

`chunk_free_small` takes the number of a run from the address, and looks the number up in
`runs_free` followed by `runs_full`.  `chunk_alloc_small` computes every address for number 0, so
a free always finds the first run of its class, whichever run the block is of.

* `BlockSys`            a chunk and the blocks its callers hold, with the run and the bit each was
                        handed out from;
* `FreesExactly`        freeing a block clears its bit and touches nothing else;
* `frees_exactly_iff`   all blocks held can be freed exactly as long as no class gets a second run.
-/

namespace Nomalloc

/-- A block as `chunk_alloc_small` handed it out: the address, the class, the record of the run
and the bit. -/
structure HeldBlock where
  ptr : ℕ
  c : ℕ
  run : ℕ
  bit : ℕ
deriving DecidableEq

/-- A chunk and the blocks its callers hold. -/
structure BlockSys where
  chunk : Chunk
  held : List HeldBlock

inductive BlockOp where
  | alloc (c : ℕ) (env : MetaEnv)
  | free (x : HeldBlock)

/-- The run that `chunk_alloc_small` takes a block of. -/
def chunkRunUsed (chunk : Chunk) (c : ℕ) (env : MetaEnv) : Option ChunkRun :=
  match chunkFindAvailableRun chunk c with
  | some run => some run
  | none => env.run.bind fun a => env.bitmap.map fun x => newRun c a x

/-- The block that `chunk_alloc_small` hands out. -/
def chunkBlockTaken (chunk : Chunk) (c : ℕ) (env : MetaEnv) : Option HeldBlock :=
  (chunkAllocSmall chunk c env).ptr.bind fun ptr =>
    (chunkRunUsed chunk c env).map fun run => ⟨ptr, c, run.addr, run.firstFree⟩

def BlockSys.step (s : BlockSys) : BlockOp → BlockSys
  | .alloc c env => ⟨(chunkAllocSmall s.chunk c env).chunk,
    (chunkBlockTaken s.chunk c env).toList ++ s.held⟩
  | .free x => ⟨(chunkFreeSmall s.chunk x.ptr x.c).1, s.held.erase x⟩

/-- Only blocks that are held are freed; a request for metadata may fail. -/
def BlockOp.Legal (s : BlockSys) : BlockOp → Prop
  | .alloc c env => c < NUM_SIZE_CLASSES ∧ env.Fresh s.chunk
  | .free x => x ∈ s.held

/-- The class has an open run, or no run at all, or libc gives none. -/
def BlockOp.NoSecondOfClass (s : BlockSys) : BlockOp → Prop
  | .alloc c env =>
    s.chunk.runsFree c ≠ [] ∨ s.chunk.runsFull c = [] ∨ env.run = none ∨ env.bitmap = none
  | .free _ => True

/-- What is to become of the run of a block that is freed: its bit is cleared and its free count
goes up by one, or it is released with its last block; no other run changes. -/
structure ClearedOnly (chunk chunk' : Chunk) (run : ChunkRun) (b : ℕ) : Prop where
  others : ∀ r : ChunkRun, r.addr ≠ run.addr → (r ∈ chunkRuns chunk' ↔ r ∈ chunkRuns chunk)
  released : run.freeBlocksCount + 1 = run.numBlocks → ∀ r ∈ chunkRuns chunk', r.addr ≠ run.addr
  cleared : run.freeBlocksCount + 1 ≠ run.numBlocks →
    ∃! r, r ∈ chunkRuns chunk' ∧ r.addr = run.addr ∧
      r.freeBlocksCount = run.freeBlocksCount + 1 ∧
      ∀ k, bitmapGet r.allocBitmap k = (!decide (k = b) && bitmapGet run.allocBitmap k)

/-- Freeing the block clears exactly the bit it was handed out from. -/
def FreesExactly (chunk : Chunk) (x : HeldBlock) : Prop :=
  ∃ run ∈ chunk.runsFree x.c ++ chunk.runsFull x.c, run.addr = x.run ∧
    bitmapGet run.allocBitmap x.bit = true ∧
    ClearedOnly chunk (chunkFreeSmall chunk x.ptr x.c).1 run x.bit

/-- Every block held can be freed exactly. -/
def BlockSys.FreesRight (s : BlockSys) : Prop := ∀ x ∈ s.held, FreesExactly s.chunk x

structure BlockSys.Inv (s : BlockSys) : Prop where
  books : Books s.chunk
  mapped : Mapped s.chunk
  base : s.chunk.baseAddr ≠ 0
  single : ∀ c, (s.chunk.runsFree c ++ s.chunk.runsFull c).length ≤ 1
  used : ∀ c, ∀ r ∈ s.chunk.runsFull c, r.freeBlocksCount < r.numBlocks
  nodup : s.held.Nodup
  marked : ∀ x ∈ s.held, Allocated s.chunk x.c x.run x.bit ∧
    x.ptr = usableBase s.chunk + x.bit * classToSize x.c
  held : ∀ c a b, Allocated s.chunk c a b → ∃ x ∈ s.held, x.c = c ∧ x.run = a ∧ x.bit = b

section
variable {chunk : Chunk} {c b : ℕ} {run : ChunkRun} {x : HeldBlock}

/-! ## one free -/

theorem blockCleared_clearedOnly (h : Books chunk)
    (hmem : run ∈ chunk.runsFree c ++ chunk.runsFull c) :
    ClearedOnly chunk (blockCleared chunk c run b) run b := by
  have hrun := h.run c run hmem
  obtain ⟨rest, hp, hp'⟩ := chunkRuns_blockCleared (b := b) (lt_of_classToSize_pos hrun.pos)
    (h.class_nodup c) hmem
  have hnd := (hp.map ChunkRun.addr).nodup_iff.mp h.nodup
  have hrest : ∀ r ∈ rest, r.addr ≠ run.addr := fun r hr he =>
    (List.nodup_cons.mp hnd).1 (he ▸ List.mem_map_of_mem hr)
  have hold : ∀ r : ChunkRun, r.addr ≠ run.addr → (r ∈ chunkRuns chunk ↔ r ∈ rest) := by
    intro r ha
    rw [hp.mem_iff, List.mem_cons, or_iff_right fun he => ha (congrArg ChunkRun.addr he)]
  by_cases hlast : run.freeBlocksCount + 1 = run.numBlocks
  · rw [if_pos hlast] at hp'
    exact ⟨fun r ha => by rw [hp'.mem_iff, hold r ha],
      fun _ r hr => hrest r (hp'.mem_iff.mp hr), fun hno => absurd hlast hno⟩
  · rw [if_neg hlast] at hp'
    refine ⟨fun r ha => ?_, fun hno => absurd hno hlast, fun _ => ⟨run.release b, ?_, ?_⟩⟩
    · have hne : r ≠ run.release b := fun he => ha (by rw [he, ChunkRun.release_addr])
      rw [hp'.mem_iff, hold r ha, List.mem_cons, or_iff_right hne]
    · exact ⟨hp'.mem_iff.mpr List.mem_cons_self, rfl, hrun.release_count,
        ChunkRun.bit_release run b⟩
    · rintro r ⟨hr, ha, -⟩
      rcases List.mem_cons.mp (hp'.mem_iff.mp hr) with rfl | hr
      · rfl
      · exact absurd ha (hrest r hr)

/-- A free looks up the first run of its class. -/
theorem chunkFreeSmall_first (hm : Mapped chunk) (hbase : chunk.baseAddr ≠ 0)
    (hrun : RunKept x.c run) (hf : chunkFindRun chunk x.c 0 = some run)
    (hb : x.bit < run.numBlocks) (hset : bitmapGet run.allocBitmap x.bit = true)
    (hptr : x.ptr = usableBase chunk + x.bit * classToSize x.c) :
    (chunkFreeSmall chunk x.ptr x.c).1 = blockCleared chunk x.c run x.bit := by
  have hend := hrun.block_end_le hb
  have hpos := hrun.pos
  rw [hrun.size] at hend
  have hlt : x.bit * classToSize x.c < CHUNK_RUN_SIZE := by
    unfold CHUNK_RUN_SIZE
    omega
  have hoff : blockOffset chunk x.ptr = x.bit * classToSize x.c := by
    rw [hptr]
    exact blockOffset_eq hm (by omega)
  have hne : x.ptr ≠ 0 := by
    rw [hptr]
    unfold usableBase
    omega
  rw [chunkFreeSmall_eq hrun hne (by rw [hoff, Nat.div_eq_of_lt hlt]; exact hf)
    (by rw [hoff, Nat.mod_eq_of_lt hlt, hrun.size]; exact Nat.mul_div_cancel x.bit hpos) hb hset]

/-- A free that finds another run does not free the block. -/
theorem not_freesExactly (h : Books chunk) {r₀ : ChunkRun}
    (hf : chunkFindRun chunk x.c (blockOffset chunk x.ptr / CHUNK_RUN_SIZE) = some r₀)
    (hne : r₀.addr ≠ x.run) : ¬ FreesExactly chunk x := by
  rintro ⟨run, hmem, ha, hset, hcleared⟩
  have hc := lt_of_classToSize_pos (h.run x.c run hmem).pos
  have hlinked : run ∈ chunkRuns chunk := mem_chunkRuns.mpr ⟨x.c, hc, hmem⟩
  -- the run of the block is left as it is
  have hkeep : run ∈ chunkRuns (chunkFreeSmall chunk x.ptr x.c).1 := by
    rcases chunkFreeSmall_cases (h.run x.c) x.ptr with he | ⟨-, r, hr, b, -, -, hf', -, he⟩
    · rw [he]
      exact hlinked
    · rw [hf] at hf'
      obtain rfl := Option.some.inj hf'
      rw [he]
      refine ((blockCleared_clearedOnly h hr).others run ?_).mpr hlinked
      rw [ha]
      exact hne.symm
  by_cases hlast : run.freeBlocksCount + 1 = run.numBlocks
  · exact hcleared.released hlast run hkeep rfl
  · obtain ⟨r, ⟨hr, hra, hcount, -⟩, -⟩ := hcleared.cleared hlast
    have hnd := (h.free x.ptr x.c).nodup
    obtain rfl := List.inj_on_of_nodup_map hnd hr hkeep hra
    omega

/-- A run with fewer free blocks than it has holds one in use. -/
theorem RunKept.exists_set (h : RunKept c run) (hused : run.freeBlocksCount < run.numBlocks) :
    ∃ b < run.numBlocks, bitmapGet run.allocBitmap b = true := by
  have hpos : 0 < setCount run.allocBitmap run.numBlocks := by
    have := h.count
    omega
  exact exists_set_of_pos hpos

/-- The two lists of a class are searched as one. -/
theorem chunkFindRun_eq (chunk : Chunk) (c i : ℕ) :
    chunkFindRun chunk c i = (chunk.runsFree c ++ chunk.runsFull c)[i]? := by
  unfold chunkFindRun
  rcases Nat.lt_or_ge i (chunk.runsFree c).length with hi | hi
  · rw [List.getElem?_append_left hi, List.getElem?_eq_getElem hi]
  · rw [List.getElem?_append_right hi, List.getElem?_eq_none hi]

theorem chunkRunUsed_opens {env : MetaEnv} {a y : ℕ} (h : OpensRun chunk c env a y) :
    chunkRunUsed chunk c env = some (newRun c a y) := by
  unfold chunkRunUsed chunkFindAvailableRun
  rw [h.none_open, h.run, h.bitmap]
  rfl

theorem chunkRunUsed_next {env : MetaEnv} (hl : chunk.runsFree c = [run]) :
    chunkRunUsed chunk c env = some run := by
  unfold chunkRunUsed chunkFindAvailableRun
  rw [hl]
  rfl

/-- No record is linked or unlinked when a block is taken. -/
theorem length_openRunTaken (hl : chunk.runsFree c = [run]) (c' : ℕ) :
    ((openRunTaken chunk c run).runsFree c' ++ (openRunTaken chunk c run).runsFull c').length =
      (chunk.runsFree c' ++ chunk.runsFull c').length := by
  by_cases he : c' = c
  · rw [he, hl]
    rcases openRunTaken_lists chunk c run with ⟨-, h1, h2⟩ | ⟨-, h1, h2⟩
    · simp only [h1, h2, Function.update_self, List.nil_append, List.length_append,
        List.length_singleton]
      omega
    · simp only [h1, h2, Function.update_self, List.length_append, List.length_singleton]
  · obtain ⟨hfree, hfull⟩ := openRunTaken_others chunk c run c' he
    rw [hfree, hfull]

/-- What is filed as full was so, or has no free block left. -/
theorem mem_runsFull_openRunTaken {c' : ℕ} {r : ChunkRun}
    (hr : r ∈ (openRunTaken chunk c run).runsFull c') :
    r ∈ chunk.runsFull c' ∨ (r.numBlocks = run.numBlocks ∧ r.freeBlocksCount = 0) := by
  by_cases he : c' = c
  · rw [he] at hr ⊢
    rcases openRunTaken_lists chunk c run with ⟨hzero, -, h2⟩ | ⟨-, -, h2⟩
    · rw [h2, Function.update_self] at hr
      rcases List.mem_append.mp hr with hr | hr
      · exact Or.inl hr
      · rw [List.mem_singleton.mp hr]
        exact Or.inr ⟨rfl, hzero⟩
    · exact Or.inl (h2 ▸ hr)
  · rw [(openRunTaken_others chunk c run c' he).2] at hr
    exact Or.inl hr

/-- No record is linked when a block is cleared. -/
theorem length_blockCleared_le (chunk : Chunk) (c : ℕ) (run : ChunkRun) (b c' : ℕ) :
    ((blockCleared chunk c run b).runsFree c' ++ (blockCleared chunk c run b).runsFull c').length ≤
      (chunk.runsFree c' ++ chunk.runsFull c').length := by
  by_cases he : c' = c
  · rw [he]
    rcases blockCleared_lists chunk c run b with ⟨-, h1, h2⟩ | ⟨-, h1, h2⟩
    · simp only [h1, h2, Function.update_self, ← unlinkRun_append]
      exact List.length_filter_le _ _
    · simp only [h1, h2, Function.update_self, ← storeRun_append, length_storeRun]
      exact le_rfl
  · obtain ⟨hfree, hfull⟩ := blockCleared_others chunk c run b c' he
    rw [hfree, hfull]

/-- What is filed as full was so, or is the run with a block in use beside the one cleared. -/
theorem mem_runsFull_blockCleared {c' : ℕ} {r : ChunkRun}
    (hr : r ∈ (blockCleared chunk c run b).runsFull c') :
    r ∈ chunk.runsFull c' ∨ (r = run.release b ∧ run.freeBlocksCount + 1 ≠ run.numBlocks) := by
  by_cases he : c' = c
  · rw [he] at hr ⊢
    rcases blockCleared_lists chunk c run b with ⟨-, -, h2⟩ | ⟨hlast, -, h2⟩
    · rw [h2, Function.update_self] at hr
      exact Or.inl (mem_unlinkRun.mp hr).1
    · rw [h2, Function.update_self] at hr
      rcases mem_storeRun.mp hr with ⟨hr, -⟩ | ⟨rfl, -⟩
      · exact Or.inl hr
      · exact Or.inr ⟨rfl, hlast⟩
  · rw [(blockCleared_others chunk c run b c' he).2] at hr
    exact Or.inl hr

end

namespace BlockSys

variable {s : BlockSys} {c : ℕ} {run : ChunkRun} {x : HeldBlock} {op : BlockOp}

/-! ## the invariant -/

theorem Inv.run_of_held (h : s.Inv) (hx : x ∈ s.held) :
    ∃ run, s.chunk.runsFree x.c ++ s.chunk.runsFull x.c = [run] ∧ run.addr = x.run ∧
      x.bit < run.numBlocks ∧ bitmapGet run.allocBitmap x.bit = true := by
  obtain ⟨run, hmem, ha, hb, hset⟩ := (h.marked x hx).1
  have hone := h.single x.c
  rcases hl : s.chunk.runsFree x.c ++ s.chunk.runsFull x.c with _ | ⟨r, l⟩
  · rw [hl] at hmem
    exact absurd hmem List.not_mem_nil
  · rw [hl, List.length_cons] at hone
    obtain rfl := List.eq_nil_of_length_eq_zero (Nat.le_zero.mp (Nat.le_of_succ_le_succ hone))
    rw [hl] at hmem
    obtain rfl := List.mem_singleton.mp hmem
    exact ⟨run, rfl, ha, hb, hset⟩

theorem Inv.free_eq (h : s.Inv) (hx : x ∈ s.held) :
    ∃ run ∈ s.chunk.runsFree x.c ++ s.chunk.runsFull x.c, run.addr = x.run ∧
      x.bit < run.numBlocks ∧ bitmapGet run.allocBitmap x.bit = true ∧
      (chunkFreeSmall s.chunk x.ptr x.c).1 = blockCleared s.chunk x.c run x.bit := by
  obtain ⟨run, hl, ha, hb, hset⟩ := h.run_of_held hx
  have hmem : run ∈ s.chunk.runsFree x.c ++ s.chunk.runsFull x.c := by
    rw [hl]
    exact List.mem_singleton_self run
  have hf : chunkFindRun s.chunk x.c 0 = some run := by
    rw [chunkFindRun_eq, hl]
    rfl
  exact ⟨run, hmem, ha, hb, hset, chunkFreeSmall_first h.mapped h.base (h.books.run x.c run hmem) hf
    hb hset (h.marked x hx).2⟩

theorem Inv.freesRight (h : s.Inv) : s.FreesRight := by
  intro x hx
  obtain ⟨run, hmem, ha, hb, hset, he⟩ := h.free_eq hx
  refine ⟨run, hmem, ha, hset, ?_⟩
  rw [he]
  exact blockCleared_clearedOnly h.books hmem

theorem Inv.link (h : s.Inv) {env : MetaEnv} {a y : ℕ} (hopens : OpensRun s.chunk c env a y)
    (hfull : s.chunk.runsFull c = []) (henv : env.Fresh s.chunk) :
    (⟨linkRun s.chunk c (newRun c a y), s.held⟩ : BlockSys).Inv := by
  obtain ⟨ha, hfresh⟩ := henv a hopens.run
  have hiff : ∀ c' a' b', Allocated (linkRun s.chunk c (newRun c a y)) c' a' b' ↔
      Allocated s.chunk c' a' b' := fun c' a' b' => allocated_linkRun hopens.none_open c' a' b'
  refine ⟨h.books.link hopens.none_open hopens.pos ha hfresh, ⟨h.mapped.offset, h.mapped.large,
    h.mapped.fits⟩, h.base, fun c' => ?_, h.used, h.nodup, fun x hx => ?_, fun c' a' b' hm => ?_⟩
  · by_cases he : c' = c
    · subst he
      show ((linkRun s.chunk c' (newRun c' a y)).runsFree c' ++ s.chunk.runsFull c').length ≤ 1
      rw [linkRun_runsFree, hfull]
      exact le_rfl
    · simpa [linkRun, he] using h.single c'
  · exact ⟨(hiff ..).mpr (h.marked x hx).1, (h.marked x hx).2⟩
  · exact h.held c' a' b' ((hiff ..).mp hm)

theorem Inv.take (h : s.Inv) (hl : s.chunk.runsFree c = [run]) (hb : run.firstFree < run.numBlocks) :
    (⟨openRunTaken s.chunk c run,
      ⟨smallAddr s.chunk run, c, run.addr, run.firstFree⟩ :: s.held⟩ : BlockSys).Inv := by
  have hmem : run ∈ s.chunk.runsFree c ++ s.chunk.runsFull c := by
    rw [hl]
    exact List.mem_cons_self
  have hrun := h.books.run c run hmem
  have hclear := ChunkRun.firstFree_clear hb
  have hiff := allocated_openRunTaken hl hrun hb
  obtain ⟨hbase, hsize, hoff, -, -⟩ := openRunTaken_fields s.chunk c run
  have husable : usableBase (openRunTaken s.chunk c run) = usableBase s.chunk := by
    unfold usableBase
    rw [hbase, hoff]
  have hnew : ¬ Allocated s.chunk c run.addr run.firstFree := by
    rintro ⟨r, hr, ha, -, hset⟩
    rw [List.inj_on_of_nodup_map (h.books.class_nodup c) hr hmem ha, hclear] at hset
    exact absurd hset (by decide)
  have hbooks : Books (openRunTaken s.chunk c run) := h.books.take hl hb
  have hsingle : ∀ c', ((openRunTaken s.chunk c run).runsFree c' ++
      (openRunTaken s.chunk c run).runsFull c').length ≤ 1 :=
    fun c' => (length_openRunTaken hl c').trans_le (h.single c')
  have hused : ∀ c', ∀ r ∈ (openRunTaken s.chunk c run).runsFull c',
      r.freeBlocksCount < r.numBlocks := by
    intro c' r hr
    rcases mem_runsFull_openRunTaken hr with hr | ⟨hnum, hzero⟩
    · exact h.used c' r hr
    · rw [hnum, hzero]
      exact Nat.lt_of_le_of_lt (Nat.zero_le _) hb
  generalize openRunTaken s.chunk c run = chunk' at hiff hbase hsize husable hoff hbooks hsingle hused
  refine ⟨hbooks, ⟨hoff.trans h.mapped.offset, by rw [hsize]; exact h.mapped.large,
    by rw [hbase, hsize]; exact h.mapped.fits⟩, by rw [hbase]; exact h.base, hsingle, hused,
    List.nodup_cons.mpr ⟨fun hin => hnew (h.marked _ hin).1, h.nodup⟩, fun x hx => ?_,
    fun c' a' b' hm => ?_⟩
  · rcases List.mem_cons.mp hx with rfl | hx
    · refine ⟨(hiff ..).mpr (Or.inr ⟨rfl, rfl, rfl⟩), ?_⟩
      rw [husable, ← hrun.size]
      exact smallAddr_eq h.mapped hrun hb
    · rw [husable]
      exact ⟨(hiff ..).mpr (Or.inl (h.marked x hx).1), (h.marked x hx).2⟩
  · rcases (hiff ..).mp hm with hm | ⟨rfl, rfl, rfl⟩
    · obtain ⟨x, hx, he⟩ := h.held c' a' b' hm
      exact ⟨x, List.mem_cons_of_mem _ hx, he⟩
    · exact ⟨_, List.mem_cons_self, rfl, rfl, rfl⟩

theorem Inv.free (h : s.Inv) (hx : x ∈ s.held) :
    (⟨(chunkFreeSmall s.chunk x.ptr x.c).1, s.held.erase x⟩ : BlockSys).Inv := by
  obtain ⟨run, hmem, ha, hb, hset, he⟩ := h.free_eq hx
  have hrun := h.books.run x.c run hmem
  have hiff := allocated_blockCleared (h.books.class_nodup x.c) hmem hrun hb hset
  obtain ⟨hbase, hsize, hoff, -⟩ := blockCleared_fields s.chunk x.c run x.bit
  have husable : usableBase (blockCleared s.chunk x.c run x.bit) = usableBase s.chunk := by
    unfold usableBase
    rw [hbase, hoff]
  rw [he]
  refine ⟨h.books.clear hmem hb hset, ⟨hoff.trans h.mapped.offset, by rw [hsize]; exact h.mapped.large,
    by rw [hbase, hsize]; exact h.mapped.fits⟩, by rw [hbase]; exact h.base,
    fun c' => (length_blockCleared_le ..).trans (h.single c'), fun c' r hr => ?_, h.nodup.erase _,
    fun y hy => ?_, fun c' a' b' hm => ?_⟩
  · rcases mem_runsFull_blockCleared hr with hr | ⟨rfl, hlast⟩
    · exact h.used c' r hr
    · have hlt := hrun.count_lt hb hset
      rw [hrun.release_count, ChunkRun.release_numBlocks]
      omega
  · obtain ⟨hne, hy⟩ := h.nodup.mem_erase_iff.mp hy
    obtain ⟨hmark, hptr⟩ := h.marked y hy
    rw [husable]
    refine ⟨(hiff ..).mpr ⟨hmark, ?_⟩, hptr⟩
    rintro ⟨hc, hr, hbit⟩
    refine hne ?_
    have hptr' := (h.marked x hx).2
    rw [← hc, ← hbit, ← hptr] at hptr'
    rcases x with ⟨_, _, _, _⟩
    rcases y with ⟨_, _, _, _⟩
    dsimp only at hptr' hc hr hbit ha
    rw [hptr', hc, hr, hbit, ha]
  · obtain ⟨hmark, hne⟩ := (hiff ..).mp hm
    obtain ⟨y, hy, rfl, rfl, rfl⟩ := h.held c' a' b' hmark
    refine ⟨y, h.nodup.mem_erase_iff.mpr ⟨?_, hy⟩, rfl, rfl, rfl⟩
    rintro rfl
    exact hne ⟨rfl, ha.symm, rfl⟩

theorem inv_alloc (h : s.Inv) {env : MetaEnv} (henv : env.Fresh s.chunk)
    (hone : (BlockOp.alloc c env).NoSecondOfClass s) {chunk' : Chunk} {p : Option ℕ}
    (hout : SmallAlloc s.chunk c env chunk' p) :
    (⟨chunk', (p.bind fun ptr => (chunkRunUsed s.chunk c env).map fun run =>
      HeldBlock.mk ptr c run.addr run.firstFree).toList ++ s.held⟩ : BlockSys).Inv := by
  -- a new run is the only one of its class
  have hfull : ∀ {a y}, OpensRun s.chunk c env a y → s.chunk.runsFull c = [] := by
    intro a y hopens
    rcases hone with hno | hno | hno | hno
    · exact absurd hopens.none_open hno
    · exact hno
    · rw [hopens.run] at hno
      exact nomatch hno
    · rw [hopens.bitmap] at hno
      exact nomatch hno
  cases hout with
  | refused => exact h
  | blockless hopens _ => exact h.link hopens (hfull hopens) henv
  | first hopens hb =>
    have htake := (h.link hopens (hfull hopens) henv).take (linkRun_runsFree ..)
      (newRun_firstFree_lt hb)
    rw [chunkRunUsed_opens hopens]
    rw [smallAddr_linkRun] at htake
    exact htake
  | next hl hb =>
    have htake := h.take hl hb
    rw [chunkRunUsed_next hl]
    exact htake

theorem inv_step (h : s.Inv) (hop : op.Legal s) (hone : op.NoSecondOfClass s) : (s.step op).Inv := by
  cases op with
  | free x => exact h.free hop
  | alloc c env => exact inv_alloc h hop.2 hone (chunkAllocSmall_outcome h.books.lists c env)

/-- With two runs in a class, the search stops at the first one for a block of either. -/
theorem not_freesRight_second (h : s.Inv) {a y : ℕ} {old new : ChunkRun} {chunk' : Chunk}
    (hfull : s.chunk.runsFull c = [old]) (hne : old.addr ≠ a) (hnew : new.addr = a)
    (hb : (newRun c a y).firstFree < (newRun c a y).numBlocks) (hbooks : Books chunk')
    (hmapped : Mapped chunk') (husable : usableBase chunk' = usableBase s.chunk)
    (hlists : chunk'.runsFree c ++ chunk'.runsFull c = [old, new] ∨
      chunk'.runsFree c ++ chunk'.runsFull c = [new, old]) :
    ¬ (⟨chunk', ⟨smallAddr s.chunk (newRun c a y), c, a, (newRun c a y).firstFree⟩ :: s.held⟩ :
      BlockSys).FreesRight := by
  have hmem : old ∈ s.chunk.runsFull c := by
    rw [hfull]
    exact List.mem_singleton_self old
  have hold := h.books.run c old (List.mem_append_right _ hmem)
  have hkept : RunKept c (newRun c a y) := newRun_kept hold.pos
  -- whatever block is freed, the search stops at the first run
  have hfirst : ∀ {n run}, n < 4096 →
      (chunk'.runsFree c ++ chunk'.runsFull c)[0]? = some run →
      chunkFindRun chunk' c (blockOffset chunk' (usableBase s.chunk + n) / CHUNK_RUN_SIZE) =
        some run := by
    intro n run hn hget
    have hn' : n < CHUNK_RUN_SIZE := hn
    rw [← husable, blockOffset_eq hmapped hn, Nat.div_eq_of_lt hn', chunkFindRun_eq, hget]
  intro hright
  rcases hlists with hl | hl
  · -- the new run stands behind the old one
    have hend := hkept.block_end_le hb
    have hpos := hkept.blockSize_pos
    have hptr := smallAddr_eq h.mapped hkept hb
    have hf := hfirst (n := (newRun c a y).firstFree * (newRun c a y).blockSize) (by omega)
      (by rw [hl]; rfl)
    rw [← hptr] at hf
    exact not_freesExactly hbooks hf hne (hright _ List.mem_cons_self)
  · -- the new run stands before the old one, which has a block that is held
    obtain ⟨b, hlt, hset⟩ := hold.exists_set (h.used c old hmem)
    obtain ⟨x, hx, rfl, hxr, rfl⟩ := h.held c old.addr b
      ⟨old, List.mem_append_right _ hmem, rfl, hlt, hset⟩
    have hend := hold.block_end_le hlt
    have hpos := hold.pos
    rw [hold.size] at hend
    have hf := hfirst (n := x.bit * classToSize x.c) (by omega) (by rw [hl]; rfl)
    rw [← (h.marked x hx).2] at hf
    refine not_freesExactly hbooks hf ?_ (hright x (List.mem_cons_of_mem _ hx))
    rw [hnew, hxr]
    exact hne.symm

/-- A class gets a second run: the block handed out, or one held before, cannot be freed. -/
theorem not_freesRight_step (h : s.Inv) (hop : op.Legal s) (hone : ¬ op.NoSecondOfClass s) :
    ¬ (s.step op).FreesRight := by
  cases op with
  | free x => exact absurd trivial hone
  | alloc c env =>
    obtain ⟨-, henv⟩ := hop
    unfold BlockOp.NoSecondOfClass at hone
    push Not at hone
    obtain ⟨hfree, hfull, hrun, hbitmap⟩ := hone
    obtain ⟨a, hrun⟩ := Option.ne_none_iff_exists'.mp hrun
    obtain ⟨y, hbitmap⟩ := Option.ne_none_iff_exists'.mp hbitmap
    obtain ⟨old, hold⟩ : ∃ old, s.chunk.runsFull c = [old] := by
      have hsingle := h.single c
      rw [hfree, List.nil_append] at hsingle
      exact List.length_eq_one_iff.mp
        (le_antisymm hsingle (List.length_pos_of_ne_nil hfull))
    have hmem : old ∈ s.chunk.runsFull c := by
      rw [hold]
      exact List.mem_singleton_self old
    have hkept := h.books.run c old (List.mem_append_right _ hmem)
    have hused := h.used c old hmem
    have hopens : OpensRun s.chunk c env a y := ⟨hfree, hrun, hbitmap, hkept.pos⟩
    have hne : old.addr ≠ a := (henv a hrun).2 c old (List.mem_append_right _ hmem)
    have hnum : (newRun c a y).numBlocks = old.numBlocks := by
      rw [hkept.blocks, hkept.size]
      rfl
    have hb : (newRun c a y).firstFree < (newRun c a y).numBlocks :=
      newRun_firstFree_lt (by omega)
    have hbooks := h.books.alloc c henv
    have hframe := chunkAllocSmall_frame s.chunk c env
    have hlists := openRunTaken_lists (linkRun s.chunk c (newRun c a y)) c (newRun c a y)
    have htake : chunkAllocSmall s.chunk c env =
        ⟨openRunTaken (linkRun s.chunk c (newRun c a y)) c (newRun c a y),
          some (smallAddr s.chunk (newRun c a y)), [.malloc a, .calloc y]⟩ := by
      rw [chunkAllocSmall_opens hopens, chunkTakeBlock_taken (linkRun_runsFree ..) hb,
        smallAddr_linkRun]
    show ¬ (⟨(chunkAllocSmall s.chunk c env).chunk,
      (chunkBlockTaken s.chunk c env).toList ++ s.held⟩ : BlockSys).FreesRight
    unfold chunkBlockTaken
    rw [chunkRunUsed_opens hopens]
    rw [htake] at hbooks hframe ⊢
    generalize openRunTaken (linkRun s.chunk c (newRun c a y)) c (newRun c a y) = chunk'
      at hbooks hframe hlists ⊢
    dsimp only at hbooks hframe ⊢
    have haddr : ((newRun c a y).take (newRun c a y).firstFree).addr = a := rfl
    refine not_freesRight_second h hold hne haddr hb hbooks (h.mapped.congr hframe)
      hframe.usableBase ?_
    rcases hlists with ⟨-, h1, h2⟩ | ⟨-, h1, h2⟩
    · refine Or.inl ?_
      rw [h1, h2, Function.update_self, Function.update_self]
      show [] ++ (s.chunk.runsFull c ++ [_]) = _
      rw [hold]
      rfl
    · refine Or.inr ?_
      rw [h1, h2, Function.update_self]
      show [_] ++ s.chunk.runsFull c = _
      rw [hold]
      rfl

theorem inv_create {size base : ℕ} {chunk : Chunk}
    (hmap : MappingOk base (alignUp size CHUNK_ALIGN))
    (hc : chunkCreate size (some base) = some chunk) : (⟨chunk, []⟩ : BlockSys).Inv := by
  obtain ⟨hinv, hbase⟩ := ChunkSys.inv_create hmap hc
  have hbooks := Books.create hc
  have hmapped := hinv.chunk.mapped
  cases hc
  exact ⟨hbooks, hmapped, hbase, fun _ => Nat.zero_le 1, fun _ r hr => absurd hr List.not_mem_nil,
    List.nodup_nil, fun x hx => absurd hx List.not_mem_nil,
    fun _ _ _ ⟨r, hr, _⟩ => absurd hr List.not_mem_nil⟩

end BlockSys

/-- **A free clears the block that was handed out**, all along a run, exactly when no class gets a
second run. -/
theorem frees_exactly_iff {size base : ℕ} {chunk : Chunk} {ops : List BlockOp}
    (hmap : MappingOk base (alignUp size CHUNK_ALIGN))
    (hc : chunkCreate size (some base) = some chunk)
    (hlegal : Runs.Each BlockSys.step BlockOp.Legal ⟨chunk, []⟩ ops) :
    Runs.Always BlockSys.step BlockSys.FreesRight ⟨chunk, []⟩ ops ↔
      Runs.Each BlockSys.step BlockOp.NoSecondOfClass ⟨chunk, []⟩ ops := by
  exact Runs.always_iff_each_of (fun s op h => BlockSys.inv_step h) (fun s h => h.freesRight)
    (fun s op h => BlockSys.not_freesRight_step h) (BlockSys.inv_create hmap hc) hlegal

/-- Two blocks of one run are taken, and the first one is freed. -/
theorem frees_exactly_run :
    Runs.Always BlockSys.step BlockSys.FreesRight ⟨firstChunk, []⟩
      [.alloc 0 ⟨some 100, some 200⟩, .alloc 0 ⟨none, none⟩,
        .free ⟨CHUNK_ALIGN + 1600, 0, 100, 0⟩] := by
  have hc : chunkCreate CHUNK_DEFAULT_SIZE (some CHUNK_ALIGN) = some firstChunk := rfl
  have h0 : 0 < NUM_SIZE_CLASSES := by decide
  have hlegal : Runs.Each BlockSys.step BlockOp.Legal ⟨firstChunk, []⟩
      [.alloc 0 ⟨some 100, some 200⟩, .alloc 0 ⟨none, none⟩,
        .free ⟨CHUNK_ALIGN + 1600, 0, 100, 0⟩] := by
    refine ⟨⟨h0, ?_⟩, ⟨h0, fun a ha => nomatch ha⟩, ?_, trivial⟩
    · rintro a ⟨⟩
      exact ⟨by decide, firstChunk_fresh 100⟩
    · show (⟨CHUNK_ALIGN + 1600, 0, 100, 0⟩ : HeldBlock) ∈ _
      decide
  exact (frees_exactly_iff firstChunk_mapping hc hlegal).mpr
    ⟨Or.inr (Or.inl rfl), Or.inr (Or.inr (Or.inl rfl)), trivial, trivial⟩

/-- Two blocks of 4096 bytes get one address, from the runs at 100 and 300.  Freeing the second
one releases the run of the first. -/
theorem free_releases_other_run :
    ∃ (size base : ℕ) (chunk : Chunk) (ops : List BlockOp),
      MappingOk base (alignUp size CHUNK_ALIGN) ∧ chunkCreate size (some base) = some chunk ∧
      Runs.Each BlockSys.step BlockOp.Legal ⟨chunk, []⟩ ops ∧
      (Runs.after BlockSys.step ⟨chunk, []⟩ ops).held =
        [⟨base + 1600, 28, 300, 0⟩, ⟨base + 1600, 28, 100, 0⟩] ∧
      (chunkFreeSmall (Runs.after BlockSys.step ⟨chunk, []⟩ ops).chunk (base + 1600) 28).2 =
        [.free 200, .free 100] ∧
      ¬ Runs.Always BlockSys.step BlockSys.FreesRight ⟨chunk, []⟩ ops := by
  have hc : chunkCreate CHUNK_DEFAULT_SIZE (some CHUNK_ALIGN) = some firstChunk := rfl
  have hok : ChunkOk firstChunk := (ChunkSys.inv_create firstChunk_mapping hc).1.chunk
  have h28 : 28 < NUM_SIZE_CLASSES := by decide
  have hfirst : (BlockOp.alloc 28 ⟨some 100, some 200⟩).Legal ⟨firstChunk, []⟩ := by
    refine ⟨h28, ?_⟩
    rintro a ⟨⟩
    exact ⟨by decide, firstChunk_fresh 100⟩
  have hsecond : (BlockOp.alloc 28 ⟨some 300, some 400⟩).Legal
      (BlockSys.step ⟨firstChunk, []⟩ (.alloc 28 ⟨some 100, some 200⟩)) := by
    refine ⟨h28, ?_⟩
    rintro a ⟨⟩
    exact ⟨by decide, (firstChunk_fresh 300).alloc hok (by decide) (by decide) (by decide)⟩
  have hinv := BlockSys.inv_step (BlockSys.inv_create firstChunk_mapping hc) hfirst
    (Or.inr (Or.inl rfl))
  refine ⟨CHUNK_DEFAULT_SIZE, CHUNK_ALIGN, firstChunk, [.alloc 28 ⟨some 100, some 200⟩,
    .alloc 28 ⟨some 300, some 400⟩], firstChunk_mapping, rfl, ⟨hfirst, hsecond, trivial⟩,
    by decide, by decide, fun h => ?_⟩
  refine BlockSys.not_freesRight_step hinv hsecond ?_ h.last
  rintro (hno | hno | hno | hno)
  · exact hno (by rfl)
  · have hlen := congrArg List.length hno
    exact absurd hlen (by decide)
  · exact nomatch hno
  · exact nomatch hno

end Nomalloc
