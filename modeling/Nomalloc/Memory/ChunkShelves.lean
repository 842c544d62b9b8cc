import Nomalloc.Memory.ChunkBooks

/-!
# On which list a run is

`chunk_alloc_small` moves a run to `runs_full` with its last block.  `chunk_free_small` would move
it back when `list_empty(&run->list)`, which no linked node is: a run that was full once stays on
`runs_full`, and nothing is allocated from it again.

* `Sorted`        what the lists say of their own runs, kept by every step but the free of a block
                  of a full run of several blocks;
* `shelved_iff`   the lists tell the runs with a free block from the full ones exactly as long as
                  there is no such free.
-/

namespace Nomalloc

section
variable {chunk : Chunk} {c b : ℕ} {run : ChunkRun}

/-! ## the lists of a class -/

/-- The lists of a class tell its runs with a free block from the full ones. -/
def ChunkSys.Shelved (s : ChunkSys) : Prop :=
  ∀ c, 0 < classToSize c → classToSize c ≤ CHUNK_RUN_SIZE → ∀ r,
    (r ∈ s.chunk.runsFree c ↔
      r ∈ chunkRuns s.chunk ∧ r.sizeClass = c ∧ 0 < r.freeBlocksCount) ∧
    (r ∈ s.chunk.runsFull c ↔
      r ∈ chunkRuns s.chunk ∧ r.sizeClass = c ∧ r.freeBlocksCount = 0)

/-- The free is not of a block of a full run, unless it is the only block of the run.  The run
and the block are those that `chunk_free_small` looks up. -/
def ChunkOp.NotFromFull (s : ChunkSys) : ChunkOp → Prop
  | .alloc _ _ => True
  | .free ptr c =>
    ∀ run ∈ s.chunk.runsFull c, ptr ≠ 0 →
      chunkFindRun s.chunk c (blockOffset s.chunk ptr / CHUNK_RUN_SIZE) = some run →
      blockOffset s.chunk ptr % CHUNK_RUN_SIZE / run.blockSize < run.numBlocks →
      run.numBlocks = 1

/-- What the lists say of their own runs; a run of no block is open for ever. -/
structure Sorted (chunk : Chunk) : Prop where
  free : ∀ c, ∀ r ∈ chunk.runsFree c, 0 < r.numBlocks → 0 < r.freeBlocksCount
  full : ∀ c, ∀ r ∈ chunk.runsFull c, r.freeBlocksCount = 0

theorem Books.mem_class (h : Books chunk) {r : ChunkRun} :
    r ∈ chunkRuns chunk ∧ r.sizeClass = c ↔ r ∈ chunk.runsFree c ++ chunk.runsFull c := by
  rw [mem_chunkRuns]
  constructor
  · rintro ⟨⟨c', -, hr⟩, hc⟩
    rwa [← (h.run c' r hr).cls.symm.trans hc]
  · intro hr
    exact ⟨⟨c, lt_of_classToSize_pos (h.run c r hr).pos, hr⟩, (h.run c r hr).cls⟩

theorem Sorted.shelved {s : ChunkSys} (h : Sorted s.chunk) (hbooks : Books s.chunk) :
    s.Shelved := by
  intro c hpos hle r
  have hblocks : ∀ r ∈ s.chunk.runsFree c, 0 < r.freeBlocksCount := fun r hr => by
    have hrun := hbooks.run c r (List.mem_append_left _ hr)
    exact h.free c r hr (by rw [hrun.blocks, hrun.size]; exact Nat.div_pos hle hpos)
  rw [← and_assoc, ← and_assoc, hbooks.mem_class, List.mem_append]
  refine ⟨⟨fun hr => ⟨.inl hr, hblocks r hr⟩, ?_⟩, ⟨fun hr => ⟨.inr hr, h.full c r hr⟩, ?_⟩⟩
  · rintro ⟨hr | hr, hcount⟩
    · exact hr
    · exact absurd (h.full c r hr) (Nat.ne_of_gt hcount)
  · rintro ⟨hr | hr, hcount⟩
    · exact absurd hcount (Nat.ne_of_gt (hblocks r hr))
    · exact hr

theorem Sorted.link (h : Sorted chunk) {a x : ℕ} : Sorted (linkRun chunk c (newRun c a x)) := by
  refine ⟨fun c' r hr hb => ?_, h.full⟩
  by_cases he : c' = c
  · subst he
    rw [linkRun_runsFree] at hr
    rw [List.mem_singleton.mp hr] at hb ⊢
    exact hb
  · exact h.free c' r (by simpa [linkRun, he] using hr) hb

theorem Sorted.take (h : Sorted chunk) (hl : chunk.runsFree c = [run]) :
    Sorted (openRunTaken chunk c run) := by
  have hothers := openRunTaken_others chunk c run
  constructor
  · intro c' r hr hb
    by_cases he : c' = c
    · subst he
      rcases openRunTaken_lists chunk c' run with ⟨-, h1, -⟩ | ⟨hpos, h1, -⟩
      · rw [h1, Function.update_self] at hr
        exact absurd hr List.not_mem_nil
      · rw [h1, Function.update_self] at hr
        rw [List.mem_singleton.mp hr]
        exact hpos
    · rw [(hothers c' he).1] at hr
      exact h.free c' r hr hb
  · intro c' r hr
    by_cases he : c' = c
    · subst he
      rcases openRunTaken_lists chunk c' run with ⟨hzero, -, h2⟩ | ⟨-, -, h2⟩
      · rw [h2, Function.update_self] at hr
        rcases List.mem_append.mp hr with hr | hr
        · exact h.full c' r hr
        · rw [List.mem_singleton.mp hr]
          exact hzero
      · rw [h2] at hr
        exact h.full c' r hr
    · rw [(hothers c' he).2] at hr
      exact h.full c' r hr

/-- A block is cleared of a run that has a free one, or of a run of one block. -/
theorem Sorted.clear (h : Sorted chunk) (hbooks : Books chunk)
    (hmem : run ∈ chunk.runsFree c ++ chunk.runsFull c) (hb : b < run.numBlocks)
    (hset : bitmapGet run.allocBitmap b = true)
    (hfull : run ∈ chunk.runsFull c → run.numBlocks = 1) : Sorted (blockCleared chunk c run b) := by
  have hrun := hbooks.run c run hmem
  have hothers := blockCleared_others chunk c run b
  have hnd := hbooks.class_nodup c
  constructor
  · intro c' r hr hblocks
    by_cases he : c' = c
    · subst he
      rcases blockCleared_lists chunk c' run b with ⟨-, h1, -⟩ | ⟨-, h1, -⟩
      · rw [h1, Function.update_self] at hr
        exact h.free c' r (mem_unlinkRun.mp hr).1 hblocks
      · rw [h1, Function.update_self] at hr
        rcases mem_storeRun.mp hr with ⟨hr, -⟩ | ⟨rfl, -⟩
        · exact h.free c' r hr hblocks
        · rw [hrun.release_count]
          exact Nat.succ_pos _
    · rw [(hothers c' he).1] at hr
      exact h.free c' r hr hblocks
  · intro c' r hr
    by_cases he : c' = c
    · subst he
      rcases blockCleared_lists chunk c' run b with ⟨-, -, h2⟩ | ⟨hlast, -, h2⟩
      · rw [h2, Function.update_self] at hr
        exact h.full c' r (mem_unlinkRun.mp hr).1
      · rw [h2, Function.update_self] at hr
        rcases mem_storeRun.mp hr with ⟨hr, -⟩ | ⟨rfl, r₀, hr₀, ha⟩
        · exact h.full c' r hr
        · -- the run was full and had one block: it would have gone
          have he := List.inj_on_of_nodup_map hnd (List.mem_append_right _ hr₀) hmem ha
          subst he
          have h1 := h.full c' r₀ hr₀
          have h2 := hfull hr₀
          omega
    · rw [(hothers c' he).2] at hr
      exact h.full c' r hr

/-- A block of a full run of several is cleared: the run stays on the full list. -/
theorem blockCleared_mem_full (hmem : run ∈ chunk.runsFull c)
    (hlast : run.freeBlocksCount + 1 ≠ run.numBlocks) :
    run.release b ∈ (blockCleared chunk c run b).runsFull c := by
  rcases blockCleared_lists chunk c run b with ⟨hno, -, -⟩ | ⟨-, -, h2⟩
  · exact absurd hno hlast
  · rw [h2, Function.update_self]
    exact mem_storeRun.mpr (Or.inr ⟨rfl, run, hmem, rfl⟩)

theorem RunKept.set_of_full (h : RunKept c run) (hfull : run.freeBlocksCount = 0)
    (hb : b < run.numBlocks) : bitmapGet run.allocBitmap b = true := by
  by_contra hclear
  have hpos := h.free_pos hb (Bool.eq_false_iff.mpr hclear)
  omega

end

namespace ChunkSys

variable {s : ChunkSys} {op : ChunkOp}

theorem sorted_step (h : Books s.chunk) (hs : Sorted s.chunk) (hop : op.NotFromFull s) :
    Sorted (s.step op).chunk := by
  cases op with
  | alloc c env =>
    show Sorted (chunkAllocSmall s.chunk c env).chunk
    have hout := chunkAllocSmall_outcome h.lists c env
    generalize (chunkAllocSmall s.chunk c env).chunk = chunk',
      (chunkAllocSmall s.chunk c env).ptr = p at hout
    cases hout with
    | refused => exact hs
    | blockless _ _ => exact hs.link
    | first _ _ => exact hs.link.take (linkRun_runsFree ..)
    | next hl _ => exact hs.take hl
  | free ptr c =>
    show Sorted (chunkFreeSmall s.chunk ptr c).1
    rcases chunkFreeSmall_cases (h.run c) ptr with he | ⟨hptr, run, hmem, b, hb, hset, hf, hidx, he⟩
    · rw [he]
      exact hs
    · rw [he]
      refine hs.clear h hmem hb hset fun hfull => hop run hfull hptr hf ?_
      rw [hidx]
      exact hb

/-- A block of a full run of several is freed: the run is on the wrong list. -/
theorem not_shelved_step (h : Books s.chunk) (hs : Sorted s.chunk) (hop : ¬ op.NotFromFull s) :
    ¬ (s.step op).Shelved := by
  cases op with
  | alloc c env => exact absurd trivial hop
  | free ptr c =>
    unfold ChunkOp.NotFromFull at hop
    push Not at hop
    obtain ⟨run, hfull, hptr, hf, hb, hone⟩ := hop
    have hrun := h.run c run (List.mem_append_right _ hfull)
    have hzero := hs.full c run hfull
    have hset := hrun.set_of_full hzero hb
    have hstep : (s.step (.free ptr c)).chunk = blockCleared s.chunk c run _ :=
      congrArg Prod.fst (chunkFreeSmall_eq hrun hptr hf rfl hb hset)
    have hmem := blockCleared_mem_full (b := blockOffset s.chunk ptr % CHUNK_RUN_SIZE / run.blockSize)
      hfull (by omega)
    rw [← hstep] at hmem
    intro hshelved
    have hle : classToSize c ≤ CHUNK_RUN_SIZE := by
      have hpos := Nat.lt_of_le_of_lt (Nat.zero_le _) hb
      rw [hrun.blocks, hrun.size] at hpos
      exact (Nat.div_pos_iff.mp hpos).2
    have hcount := ((hshelved c hrun.pos hle _).2.mp hmem).2.2
    rw [hrun.release_count] at hcount
    exact absurd hcount (Nat.succ_ne_zero _)

end ChunkSys

/-- **The lists are right** all along a run exactly when no block of a full run of several blocks
is freed. -/
theorem shelved_iff {size base : ℕ} {chunk : Chunk} {ops : List ChunkOp}
    (hc : chunkCreate size (some base) = some chunk)
    (hcalls : Runs.Each ChunkSys.step ChunkOp.Called ⟨chunk, []⟩ ops) :
    Runs.Always ChunkSys.step ChunkSys.Shelved ⟨chunk, []⟩ ops ↔
      Runs.Each ChunkSys.step ChunkOp.NotFromFull ⟨chunk, []⟩ ops := by
  have hstep : ∀ (s : ChunkSys) (op : ChunkOp), (Books s.chunk ∧ Sorted s.chunk) → op.Called s →
      op.NotFromFull s → Books (s.step op).chunk ∧ Sorted (s.step op).chunk :=
    fun s op hs hop hnot => ⟨s.books_step op hs.1 hop, ChunkSys.sorted_step hs.1 hs.2 hnot⟩
  refine Runs.always_iff_each_of hstep (fun s hs => hs.2.shelved hs.1)
    (fun s op hs _ hnot => ChunkSys.not_shelved_step hs.1 hs.2 hnot) ⟨Books.create hc, ?_⟩ hcalls
  cases hc
  exact ⟨fun _ r hr => absurd hr List.not_mem_nil, fun _ r hr => absurd hr List.not_mem_nil⟩

/-- Both blocks of a run are taken and none is freed. -/
theorem shelved_run :
    Runs.Always ChunkSys.step ChunkSys.Shelved ⟨firstChunk, []⟩
      [.alloc 24 ⟨some 100, some 200⟩, .alloc 24 ⟨none, none⟩] := by
  have hc : chunkCreate CHUNK_DEFAULT_SIZE (some CHUNK_ALIGN) = some firstChunk := rfl
  have h24 : 24 < NUM_SIZE_CLASSES := by decide
  have hcalls : Runs.Each ChunkSys.step ChunkOp.Called ⟨firstChunk, []⟩
      [.alloc 24 ⟨some 100, some 200⟩, .alloc 24 ⟨none, none⟩] := by
    refine ⟨⟨h24, ?_⟩, ⟨h24, fun a ha => nomatch ha⟩, trivial⟩
    rintro a ⟨⟩
    exact ⟨by decide, firstChunk_fresh 100⟩
  exact (shelved_iff hc hcalls).mpr ⟨trivial, trivial, trivial⟩

/-- A run of two blocks is filled and the first is freed: its run stays on the full list, and with
no metadata to be had the class has no block left. -/
theorem freed_block_stays_full :
    ∃ (size base : ℕ) (chunk : Chunk) (ops : List ChunkOp),
      MappingOk base (alignUp size CHUNK_ALIGN) ∧ chunkCreate size (some base) = some chunk ∧
      Runs.Each ChunkSys.step ChunkOp.Called ⟨chunk, []⟩ ops ∧
      ¬ Runs.Always ChunkSys.step ChunkSys.Shelved ⟨chunk, []⟩ ops ∧
      (chunkAllocSmall (Runs.after ChunkSys.step ⟨chunk, []⟩ ops).chunk 24 ⟨none, none⟩).ptr =
        none := by
  have h24 : 24 < NUM_SIZE_CLASSES := by decide
  refine ⟨CHUNK_DEFAULT_SIZE, CHUNK_ALIGN, firstChunk, [.alloc 24 ⟨some 100, some 200⟩,
    .alloc 24 ⟨none, none⟩, .free (CHUNK_ALIGN + 1600) 24], firstChunk_mapping, rfl,
    ⟨⟨h24, ?_⟩, ⟨h24, fun a ha => nomatch ha⟩, h24, trivial⟩, fun h => ?_, by decide⟩
  · rintro a ⟨⟩
    exact ⟨by decide, firstChunk_fresh 100⟩
  · have hall := fun r => (h.last 24 (by decide) (by decide) r).2
    generalize hs : Runs.after ChunkSys.step _ _ = s at hall
    have hcounts : (s.chunk.runsFull 24).map ChunkRun.freeBlocksCount = [1] := by
      rw [← hs]
      decide
    obtain ⟨r, hr, hone⟩ := List.mem_map.mp (hcounts ▸ List.mem_singleton_self 1)
    have hzero := ((hall r).mp hr).2.2
    omega

end Nomalloc
