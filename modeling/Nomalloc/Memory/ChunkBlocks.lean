import Nomalloc.Lib.Runs
import Nomalloc.Memory.ChunkRuns

/-!
# Do the blocks of a chunk overlap?

A history of `chunk_alloc_small` and `chunk_free_small` calls on one fresh chunk, with the blocks
its callers hold (`ChunkSys`).

A run does not know where it lies: its address is computed from its position on `runs_free`, and
a run that is allocated from is always the first one there.  So every block of every run lies at
`usable_base + b * block_size`.

* `live_blocks_disjoint`      as long as no second run is opened, the blocks held are pairwise
                              disjoint and inside the chunk;
* `second_run_overlays_first` two allocations of two classes return one address.
-/

namespace Nomalloc

/-- A chunk and the blocks its callers hold: address and size class. -/
structure ChunkSys where
  chunk : Chunk
  live : List (ℕ × ℕ)

inductive ChunkOp where
  | alloc (c : ℕ) (env : MetaEnv)
  | free (ptr c : ℕ)

def ChunkSys.step (s : ChunkSys) : ChunkOp → ChunkSys
  | .alloc c env =>
    let r := chunkAllocSmall s.chunk c env
    ⟨r.chunk, (r.ptr.map fun ptr => (ptr, c)).toList ++ s.live⟩
  | .free ptr c => ⟨(chunkFreeSmall s.chunk ptr c).1, s.live.erase (ptr, c)⟩

/-- What the callers keep to: a class whose blocks fit in a run, metadata requests that succeed
at addresses not in use, and only live blocks are freed, under their class. -/
def ChunkOp.Legal (s : ChunkSys) : ChunkOp → Prop
  | .alloc c env =>
    0 < classToSize c ∧ classToSize c ≤ CHUNK_RUN_SIZE ∧ env.bitmap.isSome ∧
      ∃ a, env.run = some a ∧ FreshRun s.chunk a
  | .free ptr c => (ptr, c) ∈ s.live

/-- The allocation opens no second run: the chunk has none, or one of this class is open. -/
def ChunkOp.NoSecondRun (s : ChunkSys) : ChunkOp → Prop
  | .alloc c _ => s.chunk.numRuns = 0 ∨ s.chunk.runsFree c ≠ []
  | .free _ _ => True

/-- What `memory_alloc_aligned` answers: an aligned mapping of some length that does not wrap. -/
structure MappingOk (base len : ℕ) : Prop where
  ne_zero : base ≠ 0
  aligned : CHUNK_ALIGN ∣ base
  pos : 0 < len
  fits : base + len ≤ wordSize

/-- The bytes `[x, x + n)` and `[y, y + m)` have none in common. -/
def RangesDisjoint (x n y m : ℕ) : Prop := x + n ≤ y ∨ y + m ≤ x

/-- The blocks held are pairwise disjoint and inside `[base + usable_offset, base + size)`. -/
def ChunkSys.BlocksOk (s : ChunkSys) : Prop :=
  s.live.Pairwise (fun x y => RangesDisjoint x.1 (classToSize x.2) y.1 (classToSize y.2)) ∧
    ∀ x ∈ s.live, s.chunk.baseAddr + s.chunk.usableOffset ≤ x.1 ∧
      x.1 + classToSize x.2 ≤ s.chunk.baseAddr + s.chunk.size

/-! ## one run at a time -/

/-- The chunk has no run, or every record linked is the same. -/
def OneRun (chunk : Chunk) : Prop :=
  (chunk.numRuns = 0 ∧ ∀ c, chunk.runsFree c = [] ∧ chunk.runsFull c = []) ∨
    (chunk.numRuns = 1 ∧
      ∃ c₀ a₀, ∀ c, ∀ r ∈ chunk.runsFree c ++ chunk.runsFull c, c = c₀ ∧ r.addr = a₀)

structure ChunkSys.Inv (s : ChunkSys) : Prop where
  chunk : ChunkOk s.chunk
  one : OneRun s.chunk
  nodup : s.live.Nodup
  marked : ∀ x ∈ s.live, ∃ a b, Allocated s.chunk x.2 a b ∧
    x.1 = usableBase s.chunk + b * classToSize x.2

section
variable {chunk : Chunk} {c a b : ℕ}

theorem OneRun.same (h : OneRun chunk) {c' a' b' : ℕ} (h1 : Allocated chunk c a b)
    (h2 : Allocated chunk c' a' b') : c' = c ∧ a' = a := by
  obtain ⟨r, hr, rfl, -⟩ := h1
  obtain ⟨r', hr', rfl, -⟩ := h2
  rcases h with ⟨-, hno⟩ | ⟨-, c₀, a₀, hall⟩
  · rw [(hno c).1, (hno c).2] at hr
    exact absurd hr List.not_mem_nil
  · obtain ⟨rfl, ha⟩ := hall c r hr
    obtain ⟨he, ha'⟩ := hall c' r' hr'
    exact ⟨he, ha'.trans ha.symm⟩

/-- A marked block ends within the first run's 4096 bytes. -/
theorem Allocated.end_le (h : ChunkOk chunk) (hm : Allocated chunk c a b) :
    b * classToSize c + classToSize c ≤ 4096 := by
  obtain ⟨r, hr, -, hb, -⟩ := hm
  have hrun := (h.runs c).run r hr
  rw [← hrun.size]
  exact hrun.kept.block_end_le hb

theorem Allocated.size_pos (h : ChunkOk chunk) (hm : Allocated chunk c a b) :
    0 < classToSize c := by
  obtain ⟨r, hr, -⟩ := hm
  exact ((h.runs c).run r hr).pos

theorem ChunkSys.Inv.blocksOk {s : ChunkSys} (h : s.Inv) : s.BlocksOk := by
  have hbase := usableBase_lt h.chunk.mapped
  constructor
  · refine h.nodup.pairwise_of_forall_ne fun x hx y hy hne => ?_
    obtain ⟨a, b, hm, hp⟩ := h.marked x hx
    obtain ⟨a', b', hm', hp'⟩ := h.marked y hy
    obtain ⟨hc, -⟩ := h.one.same hm hm'
    have hb : b ≠ b' := fun he => hne (Prod.ext (by rw [hp, hp', he, hc]) hc.symm)
    rw [hc] at hp' ⊢
    unfold RangesDisjoint
    rcases Nat.lt_or_gt_of_ne hb with hlt | hlt
    · have := Nat.mul_le_mul_right (classToSize x.2) hlt
      rw [Nat.succ_mul] at this
      omega
    · have := Nat.mul_le_mul_right (classToSize x.2) hlt
      rw [Nat.succ_mul] at this
      omega
  · intro x hx
    obtain ⟨a, b, hm, hp⟩ := h.marked x hx
    have hend := hm.end_le h.chunk
    unfold usableBase at hp hbase
    omega

/-- The open run is the first one, or the only one. -/
theorem oneRun_alloc (h : ChunkOk chunk) (hone : OneRun chunk) {env : MetaEnv} {x : ℕ}
    (hpos : 0 < classToSize c) (hle : classToSize c ≤ CHUNK_RUN_SIZE) (hbit : env.bitmap.isSome)
    (hrun : env.run = some x) (hno : chunk.numRuns = 0 ∨ chunk.runsFree c ≠ []) :
    OneRun (chunkAllocSmall chunk c env).chunk := by
  rcases (h.runs c).open_cases with hl | ⟨run, hl⟩
  · -- the chunk was empty
    obtain ⟨hzero, hempty⟩ : chunk.numRuns = 0 ∧
        ∀ c, chunk.runsFree c = [] ∧ chunk.runsFull c = [] := by
      rcases hone with hone | ⟨hnum, -⟩
      · exact hone
      · rcases hno with hno | hno
        · omega
        · exact absurd hl hno
    rcases env with ⟨envRun, bitmap⟩
    obtain ⟨y, rfl⟩ := Option.isSome_iff_exists.mp hbit
    obtain rfl : envRun = some x := hrun
    rw [chunkAllocSmall_new_chunk h hl hpos hle]
    obtain ⟨-, -, -, -, hnum⟩ := openRunTaken_fields (linkRun chunk c (newRun c x y)) c
      (newRun c x y)
    refine Or.inr ⟨?_, c, x, fun c' r hr => ?_⟩
    · rw [hnum]
      show addW chunk.numRuns 1 = 1
      rw [hzero]
      rfl
    · obtain ⟨r₀, hr₀, ha⟩ := openRunTaken_addr (linkRun chunk c (newRun c x y)) c
        (newRun c x y) (linkRun_runsFree chunk c _) c' hr
      by_cases he : c' = c
      · subst he
        obtain rfl : r₀ = newRun c' x y := by simpa [linkRun, hempty] using hr₀
        exact ⟨rfl, ha.symm⟩
      · exact absurd hr₀ (by simp [linkRun, he, hempty])
  · rw [chunkAllocSmall_open_chunk h hl]
    obtain ⟨-, -, -, -, hnum⟩ := openRunTaken_fields chunk c run
    rcases hone with ⟨-, hempty⟩ | ⟨hone, c₀, a₀, hall⟩
    · rw [(hempty c).1] at hl
      exact absurd hl (by simp)
    refine Or.inr ⟨hnum.trans hone, c₀, a₀, fun c' r hr => ?_⟩
    obtain ⟨r₀, hr₀, ha⟩ := openRunTaken_addr chunk c run hl c' hr
    obtain ⟨hc, ha₀⟩ := hall c' r₀ hr₀
    exact ⟨hc, ha ▸ ha₀⟩

theorem oneRun_blockCleared (hone : OneRun chunk) {run : ChunkRun}
    (hmem : run ∈ chunk.runsFree c ++ chunk.runsFull c) : OneRun (blockCleared chunk c run b) := by
  rcases hone with ⟨-, hempty⟩ | ⟨hnum, c₀, a₀, hall⟩
  · rw [(hempty c).1, (hempty c).2] at hmem
    exact absurd hmem List.not_mem_nil
  obtain ⟨rfl, rfl⟩ := hall c run hmem
  rcases blockCleared_lists chunk c run b with ⟨hlast, h1, h2⟩ | ⟨hlast, h1, h2⟩
  · -- the only run goes
    refine Or.inl ⟨?_, fun c' => ?_⟩
    · unfold blockCleared
      rw [if_pos hlast]
      show subW chunk.numRuns 1 = 0
      rw [hnum]
      rfl
    · have hnil : ∀ l, (∀ r ∈ l, r.addr = run.addr) → unlinkRun run l = [] := fun l hl =>
        List.eq_nil_iff_forall_not_mem.mpr fun r hr =>
          (mem_unlinkRun.mp hr).2 (hl r (mem_unlinkRun.mp hr).1)
      rw [h1, h2]
      by_cases he : c' = c
      · subst he
        simp only [Function.update_self]
        exact ⟨hnil _ fun r hr => (hall c' r (List.mem_append_left _ hr)).2,
          hnil _ fun r hr => (hall c' r (List.mem_append_right _ hr)).2⟩
      · simp only [Function.update_of_ne he]
        constructor
        · exact List.eq_nil_iff_forall_not_mem.mpr fun r hr =>
            he (hall c' r (List.mem_append_left _ hr)).1
        · exact List.eq_nil_iff_forall_not_mem.mpr fun r hr =>
            he (hall c' r (List.mem_append_right _ hr)).1
  · refine Or.inr ⟨?_, c, run.addr, fun c' r hr => ?_⟩
    · unfold blockCleared
      rw [if_neg hlast]
      exact hnum
    · rw [h1, h2] at hr
      by_cases he : c' = c
      · subst he
        simp only [Function.update_self, ← storeRun_append] at hr
        rcases mem_storeRun.mp hr with ⟨hr, -⟩ | ⟨rfl, -⟩
        · exact hall c' r hr
        · exact ⟨rfl, rfl⟩
      · simp only [Function.update_of_ne he] at hr
        exact hall c' r hr

/-- With one run in the chunk, `chunk_free_small` finds the block it is asked to free. -/
theorem chunkFreeSmall_oneRun (h : ChunkOk chunk) (hbase : chunk.baseAddr ≠ 0) (hone : OneRun chunk)
    (hm : Allocated chunk c a b) :
    ∃ run ∈ chunk.runsFree c ++ chunk.runsFull c, run.addr = a ∧ b < run.numBlocks ∧
      bitmapGet run.allocBitmap b = true ∧
      (chunkFreeSmall chunk (usableBase chunk + b * classToSize c) c).1 =
        blockCleared chunk c run b := by
  have hend := hm.end_le h
  have hpos := hm.size_pos h
  obtain ⟨run, hmem, rfl, hb, hset⟩ := hm
  have hrun := (h.runs c).run run hmem
  have hoff : blockOffset chunk (usableBase chunk + b * classToSize c) = b * classToSize c :=
    blockOffset_eq h.mapped (by omega)
  have hall : ∀ r ∈ chunk.runsFree c ++ chunk.runsFull c, r = run := by
    intro r hr
    rcases hone with ⟨-, hempty⟩ | ⟨-, c₀, a₀, hall⟩
    · rw [(hempty c).1, (hempty c).2] at hmem
      exact absurd hmem List.not_mem_nil
    · exact (h.runs c).eq_of_addr hr hmem ((hall c r hr).2.trans (hall c run hmem).2.symm)
  have hidx : b * classToSize c / CHUNK_RUN_SIZE = 0 := Nat.div_eq_of_lt (by
    unfold CHUNK_RUN_SIZE
    omega)
  have hmod : b * classToSize c % CHUNK_RUN_SIZE = b * classToSize c := Nat.mod_eq_of_lt (by
    unfold CHUNK_RUN_SIZE
    omega)
  have hf : chunkFindRun chunk c 0 = some run := by
    unfold chunkFindRun
    rcases hl : chunk.runsFree c with _ | ⟨r, rest⟩
    · rcases hl' : chunk.runsFull c with _ | ⟨r, rest⟩
      · rw [hl, hl'] at hmem
        exact absurd hmem List.not_mem_nil
      · simp [hall r (by simp [hl'])]
    · simp [hall r (by simp [hl])]
  refine ⟨run, hmem, rfl, hb, hset, ?_⟩
  rw [chunkFreeSmall_eq hrun.kept (by unfold usableBase; omega) (by rw [hoff, hidx]; exact hf)
    (by rw [hoff, hmod, hrun.size]; exact Nat.mul_div_cancel b hpos) hb hset]

end

namespace ChunkSys

theorem inv_create {size base : ℕ} {chunk : Chunk} (hmap : MappingOk base (alignUp size CHUNK_ALIGN))
    (hc : chunkCreate size (some base) = some chunk) :
    (⟨chunk, []⟩ : ChunkSys).Inv ∧ chunk.baseAddr ≠ 0 := by
  cases hc
  have hsize : CHUNK_ALIGN ≤ alignUp size CHUNK_ALIGN :=
    Nat.le_of_dvd hmap.pos (dvd_alignUp_of_dvd (by decide) (by decide))
  have hoff : alignUp SIZEOF_CHUNK 16 = SIZEOF_CHUNK := by decide
  exact ⟨⟨⟨hoff, hsize, hmap.fits, fun _ => ⟨Nat.zero_le 1, by simp, by simp, by simp, by simp⟩⟩,
    Or.inl ⟨rfl, fun _ => ⟨rfl, rfl⟩⟩, List.nodup_nil, by simp⟩, hmap.ne_zero⟩

theorem step_frame (s : ChunkSys) (op : ChunkOp) : SameFrame s.chunk (s.step op).chunk := by
  cases op with
  | alloc c env => exact chunkAllocSmall_frame s.chunk c env
  | free ptr c => exact chunkFreeSmall_frame s.chunk ptr c

theorem inv_step (s : ChunkSys) (op : ChunkOp) (h : s.Inv) (hbase : s.chunk.baseAddr ≠ 0)
    (hop : op.Legal s) (hone : op.NoSecondRun s) : (s.step op).Inv := by
  have hkeep := (step_frame s op).usableBase
  cases op with
  | alloc c env =>
    obtain ⟨hpos, hle, hbit, a, hrun, hfresh⟩ := hop
    have hfresh' : ∀ x, env.run = some x → FreshRun s.chunk x := by
      intro x hx
      rw [hrun] at hx
      cases hx
      exact hfresh
    obtain ⟨hok, hres⟩ := chunkAllocSmall_spec h.chunk hpos hle env hfresh'
    have hone' := oneRun_alloc h.chunk h.one hpos hle hbit hrun hone
    rcases hres with ⟨hptr, hsame⟩ | ⟨x, b, hnew, hptr, -, hmark⟩
    · have hlive : (s.step (.alloc c env)).live = s.live := by simp [step, hptr]
      refine ⟨hok, hone', by rw [hlive]; exact h.nodup, ?_⟩
      rw [hlive]
      show ∀ y ∈ s.live, ∃ a b, Allocated (chunkAllocSmall s.chunk c env).chunk y.2 a b ∧
        y.1 = usableBase (chunkAllocSmall s.chunk c env).chunk + b * classToSize y.2
      rw [hsame]
      exact h.marked
    · have hlive : (s.step (.alloc c env)).live =
          (usableBase s.chunk + b * classToSize c, c) :: s.live := by simp [step, hptr]
      have hnewMark : Allocated (s.step (.alloc c env)).chunk c x b :=
        (hmark c x b).mpr (Or.inr ⟨rfl, rfl, rfl⟩)
      refine ⟨hok, hone', ?_, ?_⟩
      · rw [hlive]
        refine List.nodup_cons.mpr ⟨fun hin => ?_, h.nodup⟩
        -- a live block at this address would be the same block of the same run
        obtain ⟨a', b', hm, hp⟩ := h.marked _ hin
        obtain ⟨-, rfl⟩ := OneRun.same hone' hnewMark ((hmark c a' b').mpr (Or.inl hm))
        have hb : b * classToSize c = b' * classToSize c := by
          dsimp only at hp
          omega
        rw [Nat.eq_of_mul_eq_mul_right hpos hb] at hnew
        exact hnew hm
      · rw [hlive, hkeep]
        intro y hy
        rcases List.mem_cons.mp hy with rfl | hy
        · exact ⟨x, b, hnewMark, rfl⟩
        · obtain ⟨a', b', hm, hp⟩ := h.marked y hy
          exact ⟨a', b', (hmark y.2 a' b').mpr (Or.inl hm), hp⟩
  | free ptr c =>
    obtain ⟨a, b, hm, hp⟩ := h.marked _ hop
    obtain ⟨run, hmem, rfl, hb, hset, he⟩ := chunkFreeSmall_oneRun h.chunk hbase h.one hm
    have hchunk : (s.step (.free ptr c)).chunk = blockCleared s.chunk c run b := by
      dsimp only at hp
      rw [← he, ← hp]
      rfl
    have hruns := h.chunk.runs c
    have hmark := allocated_blockCleared hruns.nodup hmem (hruns.run run hmem).kept hb hset
    refine ⟨?_, ?_, h.nodup.erase _, fun y hy => ?_⟩
    · rw [hchunk]
      exact blockCleared_ok h.chunk hmem hb hset
    · rw [hchunk]
      exact oneRun_blockCleared h.one hmem
    · obtain ⟨hne, hy⟩ := h.nodup.mem_erase_iff.mp hy
      obtain ⟨a', b', hm', hp'⟩ := h.marked y hy
      rw [hkeep, hchunk]
      refine ⟨a', b', (hmark y.2 a' b').mpr ⟨hm', ?_⟩, hp'⟩
      rintro ⟨hc, -, rfl⟩
      exact hne (Prod.ext (by rw [hp', hp, hc]) hc)

end ChunkSys

/-- **Live blocks are disjoint.**  On a fresh chunk, as long as no allocation opens a second run,
the blocks held never overlap and lie inside the chunk. -/
theorem live_blocks_disjoint {size base : ℕ} {chunk : Chunk} {ops : List ChunkOp}
    (hmap : MappingOk base (alignUp size CHUNK_ALIGN))
    (hc : chunkCreate size (some base) = some chunk)
    (hlegal : Runs.Each ChunkSys.step ChunkOp.Legal ⟨chunk, []⟩ ops)
    (hone : Runs.Each ChunkSys.step ChunkOp.NoSecondRun ⟨chunk, []⟩ ops) :
    Runs.Always ChunkSys.step ChunkSys.BlocksOk ⟨chunk, []⟩ ops := by
  have hinv : Runs.Always ChunkSys.step (fun s => s.Inv ∧ s.chunk.baseAddr ≠ 0) ⟨chunk, []⟩ ops := by
    refine Runs.inv_always (fun s op hs hop => ⟨?_, ?_⟩) (ChunkSys.inv_create hmap hc)
      (hlegal.and hone)
    · exact ChunkSys.inv_step s op hs.1 hs.2 hop.1 hop.2
    · rw [(s.step_frame op).baseAddr]
      exact hs.2
  exact hinv.mono fun s hs => hs.1.blocksOk

/-- The chunk of the two runs below. -/
def firstChunk : Chunk := (chunkCreate CHUNK_DEFAULT_SIZE (some CHUNK_ALIGN)).get rfl

theorem firstChunk_mapping : MappingOk CHUNK_ALIGN (alignUp CHUNK_DEFAULT_SIZE CHUNK_ALIGN) :=
  ⟨by decide, ⟨1, rfl⟩, by decide, by decide⟩

theorem firstChunk_fresh (x : ℕ) : FreshRun firstChunk x := fun _ _ hr => absurd hr List.not_mem_nil

/-- The first allocation is legal, and one at another address after it. -/
theorem firstChunk_legal {c : ℕ} (hpos : 0 < classToSize c) (hle : classToSize c ≤ CHUNK_RUN_SIZE)
    (ops : List ChunkOp)
    (h : Runs.Each ChunkSys.step ChunkOp.Legal (ChunkSys.step (ChunkSys.step ⟨firstChunk, []⟩
      (.alloc 0 ⟨some 100, some 200⟩)) (.alloc c ⟨some 300, some 400⟩)) ops) :
    Runs.Each ChunkSys.step ChunkOp.Legal ⟨firstChunk, []⟩
      (.alloc 0 ⟨some 100, some 200⟩ :: .alloc c ⟨some 300, some 400⟩ :: ops) := by
  have hok : ChunkOk firstChunk := (ChunkSys.inv_create firstChunk_mapping rfl).1.chunk
  refine ⟨⟨by decide, by decide, rfl, 100, rfl, firstChunk_fresh 100⟩, ⟨hpos, hle, rfl, 300, rfl, ?_⟩, h⟩
  exact (firstChunk_fresh 300).alloc hok (by decide) (by decide) (by decide)

/-- Two blocks of one class are taken, and the first one is freed. -/
theorem live_blocks_disjoint_run :
    Runs.Always ChunkSys.step ChunkSys.BlocksOk ⟨firstChunk, []⟩
      [.alloc 0 ⟨some 100, some 200⟩, .alloc 0 ⟨some 300, some 400⟩,
        .free (CHUNK_ALIGN + 1600) 0] := by
  refine live_blocks_disjoint firstChunk_mapping rfl
    (firstChunk_legal (by decide) (by decide) _ ⟨?_, trivial⟩)
    ⟨Or.inl rfl, Or.inr ?_, trivial, trivial⟩
  · show (CHUNK_ALIGN + 1600, 0) ∈ _
    decide
  · exact List.cons_ne_nil _ _

/-- Two allocations on a fresh chunk, of an 8-byte and of a 16-byte block, return one address. -/
theorem second_run_overlays_first :
    ∃ (size base : ℕ) (chunk : Chunk) (ops : List ChunkOp),
      MappingOk base (alignUp size CHUNK_ALIGN) ∧ chunkCreate size (some base) = some chunk ∧
      Runs.Each ChunkSys.step ChunkOp.Legal ⟨chunk, []⟩ ops ∧
      (Runs.after ChunkSys.step ⟨chunk, []⟩ ops).live = [(base + 1600, 1), (base + 1600, 0)] ∧
      ¬ Runs.Always ChunkSys.step ChunkSys.BlocksOk ⟨chunk, []⟩ ops := by
  have hlive : (Runs.after ChunkSys.step ⟨firstChunk, []⟩
      [.alloc 0 ⟨some 100, some 200⟩, .alloc 1 ⟨some 300, some 400⟩]).live =
        [(CHUNK_ALIGN + 1600, 1), (CHUNK_ALIGN + 1600, 0)] := by decide
  refine ⟨CHUNK_DEFAULT_SIZE, CHUNK_ALIGN, firstChunk,
    [.alloc 0 ⟨some 100, some 200⟩, .alloc 1 ⟨some 300, some 400⟩], firstChunk_mapping, rfl,
    firstChunk_legal (by decide) (by decide) [] trivial, hlive, fun h => ?_⟩
  have hpair := h.last.1
  rw [hlive] at hpair
  exact absurd hpair (by unfold RangesDisjoint; decide)

end Nomalloc
