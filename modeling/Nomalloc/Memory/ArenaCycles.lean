import Nomalloc.Memory.ArenaServe

/-!
# Large blocks that come and go

`arena_malloc` gives a large request a chunk of its own, and `arena_free` lets that chunk go when
`chunk_get_utilization` is below 0.1.  The quotient is made of `allocated_bytes`, which
`chunk_free_large` does not change.

* `arenaCycle`            `arena_malloc` of a large size, and `arena_free` of its block;
* `arenaCycle_room`       what one cycle leaves, as long as there is room for a chunk;
* `cycles_keep_iff`       the chunks stay as many as they are exactly for the sizes that wrap when
                          they are rounded up;
* `cycles_pile_up`        for all others every cycle leaves a chunk behind, up to the limit.
-/

namespace Nomalloc

/-- One cycle: `arena_malloc`, and `arena_free` of the pointer it returned. -/
def arenaCycle (size : ℕ) (a : Arena) (env : ArenaEnv) : Arena :=
  let (a, p) := arenaMalloc a size env
  arenaFree a (p.getD 0)

/-- The cycle gets a block, and leaves the arena as many chunks as it had. -/
def CycleKeeps (size : ℕ) (a : Arena) (env : ArenaEnv) : Prop :=
  (arenaMalloc a size env).2 ≠ none ∧ (arenaCycle size a env).numChunks = a.numChunks

/-- The kernel has a mapping for a chunk, one that is not in use. -/
def ArenaEnv.Maps (a : Arena) (env : ArenaEnv) : Prop :=
  ∃ p, env.base = some p ∧ ChunkMapping p ∧ p ∉ a.live

/-- `chunk_alloc_large` can serve `size` bytes in a fresh chunk. -/
def ServedFresh (size : ℕ) : Prop :=
  ∃ base chunk, chunkCreate CHUNK_DEFAULT_SIZE (some base) = some chunk ∧
    (chunkAllocLarge chunk size).2 ≠ none

/-- An arena that is in use, between two cycles. -/
def Arena.Cycling (a : Arena) : Prop := a.active = true ∧ ∃ xs, ArenaChunks a xs

section
variable {a a' : Arena} {size p : ℕ} {env : ArenaEnv} {chunk : Chunk}

/-! ## the sizes -/

theorem servedFresh_iff : ServedFresh size ↔ alignUp size CHUNK_RUN_SIZE ≤ CHUNK_ROOM := by
  have hone : ∀ {chunk : Chunk}, chunkGetAvailable chunk = CHUNK_ROOM →
      ((chunkAllocLarge chunk size).2 ≠ none ↔ alignUp size CHUNK_RUN_SIZE ≤ CHUNK_ROOM) := by
    intro chunk hroom
    by_cases hfits : chunkGetAvailable chunk < alignUp size CHUNK_RUN_SIZE
    · rw [chunkAllocLarge_none hfits]
      rw [hroom] at hfits
      exact iff_of_false (fun h => h rfl) (Nat.not_le.mpr hfits)
    · rw [chunkAllocLarge_some hfits]
      rw [hroom, Nat.not_lt] at hfits
      exact iff_of_true (by simp) hfits
  constructor
  · rintro ⟨base, chunk, hchunk, h⟩
    obtain ⟨chunk', hchunk', -, hsize, halloc⟩ := chunkCreate_some base
    obtain rfl := Option.some.inj (hchunk.symm.trans hchunk')
    exact (hone (chunkGetAvailable_new hsize halloc)).mp h
  · intro h
    obtain ⟨chunk, hchunk, -, hsize, halloc⟩ := chunkCreate_some 0
    exact ⟨0, chunk, hchunk, (hone (chunkGetAvailable_new hsize halloc)).mpr h⟩

/-- `0.1` is not a double, but no quotient of a chunk lies between it and the double that is taken
for it. -/
theorem chunkUtilizationLow_iff (hsize : chunk.size = CHUNK_DEFAULT_SIZE)
    (halloc : chunk.allocatedBytes < 2 ^ 53) :
    chunkUtilizationLow chunk = true ↔ chunk.allocatedBytes * 10 < chunk.size := by
  have hdef : CHUNK_DEFAULT_SIZE = 2097152 := rfl
  unfold chunkUtilizationLow
  rw [decide_eq_true_eq, round53_eq_self halloc, hsize, hdef]
  omega

/-- A chunk of a large block is nearly empty only where the size wraps to zero. -/
theorem large_low_iff (hsize : SIZE_CLASS_MEDIUM_MAX < size) (hw : size < wordSize) :
    (SIZEOF_CHUNK + alignUp size CHUNK_RUN_SIZE) * 10 < CHUNK_DEFAULT_SIZE ↔
      wordSize - CHUNK_RUN_SIZE < size := by
  have hrun : CHUNK_RUN_SIZE = 4096 := rfl
  have hmax : SIZE_CLASS_MEDIUM_MAX = 1048576 := rfl
  have hdef : CHUNK_DEFAULT_SIZE = 2097152 := rfl
  rcases Nat.lt_or_ge (wordSize - CHUNK_RUN_SIZE) size with hgt | hle
  · rw [alignUp_wraps hw (by decide) (by omega)]
    exact iff_of_true (by decide) hgt
  · have hwrap : size + CHUNK_RUN_SIZE - 1 < wordSize := by
      have : CHUNK_RUN_SIZE ≤ wordSize := by decide
      omega
    have hup : size ≤ alignUp size CHUNK_RUN_SIZE := le_alignUp (by decide) hwrap
    exact iff_of_false (by omega) (Nat.not_lt.mpr hle)

/-! ## one cycle -/

/-- A request that gets a chunk counts it. -/
theorem arenaMallocLarge_count {ptr : ℕ} (h : (arenaMallocLarge a size env).2 = some ptr) :
    (arenaMallocLarge a size env).1.numChunks = addW a.numChunks 1 ∧
      (arenaMallocLarge a size env).1.maxChunks = a.maxChunks := by
  by_cases hnum : a.maxChunks ≤ a.numChunks
  · rw [arenaMallocLarge_none (Or.inl hnum)] at h
    cases h
  cases hbase : env.base with
  | none =>
    rw [arenaMallocLarge_none (Or.inr hbase)] at h
    cases h
  | some base =>
    obtain ⟨chunk, hchunk, -⟩ := chunkCreate_some base
    have heq : arenaMallocLarge a size env =
        arenaKeepLarge a chunk.baseAddr size (chunkAllocLarge chunk size) :=
      arenaMallocLarge_mapped (Nat.not_le.mp hnum) (hbase.symm ▸ hchunk)
    rw [heq] at h ⊢
    generalize chunkAllocLarge chunk size = r at h ⊢
    obtain ⟨chunk', q⟩ := r
    cases q with
    | none => cases h
    | some q => exact ⟨rfl, rfl⟩

/-- The chunk of a large block goes when it is nearly empty by its `allocated_bytes`. -/
theorem arenaFree_large_count (h : ∃ xs, ArenaChunks a xs ∧ (p, none) ∈ xs) (hon : a.active = true)
    (halloc : (a.chunk p).allocatedBytes < 2 ^ 53) :
    (arenaFree a (p + SIZEOF_CHUNK)).Cycling ∧
      (arenaFree a (p + SIZEOF_CHUNK)).maxChunks = a.maxChunks ∧
      (arenaFree a (p + SIZEOF_CHUNK)).numChunks =
        if (a.chunk p).allocatedBytes * 10 < CHUNK_DEFAULT_SIZE then subW a.numChunks 1
        else a.numChunks := by
  obtain ⟨xs, h, hp⟩ := h
  obtain ⟨xs', hshrunk, -⟩ := arenaFree_large_spec h hon hp rfl
  refine ⟨⟨hshrunk.active.trans hon, xs', hshrunk.chunks⟩, ?_⟩
  rw [arenaFree_large h hon hp rfl rfl]
  generalize hbytes : subW (a.chunk p).allocatedBytes (a.chunk p).freedBytes = bytes
  have hsize : (chunkFreeLarge (a.chunk p) (p + SIZEOF_CHUNK) bytes).size = CHUNK_DEFAULT_SIZE :=
    (chunkFreeLarge_inPlace (h.place _ hp) _ _).1.size
  have hsame : (chunkFreeLarge (a.chunk p) (p + SIZEOF_CHUNK) bytes).allocatedBytes =
      (a.chunk p).allocatedBytes := by
    unfold chunkFreeLarge
    split_ifs <;> rfl
  have hlow := chunkUtilizationLow_iff hsize (hsame.trans_lt halloc)
  rw [hsame, hsize] at hlow
  generalize chunkFreeLarge (a.chunk p) (p + SIZEOF_CHUNK) bytes = chunk at hlow ⊢
  have hfreed : (largeFreed a p chunk bytes).maxChunks = a.maxChunks ∧
      (largeFreed a p chunk bytes).numChunks = a.numChunks := by
    unfold largeFreed Arena.countFreed
    exact ⟨rfl, rfl⟩
  generalize largeFreed a p chunk bytes = a' at hfreed
  by_cases hl : (a.chunk p).allocatedBytes * 10 < CHUNK_DEFAULT_SIZE
  · have hdrop : (dropChunk a' p).maxChunks = a'.maxChunks ∧
        (dropChunk a' p).numChunks = subW a'.numChunks 1 := by
      unfold dropChunk
      exact ⟨rfl, rfl⟩
    rw [if_pos (hlow.mpr hl), if_pos hl, hdrop.1, hdrop.2, hfreed.1, hfreed.2]
    exact ⟨rfl, rfl⟩
  · rw [if_neg (mt hlow.mp hl), if_neg hl]
    exact hfreed

/-- What is left of a request once its block is freed: the chunk, unless the size wraps. -/
theorem arenaCycle_room (hsize : SIZE_CLASS_MEDIUM_MAX < size) (hw : size < wordSize)
    (hserved : ServedFresh size) (h : a.Cycling) (hnum : a.numChunks < a.maxChunks)
    (henv : env.Maps a) :
    (arenaCycle size a env).Cycling ∧ (arenaCycle size a env).maxChunks = a.maxChunks ∧
      (arenaMalloc a size env).2 ≠ none ∧
      (arenaCycle size a env).numChunks =
        if wordSize - CHUNK_RUN_SIZE < size then a.numChunks else a.numChunks + 1 := by
  obtain ⟨hon, xs, hchunks⟩ := h
  have hlow := large_low_iff hsize hw
  have hfits := servedFresh_iff.mp hserved
  have hmax : a.maxChunks < wordSize := by
    rw [hchunks.heads.max]
    decide
  obtain ⟨base, hbase, hmap, hnew⟩ := henv
  have hop : ArenaChunks a.countOp xs := hchunks.congr ⟨rfl, rfl, rfl, rfl⟩ rfl
  obtain ⟨xs', hgrown, hout⟩ := arenaMallocLarge_outcome hop hsize env fun p hp => by
    obtain rfl := Option.some.inj (hbase.symm.trans hp)
    exact ⟨hmap, hnew⟩
  have hcall : arenaMalloc a size env = arenaMallocLarge a.countOp size env := by
    unfold arenaMalloc
    rw [if_neg (by omega), if_neg (by simp [hon]), if_pos (isLargeClassIdx_iff.mpr hsize)]
  unfold arenaCycle
  rw [hcall]
  have hcount : ∀ ptr, (arenaMallocLarge a.countOp size env).2 = some ptr →
      (arenaMallocLarge a.countOp size env).1.numChunks = addW a.numChunks 1 ∧
        (arenaMallocLarge a.countOp size env).1.maxChunks = a.maxChunks :=
    fun ptr h => arenaMallocLarge_count h
  have hgiven : env.base.isSome = true := by
    rw [hbase]
    rfl
  generalize arenaMallocLarge a.countOp size env = r at hout hgrown hcount ⊢
  obtain ⟨a', q⟩ := r
  cases hout with
  | refused hno _ => exact absurd ⟨hnum, hgiven, hfits⟩ hno
  | served ptr _ hplaced _ _ =>
    obtain ⟨hcount, hmaxEq⟩ := hcount ptr rfl
    have hadd : addW a.numChunks 1 = a.numChunks + 1 := addW_eq (by omega)
    rw [hadd] at hcount
    cases hplaced with
    | small p b hp hsmall hend hptr =>
      have h4096 : 4096 < SIZE_CLASS_MEDIUM_MAX := by decide
      omega
    | large p hp _ _ hptr halloc hfreed =>
      subst hptr
      have hroom : SIZEOF_CHUNK + CHUNK_ROOM < 2 ^ 53 := by decide
      obtain ⟨hcycling, hkept, hfinal⟩ := arenaFree_large_count ⟨xs', hgrown.chunks, hp⟩
        (hgrown.active.trans hon) (by omega)
      rw [halloc, hcount] at hfinal
      refine ⟨hcycling, hkept.trans hmaxEq, by simp, ?_⟩
      show (arenaFree a' (p + SIZEOF_CHUNK)).numChunks = _
      rw [hfinal]
      by_cases hwrap : wordSize - CHUNK_RUN_SIZE < size
      · rw [if_pos (hlow.mpr hwrap), if_pos hwrap]
        have hsub : subW (a.numChunks + 1) 1 = a.numChunks + 1 - 1 :=
          subW_eq (by omega) (by omega)
        exact hsub
      · rw [if_neg (mt hlow.mp hwrap), if_neg hwrap]

theorem arenaCycle_full (hsize : SIZE_CLASS_MEDIUM_MAX < size) (h : a.Cycling)
    (hnum : a.maxChunks ≤ a.numChunks) :
    arenaCycle size a env = a.countOp ∧ (arenaMalloc a size env).2 = none := by
  have hcall : arenaMalloc a size env = (a.countOp, none) := by
    unfold arenaMalloc
    rw [if_neg (by omega), if_neg (by simp [h.1]), if_pos (isLargeClassIdx_iff.mpr hsize)]
    exact arenaMallocLarge_none (Or.inl hnum)
  have hnull : arenaFree a.countOp 0 = a.countOp := by
    unfold arenaFree
    rw [if_pos rfl]
  refine ⟨?_, by rw [hcall]⟩
  unfold arenaCycle
  rw [hcall]
  exact hnull

theorem Arena.Cycling.countOp (h : a.Cycling) : a.countOp.Cycling :=
  ⟨h.1, h.2.imp fun _ hxs => hxs.congr ⟨rfl, rfl, rfl, rfl⟩ rfl⟩

theorem arenaCreate_cycling : arenaCreate.Cycling := by
  obtain ⟨xs, h⟩ := ArenaHeap.ok_init
  exact ⟨h.active, xs, h.chunks⟩

theorem Arena.Cycling.numChunks_le (h : a.Cycling) : a.numChunks ≤ a.maxChunks := by
  obtain ⟨-, xs, hxs⟩ := h
  rw [hxs.heads.max]
  exact hxs.heads.le

/-- Every cycle of a size that does not wrap leaves a chunk, as long as there is room for one. -/
theorem arenaCycle_step (hsize : SIZE_CLASS_MEDIUM_MAX < size)
    (hle : size ≤ wordSize - CHUNK_RUN_SIZE) (hserved : ServedFresh size) (h : a.Cycling)
    (henv : env.Maps a) :
    (arenaCycle size a env).Cycling ∧ (arenaCycle size a env).maxChunks = a.maxChunks ∧
      (arenaCycle size a env).numChunks = min (a.numChunks + 1) a.maxChunks := by
  have hbound := h.numChunks_le
  rcases Nat.lt_or_ge a.numChunks a.maxChunks with hnum | hnum
  · have hlt : wordSize - CHUNK_RUN_SIZE < wordSize := by decide
    obtain ⟨hcycling, hmax, -, hcount⟩ := arenaCycle_room hsize (by omega) hserved h hnum henv
    rw [if_neg (Nat.not_lt.mpr hle)] at hcount
    exact ⟨hcycling, hmax, by omega⟩
  · rw [(arenaCycle_full hsize h hnum).1]
    have hsame : a.countOp.numChunks = a.numChunks := rfl
    exact ⟨h.countOp, rfl, by omega⟩

end

/-- **The chunks stay as many as they are** over any number of cycles exactly for the sizes above
`2^64 - 4096`: such a size is rounded up to zero, so that its chunk counts as nearly empty. -/
theorem cycles_keep_iff {size : ℕ} {envs : List ArenaEnv} (hsize : SIZE_CLASS_MEDIUM_MAX < size)
    (hw : size < wordSize) (hserved : ServedFresh size)
    (henvs : Runs.Each (arenaCycle size) (fun a env => env.Maps a) arenaCreate envs) :
    Runs.Each (arenaCycle size) (CycleKeeps size) arenaCreate envs ↔
      envs = [] ∨ wordSize - CHUNK_RUN_SIZE < size := by
  have hfresh : arenaCreate.Cycling ∧ arenaCreate.numChunks < arenaCreate.maxChunks :=
    ⟨arenaCreate_cycling, by decide⟩
  constructor
  · intro hkeeps
    refine or_iff_not_imp_left.mpr fun hne => ?_
    by_contra hwrap
    cases envs with
    | nil => exact hne rfl
    | cons env envs =>
      obtain ⟨-, -, -, hcount⟩ := arenaCycle_room hsize hw hserved hfresh.1 hfresh.2 henvs.1
      rw [if_neg hwrap, hkeeps.1.2] at hcount
      omega
  · rintro (rfl | hwrap)
    · trivial
    have hroom : ∀ a env, a.Cycling ∧ a.numChunks < a.maxChunks → ArenaEnv.Maps a env →
        ((arenaCycle size a env).Cycling ∧
          (arenaCycle size a env).numChunks < (arenaCycle size a env).maxChunks) ∧
        CycleKeeps size a env := by
      rintro a env ⟨hcycling, hnum⟩ henv
      obtain ⟨hcycling, hmax, hgot, hcount⟩ := arenaCycle_room hsize hw hserved hcycling hnum henv
      rw [if_pos hwrap] at hcount
      exact ⟨⟨hcycling, by omega⟩, hgot, hcount⟩
    exact Runs.each_of_inv (fun a env h henv => (hroom a env h henv).1)
      (fun a env h henv => (hroom a env h henv).2) hfresh henvs

/-- The number of chunks after any number of cycles of another size: from the limit on, every
request is refused. -/
theorem cycles_pile_up {size : ℕ} {envs : List ArenaEnv} (hsize : SIZE_CLASS_MEDIUM_MAX < size)
    (hle : size ≤ wordSize - CHUNK_RUN_SIZE) (hserved : ServedFresh size)
    (henvs : Runs.Each (arenaCycle size) (fun a env => env.Maps a) arenaCreate envs) :
    (Runs.after (arenaCycle size) arenaCreate envs).numChunks =
      min envs.length MAX_ARENA_CHUNKS := by
  have hrun : ∀ a : Arena, a.Cycling → Runs.Each (arenaCycle size) (fun a env => env.Maps a) a envs →
      (Runs.after (arenaCycle size) a envs).numChunks =
        min (a.numChunks + envs.length) a.maxChunks := by
    clear henvs
    induction envs with
    | nil =>
      intro a h _
      exact (Nat.min_eq_left h.numChunks_le).symm
    | cons env envs ih =>
      intro a h henvs
      obtain ⟨hcycling, hmax, hcount⟩ := arenaCycle_step hsize hle hserved h henvs.1
      rw [Runs.after_cons, ih _ hcycling henvs.2, hmax, hcount, List.length_cons]
      omega
  have hzero : arenaCreate.numChunks = 0 := rfl
  have hmax : arenaCreate.maxChunks = MAX_ARENA_CHUNKS := rfl
  rw [hrun _ arenaCreate_cycling henvs, hzero, hmax, Nat.zero_add]

theorem givenEnv_maps : givenEnv.Maps arenaCreate :=
  ⟨CHUNK_ALIGN, rfl, ⟨⟨by decide, dvd_refl _, by decide, by decide⟩, by decide⟩, List.not_mem_nil⟩

/-- The largest size, which wraps. -/
theorem cycles_keep_largest :
    Runs.Each (arenaCycle (wordSize - 1)) (CycleKeeps (wordSize - 1)) arenaCreate [givenEnv] :=
  (@cycles_keep_iff (wordSize - 1) [givenEnv] (by decide) (by decide)
    (servedFresh_iff.mpr (by decide)) ⟨givenEnv_maps, trivial⟩).mpr (Or.inr (by decide))

/-- One cycle of 1 MiB and one byte leaves its chunk behind. -/
theorem large_chunk_stays : ¬ ∀ (size : ℕ) (envs : List ArenaEnv), SIZE_CLASS_MEDIUM_MAX < size →
    size < wordSize → ServedFresh size →
    Runs.Each (arenaCycle size) (fun a env => env.Maps a) arenaCreate envs →
      Runs.Each (arenaCycle size) (CycleKeeps size) arenaCreate envs := by
  intro h
  have hserved : ServedFresh (SIZE_CLASS_MEDIUM_MAX + 1) := servedFresh_iff.mpr (by decide)
  have hkeeps := (h (SIZE_CLASS_MEDIUM_MAX + 1) [givenEnv] (by decide) (by decide) hserved
    ⟨givenEnv_maps, trivial⟩).1.2
  have hstep := (arenaCycle_step (by decide) (by decide) hserved arenaCreate_cycling
    givenEnv_maps).2.2
  rw [hkeeps] at hstep
  exact absurd hstep (by decide)

end Nomalloc
