import Nomalloc.Memory.ArenaServe
import Nomalloc.Memory.ChunkFrees

/-!
# `arena_free` right after `arena_malloc`

`arena_free` makes the class of a small block up from its address.  Every offset is a multiple of
eight, so the block is taken for one of class zero.

* `SmallTaken`              a chunk that just handed out a block, and what it held before;
* `arena_free_undoes_iff`   `arena_free` gives back the block that `arena_malloc` just handed out
                            exactly where it is of class zero and the first run that is searched is
                            the block's own.
-/

namespace Nomalloc

/-- Block `b` of the run record at `x`, of class `c`, of the chunk at `p`, is marked in use. -/
def ArenaAllocated (a : Arena) (p c x b : ℕ) : Prop :=
  p ∈ a.live ∧ Allocated (a.chunk p) c x b

/-- The block that is taken next of the chunk is not the last of its run, or there is no full run. -/
def KeepsFirst (chunk : Chunk) (c : ℕ) : Prop :=
  chunk.runsFull c = [] ∨ ∀ run ∈ chunk.runsFree c, run.freeBlocksCount ≠ 1

section
variable {chunk : Chunk} {p c : ℕ} {run : ChunkRun}

/-! ## one chunk -/

theorem usableBase_openRunTaken (chunk : Chunk) (c : ℕ) (run : ChunkRun) :
    usableBase (openRunTaken chunk c run) = usableBase chunk := by
  obtain ⟨hbase, -, hoff, -, -⟩ := openRunTaken_fields chunk c run
  unfold usableBase
  rw [hbase, hoff]

theorem Mapped.openRunTaken (hm : Mapped chunk) (c : ℕ) (run : ChunkRun) :
    Mapped (openRunTaken chunk c run) := by
  obtain ⟨hbase, hsize, hoff, -, -⟩ := openRunTaken_fields chunk c run
  exact ⟨hoff.trans hm.offset, by rw [hsize]; exact hm.large, by rw [hbase, hsize]; exact hm.fits⟩

/-- The search stops at the first run of the class, which is the block's run unless that is full now
and not the only one. -/
theorem find_taken_iff (hl : chunk.runsFree c = [run]) (hrun : RunOk c run)
    (hb : run.firstFree < run.numBlocks)
    (hok : RunsOk c ((openRunTaken chunk c run).runsFree c) ((openRunTaken chunk c run).runsFull c)) :
    chunkFindRun (openRunTaken chunk c run) c 0 = some (run.take run.firstFree) ↔
      KeepsFirst chunk c := by
  have hfree := hrun.kept.free_pos hb (ChunkRun.firstFree_clear hb)
  have hcount := hrun.kept.take_count (b := run.firstFree) hfree
  have hkeeps : KeepsFirst chunk c ↔ chunk.runsFull c = [] ∨ run.freeBlocksCount ≠ 1 := by
    unfold KeepsFirst
    rw [hl]
    simp
  rw [hkeeps, chunkFindRun_eq]
  rcases openRunTaken_lists chunk c run with ⟨hz, h1, h2⟩ | ⟨hz, h1, h2⟩
  · have hnd := hok.nodup
    rw [h1, h2, Function.update_self, Function.update_self, List.nil_append] at hnd
    rw [h1, h2, Function.update_self, Function.update_self, List.nil_append]
    rcases hfull : chunk.runsFull c with _ | ⟨r, rest⟩
    · exact iff_of_true rfl (Or.inl rfl)
    · -- the run in front is at another address
      rw [hfull, List.cons_append, List.map_cons] at hnd
      rw [List.cons_append, List.getElem?_cons_zero, Option.some.injEq]
      refine iff_of_false (fun he => ?_) (by simp; omega)
      rw [he] at hnd
      exact absurd (List.mem_map_of_mem (List.mem_append_right rest (List.mem_singleton_self _)))
        (List.nodup_cons.mp hnd).1
  · rw [h1, Function.update_self]
    exact iff_of_true rfl (Or.inr (by omega))

/-- Where the search finds the block's run, the block is given back. -/
theorem taken_given_back (hm : Mapped chunk) (hbase : chunk.baseAddr ≠ 0)
    (hl : chunk.runsFree c = [run]) (hrun : RunOk c run) (hb : run.firstFree < run.numBlocks)
    (hok : RunsOk c ((openRunTaken chunk c run).runsFree c) ((openRunTaken chunk c run).runsFull c))
    (hno : ¬ Allocated chunk c run.addr run.firstFree)
    (hfirst : chunkFindRun (openRunTaken chunk c run) c 0 = some (run.take run.firstFree))
    (c' x b : ℕ) :
    Allocated (chunkFreeSmall (openRunTaken chunk c run)
      (usableBase chunk + run.firstFree * classToSize c) c).1 c' x b ↔ Allocated chunk c' x b := by
  have hkept := hrun.kept.take hb (ChunkRun.firstFree_clear hb)
  have hset : bitmapGet (run.take run.firstFree).allocBitmap run.firstFree = true := by
    rw [hrun.kept.bit_take hb]
    simp
  have hbase' : (openRunTaken chunk c run).baseAddr ≠ 0 := by
    rw [(openRunTaken_fields chunk c run).1]
    exact hbase
  have heq : (chunkFreeSmall (openRunTaken chunk c run)
      (usableBase chunk + run.firstFree * classToSize c) c).1 =
      blockCleared (openRunTaken chunk c run) c (run.take run.firstFree) run.firstFree :=
    chunkFreeSmall_first (x := ⟨_, c, run.addr, run.firstFree⟩) (hm.openRunTaken c run) hbase' hkept
      hfirst hb hset (by rw [usableBase_openRunTaken])
  rw [heq, allocated_blockCleared hok.nodup (chunkFindRun_mem hfirst) hkept hb hset,
    allocated_openRunTaken hl hrun.kept hb]
  constructor
  · rintro ⟨h | h, hne⟩
    · exact h
    · exact absurd h hne
  · intro h
    refine ⟨Or.inl h, ?_⟩
    rintro ⟨rfl, rfl, rfl⟩
    exact hno h

/-- Where it finds another run, the block stays marked. -/
theorem taken_stays_marked (hm : Mapped chunk) (hl : chunk.runsFree c = [run]) (hrun : RunOk c run)
    (hb : run.firstFree < run.numBlocks)
    (hok : RunsOk c ((openRunTaken chunk c run).runsFree c) ((openRunTaken chunk c run).runsFull c))
    (hfirst : chunkFindRun (openRunTaken chunk c run) c 0 ≠ some (run.take run.firstFree)) :
    Allocated (chunkFreeSmall (openRunTaken chunk c run)
      (usableBase chunk + run.firstFree * classToSize c) c).1 c run.addr run.firstFree := by
  have hmarked := (allocated_openRunTaken hl hrun.kept hb c run.addr run.firstFree).mpr
    (Or.inr ⟨rfl, rfl, rfl⟩)
  have hend := hrun.kept.block_end_le hb
  have hpos := hrun.kept.blockSize_pos
  have hoff : blockOffset (openRunTaken chunk c run)
      (usableBase chunk + run.firstFree * classToSize c) / CHUNK_RUN_SIZE = 0 := by
    rw [← usableBase_openRunTaken chunk c run, ← hrun.size,
      blockOffset_eq (hm.openRunTaken c run) (by omega)]
    exact Nat.div_eq_of_lt (by unfold CHUNK_RUN_SIZE; omega)
  rcases chunkFreeSmall_cases (fun r hr => (hok.run r hr).kept)
    (usableBase chunk + run.firstFree * classToSize c) with he |
    ⟨-, r', hmem, b, hb', hset', hf, -, he⟩
  · rw [he]
    dsimp only
    exact hmarked
  · rw [he]
    rw [hoff] at hf
    refine (allocated_blockCleared hok.nodup hmem (hok.run r' hmem).kept hb' hset' _ _ _).mpr
      ⟨hmarked, fun hsame => hfirst ?_⟩
    have hin : run.take run.firstFree ∈ (openRunTaken chunk c run).runsFree c ++
        (openRunTaken chunk c run).runsFull c := by
      rcases openRunTaken_lists chunk c run with ⟨-, h1, h2⟩ | ⟨-, h1, -⟩
      · rw [h1, h2, Function.update_self, Function.update_self]
        simp
      · rw [h1, Function.update_self]
        exact List.mem_append_left _ (List.mem_singleton_self _)
    have ha : r'.addr = (run.take run.firstFree).addr :=
      hsame.2.1.symm.trans (ChunkRun.take_addr run run.firstFree).symm
    rw [hf, hok.eq_of_addr hmem hin ha]

/-- A block that was just taken is freed again under its class exactly when the search stops at its
own run. -/
theorem undo_taken_iff (hm : Mapped chunk) (hbase : chunk.baseAddr ≠ 0)
    (hl : chunk.runsFree c = [run]) (hrun : RunOk c run) (hb : run.firstFree < run.numBlocks)
    (hok : RunsOk c ((openRunTaken chunk c run).runsFree c) ((openRunTaken chunk c run).runsFull c))
    (hno : ¬ Allocated chunk c run.addr run.firstFree) :
    (∀ c' x b, Allocated (chunkFreeSmall (openRunTaken chunk c run)
        (usableBase chunk + run.firstFree * classToSize c) c).1 c' x b ↔ Allocated chunk c' x b) ↔
      KeepsFirst chunk c := by
  rw [← find_taken_iff hl hrun hb hok]
  constructor
  · intro hundo
    by_contra hfirst
    exact hno ((hundo c run.addr run.firstFree).mp (taken_stays_marked hm hl hrun hb hok hfirst))
  · exact fun hfirst => taken_given_back hm hbase hl hrun hb hok hno hfirst

theorem linkRun_frame (chunk : Chunk) (c : ℕ) (run : ChunkRun) :
    SameFrame chunk (linkRun chunk c run) := by
  unfold linkRun
  exact ⟨rfl, rfl, rfl, rfl, rfl⟩

/-- The first block of a new run is freed again, where the run has more blocks. -/
theorem undo_linked (hm : Mapped chunk) (hbase : chunk.baseAddr ≠ 0) (hl : chunk.runsFree c = [])
    {a x : ℕ} (ha : FreshRun chunk a) (hpos : 0 < classToSize c) (hle : classToSize c ≤ CHUNK_RUN_SIZE)
    (hmany : CHUNK_RUN_SIZE / classToSize c ≠ 1)
    (hok : RunsOk c ((openRunTaken (linkRun chunk c (newRun c a x)) c (newRun c a x)).runsFree c)
      ((openRunTaken (linkRun chunk c (newRun c a x)) c (newRun c a x)).runsFull c)) (c' y b : ℕ) :
    Allocated (chunkFreeSmall (openRunTaken (linkRun chunk c (newRun c a x)) c (newRun c a x))
      (usableBase chunk) c).1 c' y b ↔ Allocated chunk c' y b := by
  have hnew : RunOk c (newRun c a x) := (newRun_kept hpos).ok hle
  have hzero : (newRun c a x).firstFree = 0 := newRun_firstFree hpos hle
  have hlt := hnew.kept.firstFree_lt (newRun_free_pos hpos hle)
  have hsame : ∀ c' y b, Allocated (linkRun chunk c (newRun c a x)) c' y b ↔ Allocated chunk c' y b :=
    allocated_linkRun hl
  have hno : ¬ Allocated (linkRun chunk c (newRun c a x)) c (newRun c a x).addr
      (newRun c a x).firstFree := by
    rw [hsame]
    rintro ⟨r, hr, hra, -⟩
    exact ha c r hr hra
  have hlink := linkRun_runsFree chunk c (newRun c a x)
  have hkeeps : KeepsFirst (linkRun chunk c (newRun c a x)) c := by
    refine Or.inr fun run hrun => ?_
    rw [hlink] at hrun
    rw [List.mem_singleton.mp hrun]
    unfold newRun
    dsimp only
    exact hmany
  have hframe := linkRun_frame chunk c (newRun c a x)
  have hbase' : (linkRun chunk c (newRun c a x)).baseAddr ≠ 0 := by
    rw [hframe.baseAddr]
    exact hbase
  have hundo := (undo_taken_iff (hm.congr hframe) hbase' hlink hnew hlt hok hno).mpr hkeeps
  rw [hzero, Nat.zero_mul, Nat.add_zero, hframe.usableBase] at hundo
  exact (hundo c' y b).trans (hsame c' y b)

/-- A block that was just handed out is freed again under its class. -/
theorem undo_alloc_iff (h : ServesClass chunk c) (hpl : InPlace chunk p)
    (hle : classToSize c ≤ CHUNK_RUN_SIZE) (hmany : CHUNK_RUN_SIZE / classToSize c ≠ 1) {env : MetaEnv}
    (hfresh : ∀ x, env.run = some x → FreshRun chunk x) {ptr : ℕ}
    (hptr : (chunkAllocSmall chunk c env).ptr = some ptr) :
    (∀ c' x b, Allocated (chunkFreeSmall (chunkAllocSmall chunk c env).chunk ptr c).1 c' x b ↔
      Allocated chunk c' x b) ↔ KeepsFirst chunk c := by
  have hok := h.chunkOk hpl hle
  have hok' : RunsOk c ((chunkAllocSmall chunk c env).chunk.runsFree c)
      ((chunkAllocSmall chunk c env).chunk.runsFull c) :=
    (chunkAllocSmall_spec hok h.pos hle env hfresh).1.runs c
  have hbase : chunk.baseAddr ≠ 0 := by
    rw [hpl.baseAddr]
    exact hpl.mapping.ne_zero
  rcases (hok.runs c).open_cases with hl | ⟨run, hl⟩
  · rcases h.block hpl hle env with ⟨hno, -⟩ | ⟨hyes, -⟩
    · exact absurd (hno.symm.trans hptr) (by simp)
    obtain ⟨hrun, hbitmap⟩ := hyes.resolve_left fun hne => hne hl
    obtain ⟨a, ha⟩ := Option.isSome_iff_exists.mp hrun
    obtain ⟨x, hx⟩ := Option.isSome_iff_exists.mp hbitmap
    have he : env = ⟨some a, some x⟩ := by rw [← ha, ← hx]
    have hkeeps : KeepsFirst chunk c := by
      refine Or.inr fun run hrun => ?_
      rw [hl] at hrun
      exact absurd hrun List.not_mem_nil
    have hnew : (chunkAllocSmall chunk c env).ptr = some (usableBase chunk) := by
      rw [he, chunkAllocSmall_new hok hl h.pos hle]
    have hchunk : (chunkAllocSmall chunk c env).chunk =
        openRunTaken (linkRun chunk c (newRun c a x)) c (newRun c a x) := by
      rw [he, chunkAllocSmall_new hok hl h.pos hle]
    rw [hchunk] at hok' ⊢
    rw [← Option.some.inj (hnew.symm.trans hptr)]
    exact iff_of_true (undo_linked hpl.mapped hbase hl (hfresh a ha) h.pos hle hmany hok') hkeeps
  · have hmem : run ∈ chunk.runsFree c := by rw [hl]; exact List.mem_singleton_self run
    have hrun := (hok.runs c).run run (List.mem_append_left _ hmem)
    have hlt := hrun.kept.firstFree_lt ((hok.runs c).vacant run hmem)
    have hopen := congrArg ChunkResult.ptr (chunkAllocSmall_open hok hl env)
    have haddr : usableBase chunk + run.firstFree * run.blockSize = ptr :=
      Option.some.inj (hopen.symm.trans hptr)
    rw [chunkAllocSmall_open_chunk hok hl] at hok' ⊢
    rw [← haddr, hrun.size]
    exact undo_taken_iff hpl.mapped hbase hl hrun hlt hok' (not_allocated_firstFree (hok.runs c) hl)

end

/-! ## a small block is handed out -/

/-- The chunk at `p` handed out the block at `ptr`; `chunk` is what it held before, if it was there
at all. -/
structure SmallTaken (a : Arena) (c : ℕ) (env : MetaEnv) (a' : Arena) (ptr p : ℕ) (chunk : Chunk) :
    Prop where
  serves : ServesClass chunk c
  place : InPlace chunk p
  fresh : ∀ x, env.run = some x → FreshRun chunk x
  took : (chunkAllocSmall chunk c env).ptr = some ptr
  stored : a'.chunk = Function.update a.chunk p (chunkAllocSmall chunk c env).chunk
  live : ∀ q, q ∈ a'.live ↔ q ∈ a.live ∨ q = p
  found : (arenaFindAvailableChunk a c = some (.chunk p) ∧ p ∈ a.live ∧ a.chunk p = chunk) ∨
    (arenaFindAvailableChunk a c = none ∧ p ∉ a.live ∧
      ∀ c, chunk.runsFree c = [] ∧ chunk.runsFull c = [])

section
variable {a a' : Arena} {xs xs' : List (ℕ × Option ℕ)} {p c ptr size : ℕ} {chunk : Chunk}

theorem arenaTakeSmall_ptr (a : Arena) (p c : ℕ) (env : MetaEnv) :
    (arenaTakeSmall a p c env).2 = (chunkAllocSmall (a.chunk p) c env).ptr ∧
      (arenaTakeSmall a p c env).1.chunk =
        Function.update a.chunk p (chunkAllocSmall (a.chunk p) c env).chunk ∧
      (arenaTakeSmall a p c env).1.live = a.live := by
  unfold arenaTakeSmall
  dsimp only
  cases (chunkAllocSmall (a.chunk p) c env).ptr with
  | none => exact ⟨rfl, rfl, rfl⟩
  | some ptr => exact ⟨rfl, rfl, rfl⟩

theorem arenaMallocSmall_taken (h : ArenaChunks a xs) (hsize : size ≤ 4096) {env : ArenaEnv}
    (hbase : ∀ p, env.base = some p → ChunkMapping p ∧ p ∉ a.live)
    (hrun : ∀ x, env.run.run = some x → ∀ p ∈ a.live, FreshRun (a.chunk p) x)
    (hptr : (arenaMallocSmall a (sizeToClass size) env).2 = some ptr) :
    ∃ p chunk, SmallTaken a (sizeToClass size) env.run
      (arenaMallocSmall a (sizeToClass size) env).1 ptr p chunk := by
  obtain ⟨hc29, -, hpos, -⟩ := sizeToClass_small hsize
  have hc : sizeToClass size < NUM_SIZE_CLASSES := hc29.trans (by decide)
  generalize sizeToClass size = c at *
  unfold arenaMallocSmall at hptr ⊢
  rcases h.heads.find hc with ⟨p, hp, hf⟩ | ⟨-, hf⟩
  · rw [hf] at hptr ⊢
    dsimp only at hptr ⊢
    obtain ⟨h1, h2, h3⟩ := arenaTakeSmall_ptr a p c env.run
    have hlive := h.heads.mem_live hp
    refine ⟨p, a.chunk p, h.serves p c hp, h.place _ hp, fun x hx => hrun x hx p hlive,
      h1.symm.trans hptr, h2, fun q => ?_, Or.inl ⟨hf, hlive, rfl⟩⟩
    rw [h3]
    exact ⟨Or.inl, fun hq => hq.elim id fun he => he ▸ hlive⟩
  rw [hf] at hptr ⊢
  dsimp only at hptr ⊢
  by_cases hnum : a.maxChunks ≤ a.numChunks
  · rw [if_pos hnum] at hptr
    exact absurd hptr (by simp)
  rw [if_neg hnum] at hptr ⊢
  cases hb : env.base with
  | none =>
    rw [hb, chunkCreate_none] at hptr
    exact absurd hptr (by simp)
  | some p =>
    obtain ⟨hmap, hp⟩ := hbase p hb
    obtain ⟨chunk, hchunk, hbaseAddr, -, -⟩ := chunkCreate_some p
    rw [hb, hchunk] at hptr
    rw [hchunk]
    dsimp only at hptr ⊢
    rw [hbaseAddr] at hptr ⊢
    have hnew : (arenaAddSmall a chunk c).chunk = Function.update a.chunk p chunk := by
      rw [← hbaseAddr]
      rfl
    have hat : (arenaAddSmall a chunk c).chunk p = chunk := by
      rw [hnew, Function.update_self]
    have hempty : ∀ c, chunk.runsFree c = [] ∧ chunk.runsFull c = [] := by
      cases hchunk
      exact fun c => ⟨rfl, rfl⟩
    obtain ⟨h1, h2, h3⟩ := arenaTakeSmall_ptr (arenaAddSmall a chunk c) p c env.run
    rw [hat] at h1 h2
    refine ⟨p, chunk, chunkCreate_serves hpos hchunk, chunkCreate_inPlace hmap hchunk,
      fun x _ c r hr => ?_, h1.symm.trans hptr, ?_, fun q => ?_, Or.inr ⟨hf, hp, hempty⟩⟩
    · rw [(hempty c).1, (hempty c).2] at hr
      exact absurd hr List.not_mem_nil
    · rw [h2, hnew, Function.update_idem]
    · rw [h3, ← hbaseAddr]
      exact List.mem_append.trans (or_congr Iff.rfl List.mem_singleton)

theorem arenaMalloc_taken (h : ArenaChunks a xs) {call : ArenaCall} (hcall : call.Answered a)
    (hsize : call.size ≤ 4096) (hptr : (arenaMalloc a call.size call.env).2 = some ptr) :
    ∃ p chunk, SmallTaken a (sizeToClass call.size) call.env.run
      (arenaMalloc a call.size call.env).1 ptr p chunk := by
  have hidx : ¬ isLargeClassIdx (sizeToClass call.size) = true :=
    mt isLargeClassIdx_iff.mp (by have : SIZE_CLASS_MEDIUM_MAX = 1048576 := rfl; omega)
  unfold arenaMalloc at hptr ⊢
  by_cases h1 : call.size = 0
  · rw [if_pos h1] at hptr
    exact absurd hptr (by simp)
  rw [if_neg h1] at hptr ⊢
  by_cases hon : (!a.active) = true
  · rw [if_pos hon] at hptr
    exact absurd hptr (by simp)
  rw [if_neg hon, if_neg hidx] at hptr ⊢
  have hop : ArenaChunks a.countOp xs := h.congr ⟨rfl, rfl, rfl, rfl⟩ rfl
  obtain ⟨p, chunk, ht⟩ := arenaMallocSmall_taken hop hsize hcall.base hcall.run hptr
  exact ⟨p, chunk, ht.serves, ht.place, ht.fresh, ht.took, ht.stored, ht.live, ht.found⟩

/-! ## `arena_free` right after `arena_malloc` -/

/-- What was marked in the chunk before. -/
theorem SmallTaken.allocated {env : MetaEnv} (ht : SmallTaken a c env a' ptr p chunk) (c' x b : ℕ) :
    ArenaAllocated a p c' x b ↔ Allocated chunk c' x b := by
  unfold ArenaAllocated
  rcases ht.found with ⟨-, hlive, rfl⟩ | ⟨-, hno, hempty⟩
  · exact and_iff_right hlive
  · refine iff_of_false (fun h => hno h.1) ?_
    rintro ⟨r, hr, -⟩
    rw [(hempty c').1, (hempty c').2] at hr
    exact absurd hr List.not_mem_nil

theorem SmallTaken.placed (h : ArenaChunks a' xs') {env : MetaEnv}
    (ht : SmallTaken a (sizeToClass size) env a' ptr p chunk) (hsize : size ≤ 4096)
    (hp : Placed a' xs' ptr size) :
    (p, some (sizeToClass size)) ∈ xs' ∧ ∃ n ≤ 4096, 8 ∣ n ∧ ptr = p + SIZEOF_CHUNK + n := by
  cases hp with
  | small q b hq hs hend hptr =>
    have hle : classToSize (sizeToClass size) ≤ CHUNK_RUN_SIZE := (sizeToClass_small hsize).2.2.2
    rcases ht.serves.block ht.place hle env with ⟨hno, -⟩ | ⟨-, b', hend', hptr'⟩
    · exact absurd (hno.symm.trans ht.took) (by simp)
    -- the address tells the chunk
    have haddr := Option.some.inj (hptr'.symm.trans ht.took)
    have hq' : ptrToChunk (q + (SIZEOF_CHUNK + b * classToSize (sizeToClass size))) = q :=
      (h.place _ hq).ptrToChunk_eq (block_lt (by omega))
    have hp' : ptrToChunk (p + (SIZEOF_CHUNK + b' * classToSize (sizeToClass size))) = p :=
      ht.place.ptrToChunk_eq (block_lt (by omega))
    have hqp : q = p := by
      rw [← hq', ← hp', ← Nat.add_assoc, ← Nat.add_assoc, haddr, hptr]
    subst hqp
    exact ⟨hq, _, by omega, (classToSize_dvd _).mul_left b, hptr⟩
  | large q hq hlarge hfits hptr halloc hfreed =>
    have : SIZE_CLASS_MEDIUM_MAX = 1048576 := rfl
    omega

/-- What `arena_free` undoes is what `chunk_free_small` undoes under class zero. -/
theorem SmallTaken.undo_iff (h : ArenaChunks a' xs') (hon : a'.active = true) {env : MetaEnv}
    (ht : SmallTaken a (sizeToClass size) env a' ptr p chunk) (hsize : size ≤ 4096)
    (hp : Placed a' xs' ptr size) :
    (∀ q c x b, ArenaAllocated (arenaFree a' ptr) q c x b ↔ ArenaAllocated a q c x b) ↔
      ∀ c x b, Allocated (chunkFreeSmall (chunkAllocSmall chunk (sizeToClass size) env).chunk ptr 0).1
        c x b ↔ Allocated chunk c x b := by
  obtain ⟨hmem, n, hn, h8, hptr⟩ := ht.placed h hsize hp
  have hfree := arenaFree_small h hon hmem h8 hn
  rw [← hptr] at hfree
  have hat : a'.chunk p = (chunkAllocSmall chunk (sizeToClass size) env).chunk := by
    rw [ht.stored, Function.update_self]
  have hlive : (arenaFree a' ptr).live = a'.live := by
    rw [hfree]
    rfl
  have hchunk : (arenaFree a' ptr).chunk = Function.update a'.chunk p
      (chunkFreeSmall (chunkAllocSmall chunk (sizeToClass size) env).chunk ptr 0).1 := by
    rw [hfree, hat]
    rfl
  have hself : ∀ c x b, ArenaAllocated (arenaFree a' ptr) p c x b ↔
      Allocated (chunkFreeSmall (chunkAllocSmall chunk (sizeToClass size) env).chunk ptr 0).1 c x b := by
    intro c x b
    unfold ArenaAllocated
    rw [hchunk, Function.update_self, hlive]
    exact and_iff_right ((ht.live p).mpr (Or.inr rfl))
  constructor
  · intro hundo c x b
    rw [← hself, hundo, ht.allocated]
  · intro hundo q c x b
    by_cases hqp : q = p
    · rw [hqp, hself, hundo, ht.allocated]
    · unfold ArenaAllocated
      rw [hchunk, Function.update_of_ne hqp, ht.stored, Function.update_of_ne hqp, hlive, ht.live q]
      exact and_congr_left fun _ => or_iff_left hqp

end

/-- **One call**: a block of class zero is given back where its run stays the first, and a block of
another class is not. -/
theorem free_undoes_iff {a : Arena} {xs : List (ℕ × Option ℕ)} (h : ArenaChunks a xs)
    (hon : a.active = true) {call : ArenaCall} (hcall : call.Answered a) (hsize : call.size ≤ 4096)
    {ptr : ℕ} (hptr : (arenaMalloc a call.size call.env).2 = some ptr) :
    (∀ p c x b, ArenaAllocated (arenaFree (arenaMalloc a call.size call.env).1 ptr) p c x b ↔
      ArenaAllocated a p c x b) ↔
    call.size ≤ 8 ∧ ∀ p, arenaFindAvailableChunk a 0 = some (.chunk p) → KeepsFirst (a.chunk p) 0 := by
  obtain ⟨p, chunk, ht⟩ := arenaMalloc_taken h hcall hsize hptr
  obtain ⟨xs', hgrown, hout⟩ := arenaMalloc_spec h hcall
  have hplaced : Placed (arenaMalloc a call.size call.env).1 xs' ptr call.size := by
    rw [hptr] at hout
    cases hout with
    | served _ _ hplaced _ _ => exact hplaced
  rw [ht.undo_iff hgrown.chunks (hgrown.active.trans hon) hsize hplaced, ← sizeToClass_eq_zero hsize]
  have hle : classToSize (sizeToClass call.size) ≤ CHUNK_RUN_SIZE := (sizeToClass_small hsize).2.2.2
  have hserves := ht.serves
  have htook := ht.took
  have hfound := ht.found
  generalize hc : sizeToClass call.size = c at *
  by_cases hz : c = 0
  · subst hz
    rw [undo_alloc_iff hserves ht.place hle (by decide) ht.fresh htook, and_iff_right rfl]
    rcases hfound with ⟨hf, -, rfl⟩ | ⟨hf, -, hempty⟩
    · rw [hf]
      refine ⟨fun hkeeps q hq => ?_, fun hall => hall p rfl⟩
      cases hq
      exact hkeeps
    · rw [hf]
      exact iff_of_true (Or.inl (hempty 0).2) fun q hq => absurd hq (by simp)
  · refine iff_of_false (fun hundo => ?_) fun hr => hz hr.1
    have hserves' := hserves.alloc ht.place call.env.run ht.fresh
    have hok := hserves.chunkOk ht.place hle
    -- the class has no run under class zero, and the block stays marked
    rw [hserves'.free_other (Ne.symm hz)] at hundo
    rcases (chunkAllocSmall_spec hok hserves.pos hle call.env.run ht.fresh).2 with
      ⟨hno, -⟩ | ⟨x, b, hnot, -, -, hall⟩
    · exact absurd (hno.symm.trans htook) (by simp)
    · exact hnot ((hundo c x b).mp ((hall c x b).mpr (Or.inr ⟨rfl, rfl, rfl⟩)))

/-- **`arena_free` undoes `arena_malloc`** of a small block exactly where the block is of at most
eight bytes, and the run it is of stays the first of its class. -/
theorem arena_free_undoes_iff {ops : List ArenaOp}
    (hops : Runs.Each ArenaHeap.step ArenaOp.Legal ArenaHeap.init ops) {call : ArenaCall}
    (hcall : call.Answered (Runs.after ArenaHeap.step ArenaHeap.init ops).arena)
    (hsize : call.size ≤ 4096) {ptr : ℕ}
    (hptr : (arenaMalloc (Runs.after ArenaHeap.step ArenaHeap.init ops).arena call.size call.env).2 =
      some ptr) :
    (∀ p c x b, ArenaAllocated
        (arenaFree (arenaMalloc (Runs.after ArenaHeap.step ArenaHeap.init ops).arena call.size
          call.env).1 ptr) p c x b ↔
      ArenaAllocated (Runs.after ArenaHeap.step ArenaHeap.init ops).arena p c x b) ↔
    call.size ≤ 8 ∧ ∀ p, arenaFindAvailableChunk
        (Runs.after ArenaHeap.step ArenaHeap.init ops).arena 0 = some (.chunk p) →
      KeepsFirst ((Runs.after ArenaHeap.step ArenaHeap.init ops).arena.chunk p) 0 := by
  obtain ⟨xs, h⟩ := ArenaHeap.ok_run hops
  exact free_undoes_iff h.chunks h.active hcall hsize hptr

/-- A fresh arena takes the first block of eight bytes back, block 0 of the run at 64. -/
theorem arena_free_undoes_eight :
    ArenaAllocated (arenaFree (arenaMalloc arenaCreate 8 givenEnv).1 (CHUNK_ALIGN + SIZEOF_CHUNK))
      CHUNK_ALIGN 0 64 0 ↔ ArenaAllocated arenaCreate CHUNK_ALIGN 0 64 0 := by
  have hptr : (arenaMalloc arenaCreate 8 givenEnv).2 = some (CHUNK_ALIGN + SIZEOF_CHUNK) := by
    decide +kernel
  have hnone : arenaFindAvailableChunk arenaCreate 0 = none := by decide +kernel
  have hall : ∀ p, arenaFindAvailableChunk arenaCreate 0 = some (.chunk p) →
      KeepsFirst (arenaCreate.chunk p) 0 := fun p hp => absurd (hnone.symm.trans hp) (by simp)
  exact (@arena_free_undoes_iff [] trivial ⟨8, givenEnv⟩ (givenEnv_answered (by decide)) (by decide)
    _ hptr).mpr ⟨by decide, hall⟩ CHUNK_ALIGN 0 64 0

/-- A block of sixteen bytes of a fresh arena stays marked when it is freed. -/
theorem sixteen_bytes_stay_marked : ¬ ∀ (ops : List ArenaOp) (call : ArenaCall) (ptr : ℕ),
    Runs.Each ArenaHeap.step ArenaOp.Legal ArenaHeap.init ops →
    call.Answered (Runs.after ArenaHeap.step ArenaHeap.init ops).arena → call.size ≤ 4096 →
    (arenaMalloc (Runs.after ArenaHeap.step ArenaHeap.init ops).arena call.size call.env).2 =
      some ptr →
    ∀ p c x b, ArenaAllocated
        (arenaFree (arenaMalloc (Runs.after ArenaHeap.step ArenaHeap.init ops).arena call.size
          call.env).1 ptr) p c x b ↔
      ArenaAllocated (Runs.after ArenaHeap.step ArenaHeap.init ops).arena p c x b := by
  intro h
  have hptr : (arenaMalloc arenaCreate 16 givenEnv).2 = some (CHUNK_ALIGN + SIZEOF_CHUNK) := by
    decide +kernel
  have hundo := h [] ⟨16, givenEnv⟩ _ trivial (givenEnv_answered (by decide)) (by decide) hptr
    CHUNK_ALIGN 1 64 0
  have hmarked : ArenaAllocated (arenaFree (arenaMalloc arenaCreate 16 givenEnv).1
      (CHUNK_ALIGN + SIZEOF_CHUNK)) CHUNK_ALIGN 1 64 0 := by
    unfold ArenaAllocated Allocated
    decide +kernel
  exact absurd (hundo.mp hmarked).1 List.not_mem_nil

end Nomalloc
