import Nomalloc.Memory.ChunkBooks
import Nomalloc.Memory.ArenaLists
import Nomalloc.Memory.ArenaUnlink

/-!
# What the chunks of an arena hold

A chunk that is created for a size class serves that class and no other: its runs are of the class,
and there is at most one with free blocks.  `arena_free` gives every small block back under class
zero, whatever class it is of, so the chunk of another class never gets a block back.

* `ServesClass chunk c`  the runs of a chunk that serves the class `c`;
* `ArenaChunks a xs`     the chunks `xs` of the arena `a`, each with the class it serves, if any;
* `Placed a xs ptr size` where a block lies that was handed out for `size` bytes;
* `arenaMalloc_spec`, `arenaFree_spec`   what the two functions do to the chunks.
-/

namespace Nomalloc

/-- What `memory_alloc_aligned` answers for a chunk: the mapping has an address behind it. -/
structure ChunkMapping (p : ℕ) : Prop extends MappingOk p CHUNK_DEFAULT_SIZE where
  below : p + CHUNK_DEFAULT_SIZE < wordSize

/-- A chunk lies where it was mapped. -/
structure InPlace (chunk : Chunk) (p : ℕ) : Prop where
  baseAddr : chunk.baseAddr = p
  offset : chunk.usableOffset = SIZEOF_CHUNK
  size : chunk.size = CHUNK_DEFAULT_SIZE
  mapping : ChunkMapping p

/-- A chunk holds runs of one class.  The runs of a class above 4096 bytes have no block. -/
structure ServesClass (chunk : Chunk) (c : ℕ) : Prop where
  small : chunk.isLarge = false
  pos : 0 < classToSize c
  others : ∀ c', c' ≠ c → chunk.runsFree c' = [] ∧ chunk.runsFull c' = []
  runs : classToSize c ≤ CHUNK_RUN_SIZE → RunsOk c (chunk.runsFree c) (chunk.runsFull c)
  blockless : CHUNK_RUN_SIZE < classToSize c → ∀ r ∈ chunk.runsFree c, r.numBlocks = 0

section
variable {chunk chunk' : Chunk} {p c ptr : ℕ}

/-! ## one chunk -/

namespace InPlace

theorem mapped (h : InPlace chunk p) : Mapped chunk :=
  ⟨h.offset, le_of_eq h.size.symm, by rw [h.baseAddr, h.size]; exact h.mapping.fits⟩

theorem congr (h : InPlace chunk p) (hs : SameFrame chunk chunk') : InPlace chunk' p :=
  ⟨hs.baseAddr.trans h.baseAddr, hs.usableOffset.trans h.offset, hs.size.trans h.size, h.mapping⟩

theorem usableBase_eq (h : InPlace chunk p) : usableBase chunk = p + SIZEOF_CHUNK := by
  unfold usableBase
  rw [h.baseAddr, h.offset]

theorem ptrToChunk_eq (h : InPlace chunk p) {n : ℕ} (hn : n < CHUNK_DEFAULT_SIZE) :
    ptrToChunk (p + n) = p := by
  refine (ptrToChunk_eq_iff h.mapping.aligned).mpr ⟨Nat.le_add_right p n, ?_⟩
  exact Nat.add_lt_add_left (show n < CHUNK_ALIGN from hn) p

end InPlace

theorem chunkCreate_inPlace (hp : ChunkMapping p)
    (hc : chunkCreate CHUNK_DEFAULT_SIZE (some p) = some chunk) : InPlace chunk p := by
  cases hc
  have hoff : alignUp SIZEOF_CHUNK 16 = SIZEOF_CHUNK := by decide
  have hsize : alignUp CHUNK_DEFAULT_SIZE CHUNK_ALIGN = CHUNK_DEFAULT_SIZE := by decide
  exact ⟨rfl, hoff, hsize, hp⟩

theorem chunkCreate_serves (hpos : 0 < classToSize c)
    (hc : chunkCreate CHUNK_DEFAULT_SIZE (some p) = some chunk) : ServesClass chunk c := by
  cases hc
  exact ⟨rfl, hpos, fun _ _ => ⟨rfl, rfl⟩,
    fun _ => ⟨Nat.zero_le 1, by simp, by simp, by simp, List.nodup_nil⟩, by simp⟩

/-- The lists of the other classes are as they were. -/
def SameOthers (c : ℕ) (chunk chunk' : Chunk) : Prop :=
  ∀ c', c' ≠ c → chunk'.runsFree c' = chunk.runsFree c' ∧ chunk'.runsFull c' = chunk.runsFull c'

theorem SameOthers.refl (c : ℕ) (chunk : Chunk) : SameOthers c chunk chunk := fun _ _ => ⟨rfl, rfl⟩

theorem SameOthers.trans {chunk'' : Chunk} (h : SameOthers c chunk chunk')
    (h' : SameOthers c chunk' chunk'') : SameOthers c chunk chunk'' := fun c' hne =>
  ⟨(h' c' hne).1.trans (h c' hne).1, (h' c' hne).2.trans (h c' hne).2⟩

theorem chunkTakeBlock_others (chunk : Chunk) (c : ℕ) (run : ChunkRun) (calls : List LibcCall) :
    SameOthers c chunk (chunkTakeBlock chunk c run calls).chunk := by
  unfold chunkTakeBlock
  extract_lets blockIdx run' runIdx base runBase ptr allocated
  by_cases h1 : run.numBlocks ≤ blockIdx
  · rw [if_pos h1]
    exact SameOthers.refl c chunk
  · rw [if_neg h1]
    by_cases h2 : run'.freeBlocksCount = 0
    · rw [if_pos h2]
      exact fun c' hne => ⟨Function.update_of_ne hne .., Function.update_of_ne hne ..⟩
    · rw [if_neg h2]
      exact fun c' hne => ⟨Function.update_of_ne hne .., rfl⟩

/-- `chunk_alloc_small` leaves the other classes alone. -/
theorem chunkAllocSmall_others (chunk : Chunk) (c : ℕ) (env : MetaEnv) :
    SameOthers c chunk (chunkAllocSmall chunk c env).chunk := by
  unfold chunkAllocSmall
  rcases chunkFindAvailableRun chunk c with _ | run
  · rcases env with ⟨_ | a, bitmap⟩
    · exact SameOthers.refl c chunk
    · generalize classToSize c = blockSize
      by_cases hz : blockSize = 0
      · simp only [hz, if_true]
        exact SameOthers.refl c chunk
      · rcases bitmap with _ | b
        · simp only [hz, if_false]
          exact SameOthers.refl c chunk
        · simp only [hz, if_false]
          refine SameOthers.trans ?_ (chunkTakeBlock_others _ c _ _)
          exact fun c' hne => ⟨Function.update_of_ne hne .., rfl⟩
  · exact chunkTakeBlock_others chunk c run []

/-- A class above 4096 bytes gets a run of no block, once. -/
theorem chunkAllocSmall_blockless (hbig : CHUNK_RUN_SIZE < classToSize c)
    (h : ∀ r ∈ chunk.runsFree c, r.numBlocks = 0) (env : MetaEnv) :
    (chunkAllocSmall chunk c env).ptr = none ∧
      ∀ r ∈ (chunkAllocSmall chunk c env).chunk.runsFree c, r.numBlocks = 0 := by
  have hzero : CHUNK_RUN_SIZE / classToSize c = 0 := Nat.div_eq_of_lt hbig
  unfold chunkAllocSmall chunkFindAvailableRun
  cases hf : chunk.runsFree c with
  | cons run rest =>
    have hrun : run.numBlocks = 0 := h run (by rw [hf]; exact List.mem_cons_self)
    rw [List.head?_cons]
    dsimp only
    rw [chunkTakeBlock_full (hrun ▸ Nat.zero_le _)]
    exact ⟨rfl, h⟩
  | nil =>
    rw [List.head?_nil]
    have hpos : classToSize c ≠ 0 := by omega
    rcases env with ⟨_ | a, bitmap⟩
    · exact ⟨rfl, h⟩
    rcases bitmap with _ | b
    · simp only [hpos, if_false]
      exact ⟨trivial, h⟩
    simp only [hpos, if_false, hzero]
    rw [chunkTakeBlock_full (Nat.zero_le _)]
    refine ⟨rfl, fun r hr => ?_⟩
    dsimp only at hr
    rw [Function.update_self, List.nil_append] at hr
    rw [List.mem_singleton.mp hr]

/-- There is a free block, or libc has memory for a run. -/
def HasBlock (chunk : Chunk) (c : ℕ) (env : MetaEnv) : Prop :=
  chunk.runsFree c ≠ [] ∨ env.run.isSome ∧ env.bitmap.isSome

namespace ServesClass

theorem chunkOk (h : ServesClass chunk c) (hpl : InPlace chunk p)
    (hle : classToSize c ≤ CHUNK_RUN_SIZE) : ChunkOk chunk := by
  have hm := hpl.mapped
  refine ⟨hm.offset, hm.large, hm.fits, fun c' => ?_⟩
  by_cases he : c' = c
  · rw [he]
    exact h.runs hle
  · rw [(h.others c' he).1, (h.others c' he).2]
    exact ⟨Nat.zero_le 1, by simp, by simp, by simp, List.nodup_nil⟩

theorem alloc (h : ServesClass chunk c) (hpl : InPlace chunk p) (env : MetaEnv)
    (hfresh : ∀ x, env.run = some x → FreshRun chunk x) :
    ServesClass (chunkAllocSmall chunk c env).chunk c := by
  have hothers := chunkAllocSmall_others chunk c env
  refine ⟨(chunkAllocSmall_frame chunk c env).isLarge.trans h.small, h.pos, fun c' hne => ?_,
    fun hle => ?_, fun hbig => ?_⟩
  · rw [(hothers c' hne).1, (hothers c' hne).2]
    exact h.others c' hne
  · exact (chunkAllocSmall_spec (h.chunkOk hpl hle) h.pos hle env hfresh).1.runs c
  · exact (chunkAllocSmall_blockless hbig (h.blockless hbig) env).2

theorem block (h : ServesClass chunk c) (hpl : InPlace chunk p) (hle : classToSize c ≤ CHUNK_RUN_SIZE)
    (env : MetaEnv) :
    ((chunkAllocSmall chunk c env).ptr = none ∧ ¬ HasBlock chunk c env) ∨
      HasBlock chunk c env ∧ ∃ b, b * classToSize c + classToSize c ≤ 4096 ∧
        (chunkAllocSmall chunk c env).ptr = some (p + SIZEOF_CHUNK + b * classToSize c) := by
  have hok := h.chunkOk hpl hle
  rw [← hpl.usableBase_eq]
  rcases (hok.runs c).open_cases with hl | ⟨run, hl⟩
  · by_cases henv : env.run.isSome ∧ env.bitmap.isSome
    · obtain ⟨⟨a, ha⟩, b, hb⟩ := And.imp Option.isSome_iff_exists.mp Option.isSome_iff_exists.mp henv
      have he : env = ⟨some a, some b⟩ := by rw [← ha, ← hb]
      refine Or.inr ⟨Or.inr henv, 0, by rw [Nat.zero_mul, Nat.zero_add]; exact hle, ?_⟩
      rw [he, chunkAllocSmall_new hok hl h.pos hle, Nat.zero_mul, Nat.add_zero]
    · refine Or.inl ⟨?_, fun hb => hb.elim (fun hne => hne hl) henv⟩
      have hpos := Nat.ne_of_gt h.pos
      rcases env with ⟨_ | a, bitmap⟩
      · simp only [chunkAllocSmall, chunkFindAvailableRun, hl, List.head?_nil]
      rcases bitmap with _ | b
      · simp only [chunkAllocSmall, chunkFindAvailableRun, hl, List.head?_nil, hpos, if_false]
      · exact absurd ⟨rfl, rfl⟩ henv
  · have hmem : run ∈ chunk.runsFree c := by rw [hl]; exact List.mem_singleton_self run
    have hrun := (hok.runs c).run run (List.mem_append_left _ hmem)
    have hlt := hrun.kept.firstFree_lt ((hok.runs c).vacant run hmem)
    refine Or.inr ⟨Or.inl (by rw [hl]; exact List.cons_ne_nil _ _), run.firstFree, ?_, ?_⟩
    · rw [← hrun.size]
      exact hrun.kept.block_end_le hlt
    · rw [chunkAllocSmall_open hok hl, hrun.size]

/-- `chunk_free_small` under a class without a run. -/
theorem free_other (h : ServesClass chunk c) {c' : ℕ} (hne : c' ≠ c) (ptr : ℕ) :
    (chunkFreeSmall chunk ptr c').1 = chunk := by
  have hnil : chunk.runsFree c' ++ chunk.runsFull c' = [] := by
    rw [(h.others c' hne).1, (h.others c' hne).2]
    rfl
  have hkept : ∀ r ∈ chunk.runsFree c' ++ chunk.runsFull c', RunKept c' r := by simp [hnil]
  rcases chunkFreeSmall_cases hkept ptr with he | ⟨-, run, hmem, -⟩
  · rw [he]
  · rw [hnil] at hmem
    exact absurd hmem List.not_mem_nil

theorem free (h : ServesClass chunk c) (hpl : InPlace chunk p) (ptr : ℕ) :
    ServesClass (chunkFreeSmall chunk ptr 0).1 c := by
  by_cases hc : 0 = c
  · subst hc
    have hle : classToSize 0 ≤ CHUNK_RUN_SIZE := by decide
    have hok := h.chunkOk hpl hle
    rcases chunkFreeSmall_cases (fun r hr => ((hok.runs 0).run r hr).kept) ptr with
      he | ⟨-, run, hmem, b, hb, hset, -, -, he⟩
    · rw [he]
      exact h
    · rw [he]
      refine ⟨(blockCleared_fields chunk 0 run b).2.2.2.trans h.small, h.pos, fun c' hne => ?_,
        fun _ => (blockCleared_ok hok hmem hb hset).runs 0, fun hbig => absurd hbig (by decide)⟩
      rw [(blockCleared_others chunk 0 run b c' hne).1, (blockCleared_others chunk 0 run b c' hne).2]
      exact h.others c' hne
  · rw [h.free_other hc]
    exact h

end ServesClass

end

/-! ## the chunks of an arena -/

/-- The arena has the chunks `xs`. -/
structure ArenaChunks (a : Arena) (xs : List (ℕ × Option ℕ)) : Prop where
  heads : ArenaHeads a xs
  linked : LargeLinked a.links xs
  place : ∀ x ∈ xs, InPlace (a.chunk x.1) x.1
  serves : ∀ p c, (p, some c) ∈ xs → ServesClass (a.chunk p) c
  large : ∀ p, (p, none) ∈ xs → (a.chunk p).isLarge = true

/-- Where a block lies that was handed out for `size` bytes. -/
inductive Placed (a : Arena) (xs : List (ℕ × Option ℕ)) (ptr size : ℕ) : Prop
  | small (p b : ℕ) (hmem : (p, some (sizeToClass size)) ∈ xs) (hsize : size ≤ 4096)
      (hend : b * classToSize (sizeToClass size) + classToSize (sizeToClass size) ≤ 4096)
      (hptr : ptr = p + SIZEOF_CHUNK + b * classToSize (sizeToClass size))
  | large (p : ℕ) (hmem : (p, none) ∈ xs) (hsize : SIZE_CLASS_MEDIUM_MAX < size)
      (hfits : alignUp size CHUNK_RUN_SIZE ≤ CHUNK_ROOM) (hptr : ptr = p + SIZEOF_CHUNK)
      (halloc : (a.chunk p).allocatedBytes = SIZEOF_CHUNK + alignUp size CHUNK_RUN_SIZE)
      (hfreed : (a.chunk p).freedBytes = 0)

/-- What an arena that has served a call has kept, and what came to it. -/
structure ArenaGrown (a : Arena) (xs : List (ℕ × Option ℕ)) (a' : Arena)
    (xs' : List (ℕ × Option ℕ)) : Prop where
  chunks : ArenaChunks a' xs'
  keeps : ∀ x ∈ xs, x ∈ xs'
  fresh : ∀ x ∈ xs', x ∈ xs ∨ x.1 ∉ a.live
  large : ∀ p, (p, none) ∈ xs → a'.chunk p = a.chunk p
  freed : a'.freedBytes = a.freedBytes
  active : a'.active = a.active

section
variable {a a' : Arena} {xs xs' : List (ℕ × Option ℕ)} {p c : ℕ} {o : Option ℕ} {chunk : Chunk}

namespace ArenaHeads

theorem mem_live (h : ArenaHeads a xs) (hp : (p, o) ∈ xs) : p ∈ a.live := by
  rw [h.live]
  exact List.mem_map_of_mem hp

theorem unique (h : ArenaHeads a xs) {o' : Option ℕ} (hp : (p, o) ∈ xs) (hp' : (p, o') ∈ xs) :
    o = o' := by
  have hnd := h.nodup
  rw [h.live] at hnd
  exact congrArg Prod.snd (List.inj_on_of_nodup_map hnd hp hp' rfl)

end ArenaHeads

namespace ArenaChunks

theorem store (h : ArenaChunks a xs) (hlists : SameLists a a')
    (hchunk : a'.chunk = Function.update a.chunk p chunk) (hplace : InPlace chunk p)
    (hserves : ∀ c, (p, some c) ∈ xs → ServesClass chunk c)
    (hlarge : (p, none) ∈ xs → chunk.isLarge = true) : ArenaChunks a' xs := by
  refine ⟨h.heads.congr hlists.links hlists.live hlists.count hlists.max,
    hlists.links ▸ h.linked, fun x hx => ?_, fun q c hq => ?_, fun q hq => ?_⟩
  · rw [hchunk, Function.update_apply]
    by_cases hxp : x.1 = p
    · rw [if_pos hxp, hxp]
      exact hplace
    · rw [if_neg hxp]
      exact h.place x hx
  · rw [hchunk, Function.update_apply]
    by_cases hqp : q = p
    · rw [if_pos hqp]
      exact hserves c (hqp ▸ hq)
    · rw [if_neg hqp]
      exact h.serves q c hq
  · rw [hchunk, Function.update_apply]
    by_cases hqp : q = p
    · rw [if_pos hqp]
      exact hlarge (hqp ▸ hq)
    · rw [if_neg hqp]
      exact h.large q hq

theorem add (h : ArenaChunks a xs) (hp : p ∉ a.live) (hnum : a.numChunks < a.maxChunks)
    (ho : ∀ c, o = some c → c < NUM_SIZE_CLASSES ∧ ∀ q, (q, some c) ∉ xs) {z : ArenaNode}
    (hlast : (ArenaNode.list :: nodes xs).getLast? = some z)
    (hl : LinkedChunk a.links a'.links z p o) (hlive : a'.live = a.live ++ [p])
    (hcount : a'.numChunks = addW a.numChunks 1) (hmax : a'.maxChunks = a.maxChunks)
    (hchunk : a'.chunk = Function.update a.chunk p chunk) (hplace : InPlace chunk p)
    (hserves : ∀ c, o = some c → ServesClass chunk c) (hlarge : o = none → chunk.isLarge = true)
    (hfreed : a'.freedBytes = a.freedBytes) (hactive : a'.active = a.active) :
    ArenaGrown a xs a' (xs ++ [(p, o)]) := by
  have hne : ∀ q o', (q, o') ∈ xs → q ≠ p := fun q o' hq hqp => hp (hqp ▸ h.heads.mem_live hq)
  have hold : ∀ q o', (q, o') ∈ xs → a'.chunk q = a.chunk q := fun q o' hq => by
    rw [hchunk, Function.update_of_ne (hne q o' hq)]
  have hnew : a'.chunk p = chunk := by rw [hchunk, Function.update_self]
  refine ⟨⟨h.heads.link hp hnum ho hlast hl hlive hcount hmax,
      h.linked.link h.heads.nodup_nodes (fun n hn => h.heads.node_ne hp hn) hlast hl,
      fun x hx => ?_, fun q c hq => ?_, fun q hq => ?_⟩,
    fun x hx => List.mem_append_left _ hx, fun x hx => ?_, fun q hq => hold q none hq, hfreed, hactive⟩
  · rcases List.mem_append.mp hx with hx | hx
    · rw [hold x.1 x.2 hx]
      exact h.place x hx
    · rw [List.mem_singleton.mp hx, hnew]
      exact hplace
  · rcases List.mem_append.mp hq with hq | hq
    · rw [hold q (some c) hq]
      exact h.serves q c hq
    · obtain ⟨rfl, hc⟩ := Prod.mk.inj (List.mem_singleton.mp hq)
      rw [hnew]
      exact hserves c hc.symm
  · rcases List.mem_append.mp hq with hq | hq
    · rw [hold q none hq]
      exact h.large q hq
    · obtain ⟨rfl, hc⟩ := Prod.mk.inj (List.mem_singleton.mp hq)
      rw [hnew]
      exact hlarge hc.symm
  · rcases List.mem_append.mp hx with hx | hx
    · exact Or.inl hx
    · rw [List.mem_singleton.mp hx]
      exact Or.inr hp

end ArenaChunks

theorem ArenaGrown.refl (h : ArenaChunks a xs) : ArenaGrown a xs a xs :=
  ⟨h, fun _ hx => hx, fun _ hx => Or.inl hx, fun _ _ => rfl, rfl, rfl⟩

end

/-! ## `arena_malloc` -/

/-- What the kernel and libc answer to a call is not in use. -/
structure ArenaCall.Answered (a : Arena) (call : ArenaCall) : Prop where
  size : call.size < wordSize
  base : ∀ p, call.env.base = some p → ChunkMapping p ∧ p ∉ a.live
  run : ∀ x, call.env.run.run = some x → ∀ p ∈ a.live, FreshRun (a.chunk p) x

/-- The chunk of the class has a block, or one can be made. -/
def ArenaHasBlock (a : Arena) (c : ℕ) (env : ArenaEnv) : Prop :=
  (∃ p, arenaFindAvailableChunk a c = some (.chunk p) ∧ HasBlock (a.chunk p) c env.run) ∨
    arenaFindAvailableChunk a c = none ∧ a.numChunks < a.maxChunks ∧ env.base.isSome ∧
      env.run.run.isSome ∧ env.run.bitmap.isSome

/-- The calls that get a block. -/
def ArenaCall.Obtains (a : Arena) (call : ArenaCall) : Prop :=
  call.LinksLarge a ∨
    call.Served a ∧ call.size ≤ 4096 ∧ ArenaHasBlock a (sizeToClass call.size) call.env

/-- What is added to `allocated_bytes` for a block. -/
def chargeOf (size : ℕ) : ℕ :=
  if isLargeClassIdx (sizeToClass size) then size else classToSize (sizeToClass size)

/-- How an allocation of `size` bytes ends, that gets a block where `yes` holds. -/
inductive Malloced (a : Arena) (xs : List (ℕ × Option ℕ)) (size : ℕ) (yes : Prop) (a' : Arena)
    (xs' : List (ℕ × Option ℕ)) : Option ℕ → Prop
  | refused (hno : ¬ yes) (hbytes : a'.allocatedBytes = a.allocatedBytes) :
    Malloced a xs size yes a' xs' none
  | served (ptr : ℕ) (hyes : yes) (hplaced : Placed a' xs' ptr size)
      (hnew : ∀ p, (p, none) ∈ xs → ptr ≠ p + SIZEOF_CHUNK)
      (hbytes : a'.allocatedBytes = addW a.allocatedBytes (chargeOf size)) :
    Malloced a xs size yes a' xs' (some ptr)

section
variable {a a' : Arena} {xs xs' : List (ℕ × Option ℕ)} {p c ptr size : ℕ} {chunk : Chunk}

theorem ArenaChunks.congr (h : ArenaChunks a xs) (hlists : SameLists a a')
    (hchunk : a'.chunk = a.chunk) : ArenaChunks a' xs := by
  refine ⟨h.heads.congr hlists.links hlists.live hlists.count hlists.max, hlists.links ▸ h.linked,
    ?_, ?_, ?_⟩
  · rw [hchunk]; exact h.place
  · rw [hchunk]; exact h.serves
  · rw [hchunk]; exact h.large

theorem ArenaGrown.trans {a'' : Arena} {xs'' : List (ℕ × Option ℕ)} (h : ArenaChunks a xs)
    (h1 : ArenaGrown a xs a' xs') (h2 : ArenaGrown a' xs' a'' xs'') : ArenaGrown a xs a'' xs'' := by
  refine ⟨h2.chunks, fun x hx => h2.keeps x (h1.keeps x hx), fun x hx => ?_,
    fun p hp => (h2.large p (h1.keeps _ hp)).trans (h1.large p hp), h2.freed.trans h1.freed,
    h2.active.trans h1.active⟩
  rcases h2.fresh x hx with hx | hx
  · exact h1.fresh x hx
  · refine Or.inr fun hin => hx ?_
    rw [h.heads.live] at hin
    obtain ⟨y, hy, he⟩ := List.mem_map.mp hin
    exact he ▸ h1.chunks.heads.mem_live (p := y.1) (o := y.2) (h1.keeps y hy)

/-- Distinct chunks hold distinct blocks. -/
theorem ArenaChunks.same_chunk (h : ArenaChunks a xs) {q n m : ℕ} {o o' : Option ℕ}
    (hp : (p, o) ∈ xs) (hq : (q, o') ∈ xs) (hn : n < CHUNK_DEFAULT_SIZE) (hm : m < CHUNK_DEFAULT_SIZE)
    (he : p + n = q + m) : p = q ∧ o = o' := by
  have h1 : ptrToChunk (p + n) = p := (h.place _ hp).ptrToChunk_eq hn
  have h2 : ptrToChunk (q + m) = q := (h.place _ hq).ptrToChunk_eq hm
  have hpq : p = q := by rw [← h1, he, h2]
  subst hpq
  exact ⟨rfl, h.heads.unique hp hq⟩

theorem arenaTakeSmall_grown (h : ArenaChunks a xs) (hp : (p, some c) ∈ xs) (env : MetaEnv)
    (hfresh : ∀ x, env.run = some x → FreshRun (a.chunk p) x) :
    ArenaGrown a xs (arenaTakeSmall a p c env).1 xs := by
  have hpl := h.place _ hp
  have hframe := chunkAllocSmall_frame (a.chunk p) c env
  have hchunks : ∀ a', SameLists a a' →
      a'.chunk = Function.update a.chunk p (chunkAllocSmall (a.chunk p) c env).chunk →
      a'.freedBytes = a.freedBytes → a'.active = a.active → ArenaGrown a xs a' xs := by
    intro a' hlists hchunk hfreed hactive
    have hsmall : (p, none) ∉ xs := fun hno => Option.some_ne_none c (h.heads.unique hp hno)
    refine ⟨h.store hlists hchunk (hpl.congr hframe) (fun c' hc' => ?_) fun hno => absurd hno hsmall,
      fun x hx => hx, fun x hx => Or.inl hx, fun q hq => ?_, hfreed, hactive⟩
    · rw [← Option.some.inj (h.heads.unique hp hc')]
      exact (h.serves p c hp).alloc hpl env hfresh
    · rw [hchunk, Function.update_of_ne]
      rintro rfl
      exact hsmall hq
  unfold arenaTakeSmall
  dsimp only
  cases (chunkAllocSmall (a.chunk p) c env).ptr with
  | none => exact hchunks _ ⟨rfl, rfl, rfl, rfl⟩ rfl rfl rfl
  | some ptr => exact hchunks _ ⟨rfl, rfl, rfl, rfl⟩ rfl rfl rfl

theorem arenaTakeSmall_none {env : MetaEnv} (h : (chunkAllocSmall (a.chunk p) c env).ptr = none) :
    (arenaTakeSmall a p c env).2 = none ∧
      (arenaTakeSmall a p c env).1.allocatedBytes = a.allocatedBytes := by
  unfold arenaTakeSmall
  dsimp only
  rw [h]
  exact ⟨rfl, rfl⟩

theorem arenaTakeSmall_some {env : MetaEnv}
    (h : (chunkAllocSmall (a.chunk p) c env).ptr = some ptr) :
    (arenaTakeSmall a p c env).2 = some ptr ∧
      (arenaTakeSmall a p c env).1.allocatedBytes = addW a.allocatedBytes (classToSize c) := by
  unfold arenaTakeSmall
  dsimp only
  rw [h]
  exact ⟨rfl, rfl⟩

/-- The block of a small chunk is in the first 4096 bytes after its record. -/
theorem block_lt {n : ℕ} (hn : n ≤ 4096) : SIZEOF_CHUNK + n < CHUNK_DEFAULT_SIZE :=
  lt_of_le_of_lt (Nat.add_le_add_left hn _) (by decide)

theorem chargeOf_small (h : size ≤ SIZE_CLASS_MEDIUM_MAX) :
    chargeOf size = classToSize (sizeToClass size) :=
  if_neg fun hl => Nat.not_lt.mpr h (isLargeClassIdx_iff.mp hl)

theorem chargeOf_large (h : SIZE_CLASS_MEDIUM_MAX < size) : chargeOf size = size :=
  if_pos (isLargeClassIdx_iff.mpr h)

theorem arenaTakeSmall_outcome (h : ArenaChunks a xs) (hp : (p, some (sizeToClass size)) ∈ xs)
    (env : MetaEnv) (hmax : size ≤ SIZE_CLASS_MEDIUM_MAX) :
    Malloced a xs size (size ≤ 4096 ∧ HasBlock (a.chunk p) (sizeToClass size) env)
      (arenaTakeSmall a p (sizeToClass size) env).1 xs
      (arenaTakeSmall a p (sizeToClass size) env).2 := by
  have hserves := h.serves p _ hp
  by_cases hs : size ≤ 4096
  · have hle : classToSize (sizeToClass size) ≤ CHUNK_RUN_SIZE := (sizeToClass_small hs).2.2.2
    rcases hserves.block (h.place _ hp) hle env with ⟨hptr, hno⟩ | ⟨hyes, b, hend, hptr⟩
    · obtain ⟨h1, h2⟩ := arenaTakeSmall_none hptr
      rw [h1]
      exact .refused (fun hb => hno hb.2) h2
    · obtain ⟨h1, h2⟩ := arenaTakeSmall_some hptr
      rw [h1]
      refine .served _ ⟨hs, hyes⟩ (.small p b hp hs hend rfl) (fun q hq he => ?_) ?_
      · have hblock : b * classToSize (sizeToClass size) ≤ 4096 := by omega
        have hsame := (h.same_chunk hp hq (block_lt hblock) (block_lt (Nat.zero_le _))
          (by rw [← Nat.add_assoc]; exact he)).2
        exact absurd hsame (by simp)
      · rw [h2, chargeOf_small hmax]
  · have hbig := sizeToClass_medium (Nat.not_le.mp hs) hmax
    have hptr := (chunkAllocSmall_blockless hbig (hserves.blockless hbig) env).1
    obtain ⟨h1, h2⟩ := arenaTakeSmall_none hptr
    rw [h1]
    exact .refused (fun hb => hs hb.1) h2

theorem arenaAddSmall_grown (h : ArenaChunks a xs) (hnum : a.numChunks < a.maxChunks)
    (hc : c < NUM_SIZE_CLASSES) (hno : ∀ q, (q, some c) ∉ xs) (hp : p ∉ a.live)
    (hplace : InPlace chunk p) (hserves : ServesClass chunk c) :
    ArenaGrown a xs (arenaAddSmall a chunk c) (xs ++ [(p, some c)]) := by
  obtain ⟨z, hlast, hz, hzmem⟩ := h.heads.last_node
  obtain ⟨hzp, hzc⟩ := h.heads.node_ne hp hzmem
  have hbase := hplace.baseAddr
  subst hbase
  refine h.add hp hnum (fun c' hc' => ?_) hlast
    (linkedChunk_small (linkedChunk_large hz hzp) hzp (hzc c) (h.heads.unused c hc hno).2)
    rfl rfl rfl rfl hplace (fun c' hc' => ?_) (fun he => absurd he (by simp)) rfl rfl
  · cases hc'
    exact ⟨hc, hno⟩
  · cases hc'
    exact hserves

theorem arenaKeepLarge_chunk (a : Arena) (p size : ℕ) (chunk : Chunk) (ptr : ℕ) :
    (arenaKeepLarge a p size (chunk, some ptr)).1.chunk p = chunk := Function.update_self ..

theorem arenaKeepLarge_grown (h : ArenaChunks a xs) (hnum : a.numChunks < a.maxChunks)
    (hp : p ∉ a.live) (hplace : InPlace chunk p) (hlarge : chunk.isLarge = true) (size ptr : ℕ) :
    ArenaGrown a xs (arenaKeepLarge a p size (chunk, some ptr)).1 (xs ++ [(p, none)]) := by
  obtain ⟨z, hlast, hz, hzmem⟩ := h.heads.last_node
  have hzp := (h.heads.node_ne hp hzmem).1
  exact h.add hp hnum (fun c' hc' => absurd hc' (by simp)) hlast (linkedChunk_large hz hzp)
    rfl rfl rfl rfl hplace (fun c' hc' => absurd hc' (by simp)) (fun _ => hlarge) rfl rfl

theorem arenaMallocLarge_outcome (h : ArenaChunks a xs) (hsize : SIZE_CLASS_MEDIUM_MAX < size)
    (env : ArenaEnv)
    (hbase : ∀ p, env.base = some p → ChunkMapping p ∧ p ∉ a.live) :
    ∃ xs', ArenaGrown a xs (arenaMallocLarge a size env).1 xs' ∧
      Malloced a xs size (a.numChunks < a.maxChunks ∧ env.base.isSome ∧
          alignUp size CHUNK_RUN_SIZE ≤ CHUNK_ROOM)
        (arenaMallocLarge a size env).1 xs' (arenaMallocLarge a size env).2 := by
  by_cases hnum : a.maxChunks ≤ a.numChunks
  · rw [arenaMallocLarge_none (Or.inl hnum)]
    exact ⟨xs, .refl h, .refused (fun hl => Nat.not_lt.mpr hnum hl.1) rfl⟩
  have hnum' := Nat.not_le.mp hnum
  cases hb : env.base with
  | none =>
    rw [arenaMallocLarge_none (Or.inr hb)]
    exact ⟨xs, .refl h, .refused (fun hl => absurd hl.2.1 (by simp)) rfl⟩
  | some p =>
    obtain ⟨hmap, hp⟩ := hbase p hb
    obtain ⟨chunk, hchunk, hbaseAddr, hcsize, halloc⟩ := chunkCreate_some p
    have hplace := chunkCreate_inPlace hmap hchunk
    have hroom := chunkGetAvailable_new hcsize halloc
    rw [arenaMallocLarge_mapped hnum' (hb.symm ▸ hchunk), hbaseAddr]
    by_cases hfits : chunkGetAvailable chunk < alignUp size CHUNK_RUN_SIZE
    · rw [chunkAllocLarge_none hfits]
      rw [hroom] at hfits
      exact ⟨xs, .refl h, .refused (fun hl => Nat.not_le.mpr hfits hl.2.2) rfl⟩
    rw [chunkAllocLarge_some hfits]
    rw [hroom, Nat.not_lt] at hfits
    have hoff : alignUp SIZEOF_CHUNK 16 = SIZEOF_CHUNK := by decide
    have hlt : SIZEOF_CHUNK + alignUp size CHUNK_RUN_SIZE < wordSize :=
      lt_of_le_of_lt (Nat.add_le_add_left hfits _) (by decide)
    have hptr : addW chunk.baseAddr chunk.allocatedBytes = p + SIZEOF_CHUNK := by
      have hend := hmap.fits
      have h2 : SIZEOF_CHUNK < CHUNK_DEFAULT_SIZE := by decide
      rw [hbaseAddr, halloc, hoff]
      exact addW_eq (by omega)
    have hbytes : addW chunk.allocatedBytes (alignUp size CHUNK_RUN_SIZE) =
        SIZEOF_CHUNK + alignUp size CHUNK_RUN_SIZE := by
      rw [halloc, hoff]
      exact addW_eq hlt
    have hfreed : chunk.freedBytes = 0 := by
      cases hchunk
      rfl
    rw [hptr, hbytes]
    have hplace' : InPlace { chunk with
        allocatedBytes := SIZEOF_CHUNK + alignUp size CHUNK_RUN_SIZE
        isLarge := true } p := ⟨hplace.baseAddr, hplace.offset, hplace.size, hmap⟩
    have hgrown := arenaKeepLarge_grown h hnum' hp hplace' rfl size (p + SIZEOF_CHUNK)
    have hmem : (p, (none : Option ℕ)) ∈ xs ++ [(p, none)] :=
      List.mem_append_right _ (List.mem_singleton_self _)
    refine ⟨_, hgrown, .served _ ⟨hnum', rfl, hfits⟩ (.large p hmem hsize hfits rfl ?_ ?_)
      (fun q hq he => hp (Nat.add_right_cancel he ▸ h.heads.mem_live hq)) ?_⟩
    · rw [arenaKeepLarge_chunk]
    · rw [arenaKeepLarge_chunk]
      exact hfreed
    · rw [chargeOf_large hsize]
      rfl

theorem Malloced.mono {a₁ : Arena} {xs₁ : List (ℕ × Option ℕ)} {yes yes' : Prop} {q : Option ℕ}
    (h : Malloced a₁ xs₁ size yes a' xs' q) (hyes : yes ↔ yes')
    (hbytes : a₁.allocatedBytes = a.allocatedBytes) (hsub : ∀ x ∈ xs, x ∈ xs₁) :
    Malloced a xs size yes' a' xs' q := by
  cases h with
  | refused hno h1 => exact .refused (fun hy => hno (hyes.mpr hy)) (h1.trans hbytes)
  | served ptr hy hplaced hnew h1 =>
    exact .served ptr (hyes.mp hy) hplaced (fun p hp => hnew p (hsub _ hp)) (hbytes ▸ h1)

theorem arenaMallocSmall_outcome (h : ArenaChunks a xs) (hmax : size ≤ SIZE_CLASS_MEDIUM_MAX) {env : ArenaEnv}
    (hbase : ∀ p, env.base = some p → ChunkMapping p ∧ p ∉ a.live)
    (hrun : ∀ x, env.run.run = some x → ∀ p ∈ a.live, FreshRun (a.chunk p) x) :
    ∃ xs', ArenaGrown a xs (arenaMallocSmall a (sizeToClass size) env).1 xs' ∧
      Malloced a xs size (size ≤ 4096 ∧ ArenaHasBlock a (sizeToClass size) env)
        (arenaMallocSmall a (sizeToClass size) env).1 xs'
        (arenaMallocSmall a (sizeToClass size) env).2 := by
  have hc : sizeToClass size < NUM_SIZE_CLASSES := by
    have hno := mt isLargeClassIdx_iff.mp (Nat.not_lt.mpr hmax)
    exact Nat.not_le.mp (of_decide_eq_false (Bool.eq_false_iff.mpr hno))
  unfold arenaMallocSmall ArenaHasBlock
  rcases h.heads.find hc with ⟨p, hp, hf⟩ | ⟨hno, hf⟩
  · rw [hf]
    have hfresh : ∀ x, env.run.run = some x → FreshRun (a.chunk p) x := fun x hx =>
      hrun x hx p (h.heads.mem_live hp)
    exact ⟨xs, arenaTakeSmall_grown h hp env.run hfresh,
      (arenaTakeSmall_outcome h hp env.run hmax).mono (by simp) rfl fun _ hx => hx⟩
  rw [hf]
  by_cases hnum : a.maxChunks ≤ a.numChunks
  · rw [if_pos hnum]
    refine ⟨xs, .refl h, .refused ?_ rfl⟩
    rintro ⟨-, ⟨p, hp, -⟩ | ⟨-, hlt, -⟩⟩
    · exact absurd hp (by simp)
    · exact Nat.not_lt.mpr hnum hlt
  rw [if_neg hnum]
  cases hb : env.base with
  | none =>
    rw [chunkCreate_none]
    exact ⟨xs, .refl h, .refused (by simp) rfl⟩
  | some p =>
    obtain ⟨hmap, hp⟩ := hbase p hb
    obtain ⟨chunk, hchunk, hbaseAddr, -, -⟩ := chunkCreate_some p
    rw [hchunk]
    dsimp only
    have hcpos : 0 < classToSize (sizeToClass size) := by
      by_cases hs : size ≤ 4096
      · exact (sizeToClass_small hs).2.2.1
      · exact (Nat.zero_lt_succ _).trans (sizeToClass_medium (Nat.not_le.mp hs) hmax)
    have hempty : ∀ c, chunk.runsFree c = [] ∧ chunk.runsFull c = [] := by
      cases hchunk
      exact fun c => ⟨rfl, rfl⟩
    have hadd := arenaAddSmall_grown h (Nat.not_le.mp hnum) hc hno hp
      (chunkCreate_inPlace hmap hchunk) (chunkCreate_serves hcpos hchunk)
    have hmem : (p, some (sizeToClass size)) ∈ xs ++ [(p, some (sizeToClass size))] :=
      List.mem_append_right _ (List.mem_singleton_self _)
    have hnew : (arenaAddSmall a chunk (sizeToClass size)).chunk p = chunk := by
      rw [← hbaseAddr]
      exact Function.update_self ..
    have hfresh : ∀ x, env.run.run = some x →
        FreshRun ((arenaAddSmall a chunk (sizeToClass size)).chunk p) x := by
      intro x _ c r hr
      rw [hnew, (hempty c).1, (hempty c).2] at hr
      exact absurd hr List.not_mem_nil
    rw [hbaseAddr]
    refine ⟨_, hadd.trans h (arenaTakeSmall_grown hadd.chunks hmem env.run hfresh),
      (arenaTakeSmall_outcome hadd.chunks hmem env.run hmax).mono ?_ rfl hadd.keeps⟩
    rw [hnew]
    unfold HasBlock
    rw [(hempty _).1]
    simp [Nat.not_le.mp hnum]

/-- **`arena_malloc`**: the chunks stay, one may come, and the block is in one of them. -/
theorem arenaMalloc_spec (h : ArenaChunks a xs) {call : ArenaCall} (hcall : call.Answered a) :
    ∃ xs', ArenaGrown a xs (arenaMalloc a call.size call.env).1 xs' ∧
      Malloced a xs call.size (call.Obtains a) (arenaMalloc a call.size call.env).1 xs'
        (arenaMalloc a call.size call.env).2 := by
  have hop : ArenaGrown a xs a.countOp xs :=
    ⟨h.congr ⟨rfl, rfl, rfl, rfl⟩ rfl, fun _ hx => hx, fun _ hx => Or.inl hx, fun _ _ => rfl, rfl, rfl⟩
  unfold arenaMalloc
  by_cases h1 : call.size = 0
  · rw [if_pos h1]
    refine ⟨xs, .refl h, .refused ?_ rfl⟩
    rintro (hl | hs)
    · exact hl.1.1 h1
    · exact hs.1.1 h1
  by_cases hon : a.active = true
  swap
  · rw [if_neg h1, if_pos (by simpa using hon)]
    refine ⟨xs, .refl h, .refused ?_ rfl⟩
    rintro (hl | hs)
    · exact hon hl.1.2
    · exact hon hs.1.2
  rw [if_neg h1, if_neg (by simpa using hon)]
  by_cases hlarge : SIZE_CLASS_MEDIUM_MAX < call.size
  · have hidx := isLargeClassIdx_iff.mpr hlarge
    rw [if_pos hidx]
    obtain ⟨xs', hgrown, hout⟩ := arenaMallocLarge_outcome hop.chunks hlarge call.env hcall.base
    refine ⟨xs', hop.trans h hgrown, hout.mono ⟨fun hl => Or.inl ⟨⟨h1, hon⟩, hidx, hl⟩, ?_⟩ rfl
      fun _ hx => hx⟩
    rintro (hl | hs)
    · exact hl.2.2
    · have h4096 : 4096 < SIZE_CLASS_MEDIUM_MAX := by decide
      have := hs.2.1
      omega
  · have hidx := mt isLargeClassIdx_iff.mp hlarge
    rw [if_neg hidx]
    obtain ⟨xs', hgrown, hout⟩ := arenaMallocSmall_outcome hop.chunks (Nat.not_lt.mp hlarge)
      hcall.base hcall.run
    refine ⟨xs', hop.trans h hgrown, hout.mono ⟨fun hs => Or.inr ⟨⟨h1, hon⟩, hs⟩, ?_⟩ rfl
      fun _ hx => hx⟩
    rintro (hl | hs)
    · exact absurd hl.2.1 hidx
    · exact hs.2

/-! ## `arena_free` -/

/-- What is added to `freed_bytes` for a block. -/
def creditOf (size : ℕ) : ℕ :=
  if size ≤ 4096 then 8 else SIZEOF_CHUNK + alignUp size CHUNK_RUN_SIZE

/-- What an arena has kept that has freed the block at `ptr`. -/
structure ArenaShrunk (a : Arena) (xs : List (ℕ × Option ℕ)) (ptr : ℕ) (a' : Arena)
    (xs' : List (ℕ × Option ℕ)) : Prop where
  chunks : ArenaChunks a' xs'
  sub : ∀ x ∈ xs', x ∈ xs
  keeps : ∀ x ∈ xs, x ∈ xs' ∨ x.2 = none ∧ ptr = x.1 + SIZEOF_CHUNK
  large : ∀ p, (p, none) ∈ xs → ptr ≠ p + SIZEOF_CHUNK → a'.chunk p = a.chunk p
  allocated : a'.allocatedBytes = a.allocatedBytes
  active : a'.active = a.active

/-- An offset that is a multiple of eight is taken for one of class zero. -/
theorem arenaFreeClass_eq (hpl : InPlace chunk p) {n : ℕ} (h8 : 8 ∣ n) (hn : n < CHUNK_ROOM) :
    arenaFreeClass chunk n = (0, 8) := by
  have hroom : subW chunk.size chunk.usableOffset = CHUNK_ROOM := by
    rw [hpl.size, hpl.offset]
    decide
  have hmod : n % 8 = 0 := Nat.dvd_iff_mod_eq_zero.mp h8
  have hrange : List.range NUM_SIZE_CLASSES = 0 :: (List.range (NUM_SIZE_CLASSES - 1)).map (· + 1) := by
    decide
  unfold arenaFreeClass
  rw [hroom, hrange, List.find?_cons_of_pos]
  · rfl
  · rw [decide_eq_true_eq, classToSize_zero]
    exact ⟨by decide, hmod, hn⟩

theorem ptrIsInChunk_eq (hpl : InPlace chunk p) {n : ℕ} (hn : n < CHUNK_DEFAULT_SIZE) :
    ptrIsInChunk chunk (p + n) = true := by
  have hend : addW chunk.baseAddr chunk.size = p + CHUNK_DEFAULT_SIZE := by
    rw [hpl.baseAddr, hpl.size]
    exact addW_eq hpl.mapping.below
  unfold ptrIsInChunk
  rw [hend, hpl.baseAddr]
  exact decide_eq_true ⟨Nat.le_add_right _ _, Nat.add_lt_add_left hn _⟩

theorem arenaFree_small (h : ArenaChunks a xs) (hon : a.active = true) (hp : (p, some c) ∈ xs) {n : ℕ}
    (h8 : 8 ∣ n) (hn : n ≤ 4096) :
    arenaFree a (p + SIZEOF_CHUNK + n) =
      ({ a with
          freeOps := addW a.freeOps 1
          chunk := Function.update a.chunk p
            (chunkFreeSmall (a.chunk p) (p + SIZEOF_CHUNK + n) 0).1 } : Arena).countFreed 8 := by
  have hpl : InPlace (a.chunk p) p := h.place _ hp
  have hlt := block_lt hn
  have hne : p + (SIZEOF_CHUNK + n) ≠ 0 := by
    have := hpl.mapping.ne_zero
    omega
  have hbelow := hpl.mapping.below
  have hbase : addW (a.chunk p).baseAddr (a.chunk p).usableOffset = p + SIZEOF_CHUNK := by
    rw [hpl.baseAddr, hpl.offset]
    exact addW_eq (by omega)
  have hoff : subW (p + (SIZEOF_CHUNK + n)) (p + SIZEOF_CHUNK) = n := by
    rw [subW_eq (by omega) (by omega)]
    omega
  have hroom : n < CHUNK_ROOM := lt_of_le_of_lt hn (by decide)
  rw [Nat.add_assoc]
  unfold arenaFree
  rw [if_neg hne, if_neg (by simp [hon])]
  dsimp only
  rw [hpl.ptrToChunk_eq hlt, ptrIsInChunk_eq hpl hlt, (h.serves p c hp).small, hbase, hoff,
    arenaFreeClass_eq hpl h8 hroom]
  rfl

/-- A chunk of a large request is unmapped. -/
theorem ArenaChunks.remove {as bs : List (ℕ × Option ℕ)} (h : ArenaChunks a (as ++ (p, none) :: bs))
    (hlinks : a'.links = listDel a.links (.chunk p)) (hlive : a'.live = a.live.erase p)
    (hcount : a'.numChunks = subW a.numChunks 1) (hmax : a'.maxChunks = a.maxChunks)
    (hchunk : ∀ q, q ≠ p → a'.chunk q = a.chunk q) : ArenaChunks a' (as ++ bs) := by
  have hu := h.linked.unlinked
  rw [← hlinks] at hu
  have hheads := h.heads.del hu hlive hcount hmax
  have hsub : ∀ x ∈ as ++ bs, x ∈ as ++ (p, none) :: bs := fun x hx =>
    (List.mem_append.mp hx).elim (List.mem_append_left _)
      fun hx => List.mem_append_right _ (List.mem_cons_of_mem _ hx)
  have hpout : p ∉ a'.live := by
    rw [hlive]
    exact h.heads.nodup.not_mem_erase
  have hsame : ∀ q o, (q, o) ∈ as ++ bs → a'.chunk q = a.chunk q := fun q o hq =>
    hchunk q fun hqp => hpout (hqp ▸ hheads.mem_live hq)
  refine ⟨hheads, h.linked.del h.heads.nodup_nodes hu, fun x hx => ?_, fun q c hq => ?_, fun q hq => ?_⟩
  · rw [hsame x.1 x.2 hx]
    exact h.place x (hsub x hx)
  · rw [hsame q (some c) hq]
    exact h.serves q c (hsub _ hq)
  · rw [hsame q none hq]
    exact h.large q (hsub _ hq)

/-- The arena once a large block of the chunk at `p` is counted as freed. -/
def largeFreed (a : Arena) (p : ℕ) (chunk : Chunk) (bytes : ℕ) : Arena :=
  ({ a with
      freeOps := addW a.freeOps 1
      chunk := Function.update a.chunk p chunk } : Arena).countFreed bytes

/-- The chunk at `p` is unlinked and unmapped. -/
def dropChunk (a : Arena) (p : ℕ) : Arena :=
  { a with
    links := listDel a.links (.chunk p)
    live := a.live.erase p
    numChunks := subW a.numChunks 1 }

theorem dropChunk_counters (a : Arena) (p : ℕ) :
    (dropChunk a p).allocatedBytes = a.allocatedBytes ∧
      (dropChunk a p).freedBytes = a.freedBytes ∧ (dropChunk a p).active = a.active := by
  unfold dropChunk
  exact ⟨rfl, rfl, rfl⟩

/-- `arena_free` of a large block: its chunk goes where almost nothing of it was charged. -/
theorem arenaFree_large (h : ArenaChunks a xs) (hon : a.active = true) (hp : (p, none) ∈ xs)
    {bytes : ℕ} (hsize : subW (a.chunk p).allocatedBytes (a.chunk p).freedBytes = bytes)
    (hc : chunkFreeLarge (a.chunk p) (p + SIZEOF_CHUNK) bytes = chunk) :
    arenaFree a (p + SIZEOF_CHUNK) =
      if chunkUtilizationLow chunk then dropChunk (largeFreed a p chunk bytes) p
      else largeFreed a p chunk bytes := by
  have hpl : InPlace (a.chunk p) p := h.place _ hp
  have hin : SIZEOF_CHUNK < CHUNK_DEFAULT_SIZE := by decide
  have hne : p + SIZEOF_CHUNK ≠ 0 := by
    have := hpl.mapping.ne_zero
    omega
  unfold arenaFree
  rw [if_neg hne, if_neg (by simp [hon])]
  dsimp only
  rw [hpl.ptrToChunk_eq hin, ptrIsInChunk_eq hpl hin, h.large p hp, hsize, hc, Bool.not_true,
    if_neg Bool.false_ne_true, if_pos rfl]
  generalize chunkUtilizationLow chunk = low
  cases low with
  | false => rfl
  | true => rfl

theorem chunkFreeLarge_inPlace (hpl : InPlace chunk p) (ptr bytes : ℕ) :
    InPlace (chunkFreeLarge chunk ptr bytes) p ∧
      (chunkFreeLarge chunk ptr bytes).isLarge = chunk.isLarge := by
  unfold chunkFreeLarge
  by_cases hz : ptr = 0
  · rw [if_pos hz]
    exact ⟨hpl, rfl⟩
  · rw [if_neg hz]
    exact ⟨⟨hpl.baseAddr, hpl.offset, hpl.size, hpl.mapping⟩, rfl⟩

theorem arenaFree_large_spec (h : ArenaChunks a xs) (hon : a.active = true) (hp : (p, none) ∈ xs)
    {bytes : ℕ} (hsize : subW (a.chunk p).allocatedBytes (a.chunk p).freedBytes = bytes) :
    ∃ xs', ArenaShrunk a xs (p + SIZEOF_CHUNK) (arenaFree a (p + SIZEOF_CHUNK)) xs' ∧
      (arenaFree a (p + SIZEOF_CHUNK)).freedBytes = addW a.freedBytes bytes := by
  obtain ⟨hplace, hlarge⟩ := chunkFreeLarge_inPlace (h.place _ hp) (p + SIZEOF_CHUNK) bytes
  have hserves : ∀ c, (p, some c) ∉ xs := fun c hc => absurd (h.heads.unique hc hp) (by simp)
  have hothers : ∀ q, p + SIZEOF_CHUNK ≠ q + SIZEOF_CHUNK → q ≠ p := by
    rintro q hne rfl
    exact hne rfl
  rw [arenaFree_large h hon hp hsize rfl]
  generalize chunkFreeLarge (a.chunk p) (p + SIZEOF_CHUNK) bytes = chunk at hplace hlarge ⊢
  have hkept : ArenaChunks (largeFreed a p chunk bytes) xs :=
    h.store ⟨rfl, rfl, rfl, rfl⟩ rfl hplace (fun c hc => absurd hc (hserves c))
      fun _ => hlarge.trans (h.large p hp)
  have hsame : ∀ q, (q, none) ∈ xs → p + SIZEOF_CHUNK ≠ q + SIZEOF_CHUNK →
      (largeFreed a p chunk bytes).chunk q = a.chunk q := fun q _ hne =>
    Function.update_of_ne (hothers q hne) ..
  generalize chunkUtilizationLow chunk = low
  cases low with
  | true =>
    obtain ⟨as, bs, rfl⟩ := List.append_of_mem hp
    rw [if_pos rfl]
    obtain ⟨h1, h2, h3⟩ := dropChunk_counters (largeFreed a p chunk bytes) p
    refine ⟨as ++ bs, ⟨hkept.remove rfl rfl rfl rfl fun q _ => rfl, fun x hx => ?_, fun x hx => ?_,
      hsame, h1, h3⟩, h2⟩
    · exact (List.mem_append.mp hx).elim (List.mem_append_left _)
        fun hx => List.mem_append_right _ (List.mem_cons_of_mem _ hx)
    · rcases List.mem_append.mp hx with hx | hx
      · exact Or.inl (List.mem_append_left _ hx)
      · rcases List.mem_cons.mp hx with rfl | hx
        · exact Or.inr ⟨rfl, rfl⟩
        · exact Or.inl (List.mem_append_right _ hx)
  | false =>
    rw [if_neg Bool.false_ne_true]
    exact ⟨xs, ⟨hkept, fun x hx => hx, fun x hx => Or.inl hx, hsame, rfl, rfl⟩, rfl⟩

/-- **`arena_free`** of a block: the other chunks stay, and eight bytes are credited for a small
block, the whole chunk for a large one. -/
theorem arenaFree_spec (h : ArenaChunks a xs) (hon : a.active = true) (hb : Placed a xs ptr size) :
    ∃ xs', ArenaShrunk a xs ptr (arenaFree a ptr) xs' ∧
      (arenaFree a ptr).freedBytes = addW a.freedBytes (creditOf size) := by
  cases hb with
  | small p b hp hsize hend hptr =>
    have h8 : 8 ∣ b * classToSize (sizeToClass size) := (classToSize_dvd _).mul_left b
    have heq := arenaFree_small h hon hp h8 (by omega)
    have hpl : InPlace (a.chunk p) p := h.place _ hp
    have hsmall : ∀ q, (q, none) ∈ xs → q ≠ p := by
      rintro q hq rfl
      exact absurd (h.heads.unique hp hq) (by simp)
    rw [← hptr] at heq
    rw [heq]
    refine ⟨xs, ⟨h.store ⟨rfl, rfl, rfl, rfl⟩ rfl (hpl.congr (chunkFreeSmall_frame _ ptr 0))
        (fun c hc => ?_) fun hno => absurd rfl (hsmall p hno), fun x hx => hx, fun x hx => Or.inl hx,
        fun q hq _ => Function.update_of_ne (hsmall q hq) .., rfl, rfl⟩, ?_⟩
    · rw [← Option.some.inj (h.heads.unique hp hc)]
      exact (h.serves p _ hp).free hpl ptr
    · unfold creditOf
      rw [if_pos hsize]
      rfl
  | large p hp hsize hfits hptr halloc hfreed =>
    have hbytes : subW (a.chunk p).allocatedBytes (a.chunk p).freedBytes = creditOf size := by
      have h4096 : 4096 < SIZE_CLASS_MEDIUM_MAX := by decide
      have hlt : SIZEOF_CHUNK + alignUp size CHUNK_RUN_SIZE < wordSize :=
        lt_of_le_of_lt (Nat.add_le_add_left hfits _) (by decide)
      unfold creditOf
      rw [if_neg (by omega), halloc, hfreed]
      exact subW_eq (Nat.zero_le _) hlt
    rw [hptr]
    exact arenaFree_large_spec h hon hp hbytes

end

end Nomalloc
