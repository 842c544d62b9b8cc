import Nomalloc.Memory.ArenaBlocks

/-!
# `arena_realloc` and the contents of a block

`arena_realloc` makes the old size up from the address too, and takes every small block for one of
eight bytes.

* `arenaRealloc_history`    a call is some calls of `arena_malloc` and `arena_free`;
* `arena_realloc_keeps_iff` the contents are kept exactly where eight bytes are all there is to keep,
                            or the block is handed out again.
-/

namespace Nomalloc

/-- Where the chunk of a class takes the next block. -/
def nextBlock (chunk : Chunk) (c : ℕ) : ℕ :=
  match chunk.runsFree c with
  | [] => usableBase chunk
  | run :: _ => usableBase chunk + run.firstFree * run.blockSize

/-- The next block of a small request is the one at `ptr`. -/
def HandsOutAgain (a : Arena) (size ptr : ℕ) : Prop :=
  size ≤ 4096 ∧ ∃ p, arenaFindAvailableChunk a (sizeToClass size) = some (.chunk p) ∧
    nextBlock (a.chunk p) (sizeToClass size) = ptr

/-- Whatever is in memory, the bytes that both sizes have are at the new address what they were at
the old one. -/
def ReallocKeeps (a : Arena) (ptr size : ℕ) (call : ArenaCall) : Prop :=
  ∀ (mem : ℕ → ℕ) (a' : Arena) (mem' : ℕ → ℕ) (q : ℕ),
    arenaRealloc a mem ptr call.size call.env = some (a', mem', some q) →
      ∀ i < min size call.size, mem' (q + i) = mem (ptr + i)

section
variable {a a' : Arena} {xs : List (ℕ × Option ℕ)} {p c ptr size : ℕ} {chunk : Chunk}

/-- Eight bytes are copied. -/
theorem memcpy_keeps_iff {q k : ℕ} :
    (∀ mem : ℕ → ℕ, ∀ i < k, memcpy mem q ptr 8 (q + i) = mem (ptr + i)) ↔ k ≤ 8 ∨ q = ptr := by
  constructor
  · intro h
    by_contra hno
    push Not at hno
    have hcopy := h (fun x => if x = ptr + 8 then 1 else 0) 8 hno.1
    have hout : ¬ (q ≤ q + 8 ∧ q + 8 < q + 8) := by omega
    have hne : q + 8 ≠ ptr + 8 := by omega
    unfold memcpy at hcopy
    rw [if_neg hout] at hcopy
    dsimp only at hcopy
    rw [if_neg hne, if_pos rfl] at hcopy
    exact absurd hcopy (by decide)
  · rintro hk mem i hi
    unfold memcpy
    by_cases hin : q ≤ q + i ∧ q + i < q + 8
    · rw [if_pos hin, Nat.add_sub_cancel_left]
    · rw [if_neg hin, hk.resolve_left (by omega)]

/-- Every small block is taken for one of eight bytes. -/
theorem arenaOldSize_eq (h : ArenaChunks a xs) (hb : Placed a xs ptr size) (hsize : size ≤ 4096) :
    arenaOldSize (a.chunk (ptrToChunk ptr)) ptr = some 8 := by
  cases hb with
  | large p hp hlarge hfits hptr halloc hfreed =>
    have : SIZE_CLASS_MEDIUM_MAX = 1048576 := rfl
    omega
  | small p b hp hs hend hptr =>
    have hpl : InPlace (a.chunk p) p := h.place _ hp
    have hlt : SIZEOF_CHUNK + b * classToSize (sizeToClass size) < CHUNK_DEFAULT_SIZE :=
      block_lt (by omega)
    have h8 : 8 ∣ SIZEOF_CHUNK + b * classToSize (sizeToClass size) :=
      Nat.dvd_add (by decide) ((classToSize_dvd _).mul_left b)
    have hbelow := hpl.mapping.below
    rw [hptr, Nat.add_assoc, hpl.ptrToChunk_eq hlt]
    generalize SIZEOF_CHUNK + b * classToSize (sizeToClass size) = n at hlt h8
    have hoff : subW (p + n) p = n := by
      rw [subW_eq (by omega) (by omega)]
      omega
    have hrange : List.range NUM_SIZE_CLASSES =
        0 :: (List.range (NUM_SIZE_CLASSES - 1)).map (· + 1) := by decide
    unfold arenaOldSize
    rw [(h.serves p _ hp).small, if_neg Bool.false_ne_true, hpl.baseAddr, hpl.size, hoff, hrange]
    dsimp only
    rw [List.find?_cons_of_pos]
    · rfl
    · rw [decide_eq_true_eq, classToSize_zero]
      exact Or.inr ⟨Nat.dvd_iff_mod_eq_zero.mp h8, hlt⟩

theorem arenaRealloc_short (h : ArenaChunks a xs) (hb : Placed a xs ptr size) (hsize : size ≤ 4096)
    {n : ℕ} (hn : 0 < n) (h8 : n ≤ 8) (mem : ℕ → ℕ) (env : ArenaEnv) :
    arenaRealloc a mem ptr n env = some (a, mem, some ptr) := by
  unfold arenaRealloc
  rw [if_neg (hb.ne_zero h), if_neg (Nat.pos_iff_ne_zero.mp hn), arenaOldSize_eq h hb hsize,
    Option.map_some, if_pos h8]

theorem arenaRealloc_long (h : ArenaChunks a xs) (hb : Placed a xs ptr size) (hsize : size ≤ 4096)
    {n q : ℕ} (h8 : 8 < n) (mem : ℕ → ℕ) {env : ArenaEnv} (hq : (arenaMalloc a n env).2 = some q) :
    arenaRealloc a mem ptr n env =
      some (arenaFree (arenaMalloc a n env).1 ptr, memcpy mem q ptr 8, some q) := by
  unfold arenaRealloc
  rw [if_neg (hb.ne_zero h), if_neg (by omega), arenaOldSize_eq h hb hsize, Option.map_some,
    if_neg (by omega)]
  generalize arenaMalloc a n env = r at hq
  obtain ⟨a', o⟩ := r
  dsimp only at hq
  subst hq
  rfl

/-- The block that is handed out is the next one of the chunk. -/
theorem SmallTaken.next {env : MetaEnv} (ht : SmallTaken a c env a' ptr p chunk)
    (hle : classToSize c ≤ CHUNK_RUN_SIZE) : nextBlock chunk c = ptr := by
  have hok := ht.serves.chunkOk ht.place hle
  unfold nextBlock
  rcases (hok.runs c).open_cases with hl | ⟨run, hl⟩
  · rw [hl]
    rcases ht.serves.block ht.place hle env with ⟨hno, -⟩ | ⟨hyes, -⟩
    · exact absurd (hno.symm.trans ht.took) (by simp)
    obtain ⟨hrun, hbitmap⟩ := hyes.resolve_left fun hne => hne hl
    obtain ⟨x, hx⟩ := Option.isSome_iff_exists.mp hrun
    obtain ⟨y, hy⟩ := Option.isSome_iff_exists.mp hbitmap
    have he : env = ⟨some x, some y⟩ := by rw [← hx, ← hy]
    have hnew : (chunkAllocSmall chunk c env).ptr = some (usableBase chunk) := by
      rw [he, chunkAllocSmall_new hok hl ht.serves.pos hle]
    exact Option.some.inj (hnew.symm.trans ht.took)
  · rw [hl]
    have hopen : (chunkAllocSmall chunk c env).ptr =
        some (usableBase chunk + run.firstFree * run.blockSize) := by
      rw [chunkAllocSmall_open hok hl]
    exact Option.some.inj (hopen.symm.trans ht.took)

/-- `arena_realloc` does to an arena what some calls of `arena_malloc` and `arena_free` do: a history
with `arena_realloc` reaches no other state. -/
theorem arenaRealloc_history {s : ArenaHeap} {call : ArenaCall}
    (hcall : call.Answered s.arena) (hptr : ptr = 0 ∨ ptr ∈ s.blocks.map Prod.fst)
    {mem mem' : ℕ → ℕ} {q : Option ℕ}
    (hr : arenaRealloc s.arena mem ptr call.size call.env = some (a', mem', q)) :
    ∃ ops, Runs.Each ArenaHeap.step ArenaOp.Legal s ops ∧
      (Runs.after ArenaHeap.step s ops).arena = a' := by
  unfold arenaRealloc at hr
  by_cases hz : ptr = 0
  · rw [if_pos hz] at hr
    cases hr
    exact ⟨[.malloc call], ⟨hcall, trivial⟩, rfl⟩
  rw [if_neg hz] at hr
  by_cases hn : call.size = 0
  · rw [if_pos hn] at hr
    cases hr
    exact ⟨[.free ptr], ⟨hptr, trivial⟩, rfl⟩
  rw [if_neg hn] at hr
  obtain ⟨old, -, hr⟩ := Option.map_eq_some_iff.mp hr
  by_cases hle : call.size ≤ old
  · rw [if_pos hle] at hr
    cases hr
    exact ⟨[], trivial, rfl⟩
  rw [if_neg hle] at hr
  cases hq : (arenaMalloc s.arena call.size call.env).2 with
  | none =>
    refine ⟨[.malloc call], ⟨hcall, trivial⟩, ?_⟩
    show (arenaMalloc s.arena call.size call.env).1 = a'
    generalize arenaMalloc s.arena call.size call.env = r at hr hq ⊢
    obtain ⟨a₁, o⟩ := r
    dsimp only at hq
    subst hq
    cases hr
    rfl
  | some q' =>
    refine ⟨[.malloc call, .free ptr], ⟨hcall, Or.inr ?_, trivial⟩, ?_⟩
    · exact List.mem_map.mpr ((List.mem_map.mp (hptr.resolve_left hz)).imp fun b hb =>
        ⟨List.mem_append_right _ hb.1, hb.2⟩)
    · show arenaFree (arenaMalloc s.arena call.size call.env).1 ptr = a'
      generalize arenaMalloc s.arena call.size call.env = r at hr hq ⊢
      obtain ⟨a₁, o⟩ := r
      dsimp only at hq
      subst hq
      cases hr
      rfl

/-- An address in a chunk that was not there is not the address of a block that was. -/
theorem ne_of_new_chunk (h : ArenaChunks a xs) (hb : Placed a xs ptr size) (hplace : InPlace chunk p)
    (hp : p ∉ a.live) {n : ℕ} (hn : n < CHUNK_DEFAULT_SIZE) : p + n ≠ ptr := by
  rintro rfl
  obtain ⟨x, hx, m, hm, he⟩ := hb.home
  have hxp : x.1 = p := by
    have h1 : ptrToChunk (x.1 + m) = x.1 := (h.place x hx).ptrToChunk_eq hm
    rw [← h1, ← he, hplace.ptrToChunk_eq hn]
  have hlive := h.heads.mem_live (p := x.1) (o := x.2) hx
  exact hp (hxp ▸ hlive)

/-- The new block is at the old address where the old block is handed out again. -/
theorem same_addr_iff (h : ArenaChunks a xs) (hb : Placed a xs ptr size) {call : ArenaCall}
    (hcall : call.Answered a) {q : ℕ} (hq : (arenaMalloc a call.size call.env).2 = some q) :
    q = ptr ↔ HandsOutAgain a call.size ptr := by
  unfold HandsOutAgain
  by_cases hsmall : call.size ≤ 4096
  · have hle : classToSize (sizeToClass call.size) ≤ CHUNK_RUN_SIZE := (sizeToClass_small hsmall).2.2.2
    obtain ⟨p, chunk, ht⟩ := arenaMalloc_taken h hcall hsmall hq
    have hnext := ht.next hle
    rcases ht.found with ⟨hf, -, rfl⟩ | ⟨hf, hp, -⟩
    · rw [and_iff_right hsmall, hf]
      refine ⟨fun he => ⟨p, rfl, hnext.trans he⟩, ?_⟩
      rintro ⟨p', hp', hn⟩
      cases hp'
      exact hnext.symm.trans hn
    · refine iff_of_false ?_ ?_
      · rcases ht.serves.block ht.place hle call.env.run with ⟨hno, -⟩ | ⟨-, b, hend, hptr⟩
        · exact absurd (hno.symm.trans ht.took) (by simp)
        have haddr := Option.some.inj (hptr.symm.trans ht.took)
        have hne := ne_of_new_chunk h hb ht.place hp
          (block_lt (n := b * classToSize (sizeToClass call.size)) (by omega))
        rw [← haddr, Nat.add_assoc]
        exact hne
      · rintro ⟨-, p', hp', -⟩
        rw [hf] at hp'
        exact absurd hp' (by simp)
  · refine iff_of_false ?_ fun hr => hsmall hr.1
    obtain ⟨xs', hgrown, hout⟩ := arenaMalloc_spec h hcall
    rw [hq] at hout
    cases hout with
    | served _ _ hplaced hnew _ =>
      cases hplaced with
      | small p b hp hs hend hptr => exact absurd hs hsmall
      | large p hp hlarge hfits hptr halloc hfreed =>
        have hfresh : p ∉ a.live := (hgrown.fresh _ hp).resolve_left fun hin => hnew p hin hptr
        rw [hptr]
        exact ne_of_new_chunk h hb (hgrown.chunks.place _ hp) hfresh (by decide)

/-- **One call** keeps the contents of a small block where eight bytes are all there is to keep, or
the block is handed out again. -/
theorem realloc_keeps_iff (h : ArenaChunks a xs) (hb : Placed a xs ptr size) (hsize : size ≤ 4096)
    {call : ArenaCall} (hcall : call.Answered a) (hn : 0 < call.size)
    (hserved : (arenaMalloc a call.size call.env).2 ≠ none) :
    ReallocKeeps a ptr size call ↔ size ≤ 8 ∨ call.size ≤ 8 ∨ HandsOutAgain a call.size ptr := by
  unfold ReallocKeeps
  by_cases h8 : call.size ≤ 8
  · refine iff_of_true (fun mem a' mem' q he i _ => ?_) (Or.inr (Or.inl h8))
    rw [arenaRealloc_short h hb hsize hn h8 mem call.env] at he
    cases he
    rfl
  obtain ⟨q, hq⟩ := Option.ne_none_iff_exists'.mp hserved
  have hlong := fun mem => arenaRealloc_long h hb hsize (Nat.not_le.mp h8) mem hq
  have hall : (∀ (mem : ℕ → ℕ) (a' : Arena) (mem' : ℕ → ℕ) (q' : ℕ),
      arenaRealloc a mem ptr call.size call.env = some (a', mem', some q') →
        ∀ i < min size call.size, mem' (q' + i) = mem (ptr + i)) ↔
      ∀ mem : ℕ → ℕ, ∀ i < min size call.size, memcpy mem q ptr 8 (q + i) = mem (ptr + i) := by
    refine ⟨fun hkeep mem => hkeep mem _ _ q (hlong mem), fun hkeep mem a' mem' q' he => ?_⟩
    rw [hlong mem] at he
    cases he
    exact hkeep mem
  rw [hall, memcpy_keeps_iff, same_addr_iff h hb hcall hq, min_le_iff, or_assoc]

end

/-- **`arena_realloc` keeps the contents** of a small block, whatever they are, exactly where the
block or the new size is of at most eight bytes, or the block is handed out again. -/
theorem arena_realloc_keeps_iff {ops : List ArenaOp}
    (hops : Runs.Each ArenaHeap.step ArenaOp.Legal ArenaHeap.init ops) {ptr size : ℕ}
    (hb : (ptr, size) ∈ (Runs.after ArenaHeap.step ArenaHeap.init ops).blocks) (hsize : size ≤ 4096)
    {call : ArenaCall} (hcall : call.Answered (Runs.after ArenaHeap.step ArenaHeap.init ops).arena)
    (hn : 0 < call.size)
    (hserved : (arenaMalloc (Runs.after ArenaHeap.step ArenaHeap.init ops).arena call.size
      call.env).2 ≠ none) :
    ReallocKeeps (Runs.after ArenaHeap.step ArenaHeap.init ops).arena ptr size call ↔
      size ≤ 8 ∨ call.size ≤ 8 ∨
        HandsOutAgain (Runs.after ArenaHeap.step ArenaHeap.init ops).arena call.size ptr := by
  obtain ⟨xs, h⟩ := ArenaHeap.ok_run hops
  exact realloc_keeps_iff h.chunks (h.placed _ hb) hsize hcall hn hserved

theorem answered_none {a : Arena} {size : ℕ} (hsize : size < wordSize) :
    (⟨size, ⟨none, ⟨none, none⟩⟩⟩ : ArenaCall).Answered a :=
  ⟨hsize, fun p hp => absurd hp (by simp), fun x hx => absurd hx (by simp)⟩

/-- A block of eight bytes, the first of a fresh arena, keeps its contents as one of five bytes. -/
theorem arena_realloc_keeps_eight :
    ReallocKeeps (ArenaHeap.init.step (.malloc ⟨8, givenEnv⟩)).arena (CHUNK_ALIGN + SIZEOF_CHUNK) 8
      ⟨5, ⟨none, ⟨none, none⟩⟩⟩ := by
  have hb : (CHUNK_ALIGN + SIZEOF_CHUNK, 8) ∈
      (ArenaHeap.init.step (.malloc ⟨8, givenEnv⟩)).blocks := by decide +kernel
  have hserved : (arenaMalloc (ArenaHeap.init.step (.malloc ⟨8, givenEnv⟩)).arena 5
      ⟨none, ⟨none, none⟩⟩).2 ≠ none := by decide +kernel
  exact (@arena_realloc_keeps_iff [.malloc ⟨8, givenEnv⟩] ⟨givenEnv_answered (by decide), trivial⟩ _ _
    hb (by decide) ⟨5, ⟨none, ⟨none, none⟩⟩⟩ (answered_none (by decide)) (by decide) hserved).mpr
    (Or.inl (le_refl 8))

/-- A block of sixteen bytes loses the last four of twelve when it is moved for twelve bytes. -/
theorem twelve_bytes_lost : ¬ ∀ (ops : List ArenaOp) (ptr size : ℕ) (call : ArenaCall),
    Runs.Each ArenaHeap.step ArenaOp.Legal ArenaHeap.init ops →
    (ptr, size) ∈ (Runs.after ArenaHeap.step ArenaHeap.init ops).blocks → size ≤ 4096 →
    call.Answered (Runs.after ArenaHeap.step ArenaHeap.init ops).arena → 0 < call.size →
    (arenaMalloc (Runs.after ArenaHeap.step ArenaHeap.init ops).arena call.size call.env).2 ≠ none →
      ReallocKeeps (Runs.after ArenaHeap.step ArenaHeap.init ops).arena ptr size call := by
  intro h
  have hb : (CHUNK_ALIGN + SIZEOF_CHUNK, 16) ∈
      (ArenaHeap.init.step (.malloc ⟨16, givenEnv⟩)).blocks := by decide +kernel
  have hserved : (arenaMalloc (ArenaHeap.init.step (.malloc ⟨16, givenEnv⟩)).arena 12
      ⟨none, ⟨none, none⟩⟩).2 ≠ none := by decide +kernel
  have hkeeps := h [.malloc ⟨16, givenEnv⟩] _ _ ⟨12, ⟨none, ⟨none, none⟩⟩⟩
    ⟨givenEnv_answered (by decide), trivial⟩ hb (by decide) (answered_none (by decide)) (by decide)
    hserved
  -- the new block is the second of the run
  let mem : ℕ → ℕ := fun x => if x = CHUNK_ALIGN + SIZEOF_CHUNK + 8 then 1 else 0
  have hmoved : ((arenaRealloc (ArenaHeap.init.step (.malloc ⟨16, givenEnv⟩)).arena mem
      (CHUNK_ALIGN + SIZEOF_CHUNK) 12 ⟨none, ⟨none, none⟩⟩).map fun r => (r.2.2, r.2.1
        (CHUNK_ALIGN + SIZEOF_CHUNK + 16 + 8))) = some (some (CHUNK_ALIGN + SIZEOF_CHUNK + 16), 0) := by
    decide +kernel
  obtain ⟨⟨a', mem', q⟩, hr, hq⟩ := Option.map_eq_some_iff.mp hmoved
  obtain ⟨rfl, hzero⟩ := Prod.mk.inj hq
  have hone : mem' (CHUNK_ALIGN + SIZEOF_CHUNK + 16 + 8) = 1 := hkeeps mem a' mem' _ hr 8 (by decide)
  exact absurd (hone.symm.trans hzero) (by decide)

end Nomalloc
