import Nomalloc.Lib.Ledger
import Nomalloc.Memory.ChunkBooks

/-!
# What becomes of the metadata of a chunk?

A run record and its bitmap are libc memory.  The blocks that `chunk_alloc_small` obtains for them
are numbered on a ledger, in the order libc hands them out; `__libc_free` gives back the block that
was handed out last at its address.

* `MetaSys`            a chunk and the ledger of its metadata;
* `FailsClean`         an allocation that returns `NULL` leaves the chunk and the blocks in use as
                       they were;
* `failsClean_iff`     so it does unless it links a run of no block;
* `FreedOnce`          every block obtained was freed once;
* `freedOnce_iff`      after `chunk_destroy` this is so exactly when no run was linked.

The blocks in use are the records and bitmaps of the runs linked (`metaBlocks`), after every call.
-/

namespace Nomalloc

/-- A call of libc, as the ledger has it. -/
def LibcCall.post (u : Ledger ℕ ℕ) : LibcCall → Ledger ℕ ℕ
  | .malloc addr => u.accept addr addr
  | .calloc addr => u.accept addr addr
  | .free addr => u.deliver [addr]

def postCalls (u : Ledger ℕ ℕ) (calls : List LibcCall) : Ledger ℕ ℕ := calls.foldl LibcCall.post u

/-- A chunk and the ledger of its metadata. -/
structure MetaSys where
  chunk : Chunk
  ledger : Ledger ℕ ℕ

/-- Nothing has been obtained. -/
def noMeta : Ledger ℕ ℕ := ⟨[], fun _ => 0, []⟩

def MetaSys.step (s : MetaSys) : ChunkOp → MetaSys
  | .alloc c env =>
    let r := chunkAllocSmall s.chunk c env
    ⟨r.chunk, postCalls s.ledger r.calls⟩
  | .free ptr c =>
    let r := chunkFreeSmall s.chunk ptr c
    ⟨r.1, postCalls s.ledger r.2⟩

theorem MetaSys.step_alloc (s : MetaSys) (c : ℕ) (env : MetaEnv) :
    s.step (.alloc c env) = ⟨(chunkAllocSmall s.chunk c env).chunk,
      postCalls s.ledger (chunkAllocSmall s.chunk c env).calls⟩ := rfl

/-- The ledger once `chunk_destroy` has given the metadata back. -/
def MetaSys.destroy (s : MetaSys) : Ledger ℕ ℕ := postCalls s.ledger (chunkDestroy s.chunk)

/-- If `chunk_alloc_small` returns `NULL`, the chunk and the blocks of metadata in use are as before
the call. -/
def FailsClean (s : MetaSys) (c : ℕ) (env : MetaEnv) : Prop :=
  (chunkAllocSmall s.chunk c env).ptr = none →
    (s.step (.alloc c env)).chunk = s.chunk ∧
      (s.step (.alloc c env)).ledger.held = s.ledger.held

/-- Every block that was obtained has been freed once. -/
def FreedOnce (u : Ledger ℕ ℕ) : Prop := ∀ i < u.accepted.length, u.delivered.count i = 1

/-- libc hands out addresses that are not zero and not in use; the record is in use when the bitmap
is asked for. -/
structure MetaEnv.Unused (env : MetaEnv) (u : Ledger ℕ ℕ) : Prop where
  run : ∀ a, env.run = some a →
    (0 < a ∧ a < wordSize) ∧ ∀ i ∈ u.held, u.accepted[i]? ≠ some a
  bitmap : ∀ x, env.bitmap = some x → env.run ≠ some x ∧ ∀ i ∈ u.held, u.accepted[i]? ≠ some x

/-- A call of one of the two functions, any pointer and any class; a request to libc may fail. -/
def ChunkOp.Asked (s : MetaSys) : ChunkOp → Prop
  | .alloc c env => c < NUM_SIZE_CLASSES ∧ env.Unused s.ledger
  | .free _ c => c < NUM_SIZE_CLASSES

/-- The blocks of libc that make up a run. -/
def ChunkRun.metaBlocks (run : ChunkRun) : List ℕ := [run.addr, run.bitmapAddr]

/-- The records and bitmaps of the runs linked. -/
def metaBlocks (chunk : Chunk) : List ℕ := (chunkRuns chunk).flatMap ChunkRun.metaBlocks

structure MetaSys.Inv (s : MetaSys) : Prop where
  books : Books s.chunk
  no_array : s.chunk.runs = none
  balanced : s.ledger.Balanced id (metaBlocks s.chunk)

section
variable {chunk : Chunk} {c : ℕ} {env : MetaEnv} {run : ChunkRun}

/-! ## one allocation -/

/-- Where there is no block to take nothing changes. -/
theorem chunkTakeBlock_fails {calls : List LibcCall}
    (h : (chunkTakeBlock chunk c run calls).ptr = none) :
    chunkTakeBlock chunk c run calls = ⟨chunk, none, calls⟩ := by
  by_cases hfull : run.numBlocks ≤ run.firstFree
  · exact chunkTakeBlock_full hfull calls
  · unfold chunkTakeBlock at h
    extract_lets blockIdx run' runIdx base runBase ptr allocated at h
    have hroom : ¬ run.numBlocks ≤ blockIdx := hfull
    rw [if_neg hroom] at h
    by_cases hz : run'.freeBlocksCount = 0
    · rw [if_pos hz] at h
      cases h
    · rw [if_neg hz] at h
      cases h

/-- A run that is opened has a block, unless the class is above 4096 bytes. -/
theorem newRun_numBlocks_pos (hpos : 0 < classToSize c) (hle : classToSize c ≤ CHUNK_RUN_SIZE)
    (a x : ℕ) : 0 < (newRun c a x).numBlocks := Nat.div_pos hle hpos

theorem newRun_numBlocks_zero (hlt : CHUNK_RUN_SIZE < classToSize c) (a x : ℕ) :
    (newRun c a x).numBlocks = 0 := Nat.div_eq_of_lt hlt

/-- **An allocation fails cleanly** unless it opens a run of a class above 4096 bytes. -/
theorem failsClean_iff (s : MetaSys) (c : ℕ) (env : MetaEnv) :
    FailsClean s c env ↔
      ¬ (s.chunk.runsFree c = [] ∧ env.run.isSome ∧ env.bitmap.isSome ∧
        CHUNK_RUN_SIZE < classToSize c) := by
  by_cases hopens : ∃ a x, OpensRun s.chunk c env a x
  · obtain ⟨a, x, hopens⟩ := hopens
    have hcond : (s.chunk.runsFree c = [] ∧ env.run.isSome ∧ env.bitmap.isSome ∧
        CHUNK_RUN_SIZE < classToSize c) ↔ CHUNK_RUN_SIZE < classToSize c := by
      simp [hopens.none_open, hopens.run, hopens.bitmap]
    have heq := chunkAllocSmall_opens hopens
    rw [hcond, Nat.not_lt]
    rcases Nat.lt_or_ge CHUNK_RUN_SIZE (classToSize c) with hlt | hle
    · -- the run stays linked
      have hzero := newRun_numBlocks_zero hlt a x
      rw [chunkTakeBlock_full (hzero ▸ Nat.zero_le _)] at heq
      refine iff_of_false (fun h => ?_) (Nat.not_le.mpr hlt)
      have hsame := congrArg (fun chunk => chunk.runsFree c) (h (by rw [heq])).1
      rw [MetaSys.step_alloc, heq] at hsame
      dsimp only at hsame
      rw [linkRun_runsFree, hopens.none_open] at hsame
      exact List.cons_ne_nil _ _ hsame
    · have hb := newRun_firstFree_lt (newRun_numBlocks_pos hopens.pos hle a x)
      rw [chunkTakeBlock_taken (linkRun_runsFree ..) hb] at heq
      refine iff_of_true (fun h => ?_) hle
      rw [heq] at h
      cases h
  · have hno : ∀ a x, ¬ OpensRun s.chunk c env a x := fun a x h => hopens ⟨a, x, h⟩
    refine iff_of_true (fun hnull => ?_) fun ⟨hl, hrun, hbitmap, hlt⟩ => ?_
    · rw [MetaSys.step_alloc]
      rcases chunkAllocSmall_unopened hno with he | ⟨a, -, he⟩ | ⟨run, -, he⟩
      · rw [he]
        exact ⟨rfl, rfl⟩
      · rw [he]
        exact ⟨rfl, Ledger.held_deliver_accept s.ledger a a⟩
      · rw [he] at hnull
        rw [he, chunkTakeBlock_fails hnull]
        exact ⟨rfl, rfl⟩
    · obtain ⟨a, ha⟩ := Option.isSome_iff_exists.mp hrun
      obtain ⟨x, hx⟩ := Option.isSome_iff_exists.mp hbitmap
      exact hno a x ⟨hl, ha, hx, Nat.lt_of_le_of_lt (Nat.zero_le _) hlt⟩

/-- Class 30 is of 8192 bytes: a fresh chunk is left with a run of no block. -/
theorem blockless_run_stays :
    chunkCreate CHUNK_DEFAULT_SIZE (some CHUNK_ALIGN) = some firstChunk ∧ 30 < NUM_SIZE_CLASSES ∧
      ¬ FailsClean ⟨firstChunk, noMeta⟩ 30 ⟨some 100, some 200⟩ := by
  refine ⟨rfl, by decide, fun h => ?_⟩
  have hsame := congrArg Chunk.numRuns (h (by decide +kernel)).1
  exact absurd hsame (by decide +kernel)

/-! ## the blocks in use -/

theorem metaBlocks_eq_nil_iff : metaBlocks chunk = [] ↔ chunkRuns chunk = [] := by
  unfold metaBlocks
  rw [List.flatMap_eq_nil_iff, List.eq_nil_iff_forall_not_mem]
  exact ⟨fun h r hr => List.cons_ne_nil _ _ (h r hr), fun h r hr => absurd hr (h r)⟩

theorem metaBlocks_linkRun (hc : c < NUM_SIZE_CLASSES) (hl : chunk.runsFree c = []) (a x : ℕ) :
    (metaBlocks (linkRun chunk c (newRun c a x))).Perm (x :: a :: metaBlocks chunk) :=
  ((chunkRuns_linkRun hc hl _).flatMap_right _).trans (List.Perm.swap ..)

theorem metaBlocks_openRunTaken (hc : c < NUM_SIZE_CLASSES) (hl : chunk.runsFree c = [run]) :
    (metaBlocks (openRunTaken chunk c run)).Perm (metaBlocks chunk) := by
  obtain ⟨rest, hp, hp'⟩ := chunkRuns_openRunTaken hc hl
  exact (hp'.flatMap_right ChunkRun.metaBlocks).trans (hp.flatMap_right ChunkRun.metaBlocks).symm

end

namespace MetaSys.Inv

variable {s : MetaSys} {c : ℕ} {env : MetaEnv}

/-- What is linked is in use. -/
theorem not_linked (h : s.Inv) {a : ℕ} (ha : ∀ i ∈ s.ledger.held, s.ledger.accepted[i]? ≠ some a) :
    a ∉ metaBlocks s.chunk :=
  fun hmem => ha _ (h.balanced.mem_held hmem) (h.balanced.holds a hmem)

theorem fresh (h : s.Inv) (henv : env.Unused s.ledger) : env.Fresh s.chunk := by
  intro a ha
  obtain ⟨hpos, hfree⟩ := henv.run a ha
  refine ⟨hpos, fun c r hr he => h.not_linked hfree ?_⟩
  have hmem : r ∈ chunkRuns s.chunk :=
    mem_chunkRuns.mpr ⟨c, lt_of_classToSize_pos (h.books.run c r hr).pos, hr⟩
  exact List.mem_flatMap.mpr ⟨r, hmem, he ▸ List.mem_cons_self⟩

theorem returned (h : s.Inv) {a : ℕ} (ha : a ∉ metaBlocks s.chunk) :
    (postCalls s.ledger [.malloc a, .free a]).Balanced id (metaBlocks s.chunk) :=
  (h.balanced.accept ha (fun _ _ => rfl) rfl).deliver (List.Perm.refl _)

theorem obtained (h : s.Inv) {a x : ℕ} (ha : a ∉ metaBlocks s.chunk) (hx : x ∉ metaBlocks s.chunk)
    (hne : x ≠ a) :
    (postCalls s.ledger [.malloc a, .calloc x]).Balanced id (x :: a :: metaBlocks s.chunk) := by
  have hrun : (postCalls s.ledger [.malloc a]).Balanced id (a :: metaBlocks s.chunk) :=
    h.balanced.accept ha (fun _ _ => rfl) rfl
  refine hrun.accept ?_ (fun _ _ => rfl) rfl
  rw [List.mem_cons, not_or]
  exact ⟨hne, hx⟩

theorem alloc (h : s.Inv) (henv : env.Unused s.ledger) : (s.step (.alloc c env)).Inv := by
  have hfresh := h.fresh henv
  refine ⟨h.books.alloc c hfresh, ?_, ?_⟩
  · exact (chunkAllocSmall_frame s.chunk c env).runs.trans h.no_array
  show (postCalls s.ledger (chunkAllocSmall s.chunk c env).calls).Balanced id
    (metaBlocks (chunkAllocSmall s.chunk c env).chunk)
  by_cases hopens : ∃ a x, OpensRun s.chunk c env a x
  · obtain ⟨a, x, hopens⟩ := hopens
    have hc := lt_of_classToSize_pos hopens.pos
    have hne : x ≠ a := fun he => (henv.bitmap x hopens.bitmap).1 (he ▸ hopens.run)
    have hbal := h.obtained (h.not_linked (henv.run a hopens.run).2)
      (h.not_linked (henv.bitmap x hopens.bitmap).2) hne
    have hlink := metaBlocks_linkRun hc hopens.none_open a x
    rw [chunkAllocSmall_opens hopens]
    rcases Nat.eq_zero_or_pos (newRun c a x).numBlocks with hz | hpos
    · rw [chunkTakeBlock_full (hz ▸ Nat.zero_le _)]
      exact hbal.perm hlink.symm
    · have htake := metaBlocks_openRunTaken hc (linkRun_runsFree s.chunk c (newRun c a x))
      rw [chunkTakeBlock_taken (linkRun_runsFree ..) (newRun_firstFree_lt hpos)]
      dsimp only
      exact hbal.perm (htake.trans hlink).symm
  · have hno : ∀ a x, ¬ OpensRun s.chunk c env a x := fun a x h => hopens ⟨a, x, h⟩
    rcases chunkAllocSmall_unopened hno with he | ⟨a, ha, he⟩ | ⟨run, hl, he⟩
    · rw [he]
      exact h.balanced
    · rw [he]
      exact h.returned (h.not_linked (henv.run a ha).2)
    · rw [he]
      obtain ⟨run', hl'⟩ := (h.books.lists.open_cases c).resolve_left fun hnil => by simp [hnil] at hl
      obtain rfl : run' = run := by simpa [hl'] using hl
      rcases Nat.lt_or_ge run'.firstFree run'.numBlocks with hb | hfull
      · have hmem : run' ∈ s.chunk.runsFree c ++ s.chunk.runsFull c := by
          rw [hl']
          exact List.mem_cons_self
        have hc := lt_of_classToSize_pos (h.books.run c run' hmem).pos
        rw [chunkTakeBlock_taken hl' hb]
        dsimp only
        exact h.balanced.perm (metaBlocks_openRunTaken hc hl').symm
      · rw [chunkTakeBlock_full hfull]
        exact h.balanced

theorem free (h : s.Inv) (ptr c : ℕ) : (s.step (.free ptr c)).Inv := by
  refine ⟨h.books.free ptr c, (chunkFreeSmall_frame s.chunk ptr c).runs.trans h.no_array, ?_⟩
  show (postCalls s.ledger (chunkFreeSmall s.chunk ptr c).2).Balanced id
    (metaBlocks (chunkFreeSmall s.chunk ptr c).1)
  rcases chunkFreeSmall_cases (h.books.run c) ptr with he | ⟨-, run, hmem, b, -, -, -, -, he⟩
  · rw [he]
    exact h.balanced
  rw [he]
  obtain ⟨rest, hp, hp'⟩ := chunkRuns_blockCleared (b := b)
    (lt_of_classToSize_pos (h.books.run c run hmem).pos) (h.books.class_nodup c) hmem
  have hblocks := hp.flatMap_right ChunkRun.metaBlocks
  have hblocks' := hp'.flatMap_right ChunkRun.metaBlocks
  unfold clearedCalls
  by_cases hlast : run.freeBlocksCount + 1 = run.numBlocks
  · -- the bitmap goes, then the record
    rw [if_pos hlast] at hblocks' ⊢
    have hbitmap : (postCalls s.ledger [.free run.bitmapAddr]).Balanced id
        (run.addr :: rest.flatMap ChunkRun.metaBlocks) :=
      h.balanced.deliver ((List.Perm.swap ..).trans hblocks.symm)
    have hrun : (postCalls s.ledger [.free run.bitmapAddr, .free run.addr]).Balanced id
        (rest.flatMap ChunkRun.metaBlocks) := hbitmap.deliver (List.Perm.refl _)
    exact hrun.perm hblocks'.symm
  · rw [if_neg hlast] at hblocks' ⊢
    exact h.balanced.perm (hblocks.trans hblocks'.symm)

theorem step (h : s.Inv) (op : ChunkOp) (hop : op.Asked s) : (s.step op).Inv := by
  cases op with
  | alloc c env => exact h.alloc hop.2
  | free ptr c => exact h.free ptr c

end MetaSys.Inv

theorem MetaSys.inv_create {size base : ℕ} {chunk : Chunk}
    (hc : chunkCreate size (some base) = some chunk) : MetaSys.Inv ⟨chunk, noMeta⟩ := by
  have hbooks := Books.create hc
  have hnum : chunk.numRuns = 0 := by cases hc; rfl
  have hnil : metaBlocks chunk = [] :=
    metaBlocks_eq_nil_iff.mpr (List.length_eq_zero_iff.mp (hbooks.counted.symm.trans hnum))
  refine ⟨hbooks, by cases hc; rfl, ?_⟩
  show noMeta.Balanced id (metaBlocks chunk)
  rw [hnil]
  exact ⟨List.Perm.refl _, fun p hp => absurd hp List.not_mem_nil⟩

/-- **`chunk_destroy` leaks what is linked**: after it every record and every bitmap has been freed
once exactly when no run was linked any more. -/
theorem freedOnce_iff {size base : ℕ} {chunk : Chunk} {ops : List ChunkOp}
    (hc : chunkCreate size (some base) = some chunk)
    (hops : Runs.Each MetaSys.step ChunkOp.Asked ⟨chunk, noMeta⟩ ops) :
    FreedOnce (Runs.after MetaSys.step ⟨chunk, noMeta⟩ ops).destroy ↔
      ∀ c < NUM_SIZE_CLASSES,
        (Runs.after MetaSys.step ⟨chunk, noMeta⟩ ops).chunk.runsFree c = [] ∧
          (Runs.after MetaSys.step ⟨chunk, noMeta⟩ ops).chunk.runsFull c = [] := by
  have hinv : (Runs.after MetaSys.step ⟨chunk, noMeta⟩ ops).Inv :=
    Runs.inv_after (fun s op hs hop => hs.step op hop) (MetaSys.inv_create hc) hops
  generalize Runs.after MetaSys.step ⟨chunk, noMeta⟩ ops = s at hinv
  have hnone : s.destroy = s.ledger := by
    unfold MetaSys.destroy chunkDestroy
    rw [hinv.no_array]
    rfl
  rw [hnone]
  refine hinv.balanced.delivered_iff.trans (metaBlocks_eq_nil_iff.trans ?_)
  unfold chunkRuns binned
  rw [List.flatMap_eq_nil_iff]
  simp only [List.mem_range, List.append_eq_nil_iff]

/-- libc has handed nothing out yet. -/
theorem unused_noMeta : (⟨some 100, some 200⟩ : MetaEnv).Unused noMeta := by
  refine ⟨fun a ha => ⟨?_, fun i hi => absurd hi List.not_mem_nil⟩, fun x hx => ⟨?_, fun i hi =>
    absurd hi List.not_mem_nil⟩⟩
  · obtain rfl : 100 = a := by simpa using ha
    decide
  · obtain rfl : 200 = x := by simpa using hx
    decide

/-- A block is taken and freed: its run goes with it. -/
theorem freedOnce_run : FreedOnce (Runs.after MetaSys.step ⟨firstChunk, noMeta⟩
    [.alloc 0 ⟨some 100, some 200⟩, .free (CHUNK_ALIGN + 1600) 0]).destroy := by
  have h0 : 0 < NUM_SIZE_CLASSES := by decide
  have hc : chunkCreate CHUNK_DEFAULT_SIZE (some CHUNK_ALIGN) = some firstChunk := rfl
  have hempty : ∀ c < NUM_SIZE_CLASSES,
      ((Runs.after MetaSys.step ⟨firstChunk, noMeta⟩ [.alloc 0 ⟨some 100, some 200⟩,
        .free (CHUNK_ALIGN + 1600) 0]).chunk.runsFree c).length = 0 ∧
      ((Runs.after MetaSys.step ⟨firstChunk, noMeta⟩ [.alloc 0 ⟨some 100, some 200⟩,
        .free (CHUNK_ALIGN + 1600) 0]).chunk.runsFull c).length = 0 := by decide +kernel
  have hops : Runs.Each MetaSys.step ChunkOp.Asked ⟨firstChunk, noMeta⟩
      [.alloc 0 ⟨some 100, some 200⟩, .free (CHUNK_ALIGN + 1600) 0] :=
    ⟨⟨h0, unused_noMeta⟩, h0, trivial⟩
  refine (freedOnce_iff hc hops).mpr fun c hlt => ?_
  exact ⟨List.length_eq_zero_iff.mp (hempty c hlt).1, List.length_eq_zero_iff.mp (hempty c hlt).2⟩

/-- A block is taken and the chunk destroyed: neither the record nor the bitmap is freed. -/
theorem linked_run_leaks :
    chunkCreate CHUNK_DEFAULT_SIZE (some CHUNK_ALIGN) = some firstChunk ∧
      Runs.Each MetaSys.step ChunkOp.Asked ⟨firstChunk, noMeta⟩ [.alloc 0 ⟨some 100, some 200⟩] ∧
      ¬ FreedOnce (Runs.after MetaSys.step ⟨firstChunk, noMeta⟩
        [.alloc 0 ⟨some 100, some 200⟩]).destroy := by
  have h0 : 0 < NUM_SIZE_CLASSES := by decide
  refine ⟨rfl, ⟨⟨h0, unused_noMeta⟩, trivial⟩, fun h => ?_⟩
  exact absurd (h 0 (by decide +kernel)) (by decide +kernel)

end Nomalloc
