import Nomalloc.Cache.Lirs
import Nomalloc.Lib.Runs

/-!
# The invariant of the LIRS cache

* `LirsShape`   the hash table holds exactly the live blocks, each in the bucket of its key and no
                key twice; the flags of a block say which lists it is on, and the list sizes are
                the lengths;
* `BlockOk`     a block is HIR resident exactly when it is on Q, and on S when it is not;
* `LirsInv`     both, and the two counters of resident blocks are exact.

Every helper of `lirs.c` keeps `LirsInv`, the loops as well; `lirsEvictHir_le` says that eviction
leaves at most `hir_capacity` blocks on Q.  `lirs_invariant` is the result for whole runs.
-/

namespace Nomalloc

/-! ## counting blocks of a type -/

/-- The live blocks of type `t`. -/
def typeCount (heap : List ℕ) (types : ℕ → LirsBlockType) (t : LirsBlockType) : ℕ :=
  heap.countP fun p => types p = t

section
variable {heap : List ℕ} (types : ℕ → LirsBlockType) {p : ℕ}

theorem typeCount_erase (hp : p ∈ heap) (t : LirsBlockType) :
    typeCount heap types t =
      typeCount (heap.erase p) types t + if types p = t then 1 else 0 := by
  unfold typeCount
  rw [(List.perm_cons_erase hp).countP_eq, List.countP_cons]
  simp only [decide_eq_true_eq]

theorem typeCount_update (hnd : heap.Nodup) (hp : p ∈ heap) (t' t : LirsBlockType) :
    typeCount heap (Function.update types p t') t + (if types p = t then 1 else 0) =
      typeCount heap types t + if t' = t then 1 else 0 := by
  have hrest : typeCount (heap.erase p) (Function.update types p t') t =
      typeCount (heap.erase p) types t :=
    List.countP_congr fun q hq => by
      rw [Function.update_of_ne (hnd.mem_erase_iff.mp hq).1]
  rw [typeCount_erase _ hp, typeCount_erase types hp, hrest, Function.update_self]
  omega

theorem typeCount_pos {t : LirsBlockType} (hp : p ∈ heap) (ht : types p = t) :
    0 < typeCount heap types t :=
  List.countP_pos_iff.mpr ⟨p, hp, decide_eq_true ht⟩

end

/-! ## the shape of the lists and of the hash table -/

structure LirsShape (c : LirsCache) : Prop where
  bucket : ∀ i p, p ∈ c.hashTable i ↔ p ∈ c.heap ∧ c.bucket (c.block p).key = i
  bucketNodup : ∀ i, (c.hashTable i).Nodup
  heapNodup : c.heap.Nodup
  keyInj : ∀ p ∈ c.heap, ∀ q ∈ c.heap, (c.block p).key = (c.block q).key → p = q
  sFlag : ∀ p, p ∈ c.sStack ↔ p ∈ c.heap ∧ (c.block p).inSStack = true
  qFlag : ∀ p, p ∈ c.qQueue ↔ p ∈ c.heap ∧ (c.block p).inQQueue = true
  sNodup : c.sStack.Nodup
  qNodup : c.qQueue.Nodup
  sSize : c.sStackSize = c.sStack.length
  qSize : c.qQueueSize = c.qQueue.length

/-- `l'` has the elements of `l`, except that `p` is on it exactly when `flag` says so. -/
structure SameBut (p : ℕ) (l l' : List ℕ) (flag : Bool) : Prop where
  nodup : l'.Nodup
  self : p ∈ l' ↔ flag = true
  other : ∀ q, q ≠ p → (q ∈ l' ↔ q ∈ l)

section
variable {p : ℕ} {l : List ℕ}

theorem SameBut.refl (hl : l.Nodup) {flag : Bool} (hp : p ∈ l ↔ flag = true) :
    SameBut p l l flag := ⟨hl, hp, fun _ _ => Iff.rfl⟩

theorem SameBut.erase (hl : l.Nodup) : SameBut p l (l.erase p) false :=
  ⟨hl.erase p, by simp [hl.mem_erase_iff], fun q hq => by simp [hl.mem_erase_iff, hq]⟩

theorem SameBut.cons (hl : l.Nodup) (hp : p ∉ l) : SameBut p l (p :: l) true :=
  ⟨List.nodup_cons.mpr ⟨hp, hl⟩, by simp, fun q hq => by simp [hq]⟩

theorem SameBut.append (hl : l.Nodup) (hp : p ∉ l) : SameBut p l (l ++ [p]) true :=
  ⟨(List.nodup_append_comm.mpr (List.nodup_cons.mpr ⟨hp, hl⟩)), by simp, fun q hq => by simp [hq]⟩

/-- The elements of `l` are those of `heap` that `f` tells, and nothing changes but at `p`. -/
theorem SameBut.listed {l' heap heap' : List ℕ} {f g : ℕ → Bool} (h : SameBut p l l' (g p))
    (hheap : SameBut p heap heap' true) (hl : ∀ q, q ∈ l ↔ q ∈ heap ∧ f q = true)
    (hother : ∀ q, q ≠ p → g q = f q) (q : ℕ) : q ∈ l' ↔ q ∈ heap' ∧ g q = true := by
  by_cases he : q = p
  · rw [he, h.self]
    exact ⟨fun hf => ⟨hheap.self.mpr rfl, hf⟩, And.right⟩
  · rw [h.other q he, hl, hheap.other q he, hother q he]

end

namespace LirsShape

variable {c c' : LirsCache} {p : ℕ}

theorem mem_heap_of_s (h : LirsShape c) (hp : p ∈ c.sStack) : p ∈ c.heap := ((h.sFlag p).mp hp).1

theorem mem_heap_of_q (h : LirsShape c) (hp : p ∈ c.qQueue) : p ∈ c.heap := ((h.qFlag p).mp hp).1

theorem congr (h : LirsShape c) (hmask : c'.hashTableMask = c.hashTableMask)
    (hheap : c'.heap = c.heap) (htable : c'.hashTable = c.hashTable) (hblock : c'.block = c.block)
    (hs : c'.sStack = c.sStack) (hq : c'.qQueue = c.qQueue) (hss : c'.sStackSize = c.sStackSize)
    (hqs : c'.qQueueSize = c.qQueueSize) : LirsShape c' := by
  cases c
  cases c'
  cases hmask
  cases hheap
  cases htable
  cases hblock
  cases hs
  cases hq
  cases hss
  cases hqs
  exact ⟨h.bucket, h.bucketNodup, h.heapNodup, h.keyInj, h.sFlag, h.qFlag, h.sNodup, h.qNodup,
    h.sSize, h.qSize⟩

/-- One block changes, its key apart, and its place on the two lists with it. -/
theorem relink (h : LirsShape c) (hp : p ∈ c.heap) (hmask : c'.hashTableMask = c.hashTableMask)
    (hheap : c'.heap = c.heap) (htable : c'.hashTable = c.hashTable) {b : LirsBlock}
    (hblock : c'.block = Function.update c.block p b) (hkey : b.key = (c.block p).key)
    (hs : SameBut p c.sStack c'.sStack b.inSStack) (hq : SameBut p c.qQueue c'.qQueue b.inQQueue)
    (hss : c'.sStackSize = c'.sStack.length) (hqs : c'.qQueueSize = c'.qQueue.length) :
    LirsShape c' := by
  have hkeys : ∀ q, (c'.block q).key = (c.block q).key := by
    intro q
    rw [hblock]
    by_cases he : q = p
    · rw [he, Function.update_self, hkey]
    · rw [Function.update_of_ne he]
  have hbucket : ∀ k, c'.bucket k = c.bucket k := fun k => by
    unfold LirsCache.bucket
    rw [hmask]
  have hsame : SameBut p c.heap c.heap true :=
    SameBut.refl h.heapNodup ⟨fun _ => rfl, fun _ => hp⟩
  have hself : c'.block p = b := by rw [hblock, Function.update_self]
  have hother : ∀ q, q ≠ p → c'.block q = c.block q := fun q hne => by
    rw [hblock, Function.update_of_ne hne]
  rw [← hself] at hs hq
  refine ⟨fun i q => ?_, fun i => ?_, ?_, ?_, fun q => ?_, fun q => ?_, hs.nodup, hq.nodup, hss, hqs⟩
  · rw [htable, hheap, hkeys, hbucket]
    exact h.bucket i q
  · rw [htable]
    exact h.bucketNodup i
  · rw [hheap]
    exact h.heapNodup
  · intro q hq r hr he
    rw [hheap] at hq hr
    rw [hkeys, hkeys] at he
    exact h.keyInj q hq r hr he
  · rw [hheap]
    exact hs.listed (g := fun q => (c'.block q).inSStack) hsame h.sFlag
      (fun q hne => by rw [hother q hne]) q
  · rw [hheap]
    exact hq.listed (g := fun q => (c'.block q).inQQueue) hsame h.qFlag
      (fun q hne => by rw [hother q hne]) q

theorem sameS (h : LirsShape c) (hp : p ∈ c.heap) :
    SameBut p c.sStack c.sStack (c.block p).inSStack :=
  SameBut.refl h.sNodup ((h.sFlag p).trans ⟨fun hf => hf.2, fun hf => ⟨hp, hf⟩⟩)

theorem sameQ (h : LirsShape c) (hp : p ∈ c.heap) :
    SameBut p c.qQueue c.qQueue (c.block p).inQQueue :=
  SameBut.refl h.qNodup ((h.qFlag p).trans ⟨fun hf => hf.2, fun hf => ⟨hp, hf⟩⟩)

theorem delS (h : LirsShape c) (hp : p ∈ c.sStack) : LirsShape (c.delS p) := by
  have hheap := h.mem_heap_of_s hp
  refine h.relink hheap rfl rfl rfl rfl rfl (SameBut.erase h.sNodup) (h.sameQ hheap) ?_ h.qSize
  show c.sStackSize - 1 = (c.sStack.erase p).length
  rw [List.length_erase_of_mem hp, h.sSize]

theorem addS (h : LirsShape c) (hheap : p ∈ c.heap) (hp : p ∉ c.sStack) :
    LirsShape (c.addS p) := by
  refine h.relink hheap rfl rfl rfl rfl rfl (SameBut.cons h.sNodup hp) (h.sameQ hheap) ?_ h.qSize
  show c.sStackSize + 1 = c.sStack.length + 1
  rw [h.sSize]

theorem delQ (h : LirsShape c) (hp : p ∈ c.qQueue) : LirsShape (c.delQ p) := by
  have hheap := h.mem_heap_of_q hp
  refine h.relink hheap rfl rfl rfl rfl rfl (h.sameS hheap) (SameBut.erase h.qNodup) h.sSize ?_
  show c.qQueueSize - 1 = (c.qQueue.erase p).length
  rw [List.length_erase_of_mem hp, h.qSize]

theorem addQ (h : LirsShape c) (hheap : p ∈ c.heap) (hp : p ∉ c.qQueue) :
    LirsShape (c.addQ p) := by
  refine h.relink hheap rfl rfl rfl rfl rfl (h.sameS hheap) (SameBut.append h.qNodup hp) h.sSize ?_
  show c.qQueueSize + 1 = (c.qQueue ++ [p]).length
  rw [h.qSize, List.length_append, List.length_singleton]

theorem setBlock (h : LirsShape c) (hheap : p ∈ c.heap) {b : LirsBlock}
    (hkey : b.key = (c.block p).key) (hs : b.inSStack = (c.block p).inSStack)
    (hq : b.inQQueue = (c.block p).inQQueue) : LirsShape (c.setBlock p b) :=
  h.relink hheap rfl rfl rfl rfl hkey (hs ▸ h.sameS hheap) (hq ▸ h.sameQ hheap) h.sSize h.qSize

theorem setType (h : LirsShape c) (hheap : p ∈ c.heap) (t : LirsBlockType) :
    LirsShape (c.setType p t) := h.setBlock hheap rfl rfl rfl

theorem moveS (h : LirsShape c) (hp : p ∈ c.sStack) : LirsShape (c.moveS p) := by
  have hperm := List.perm_cons_erase hp
  refine ⟨h.bucket, h.bucketNodup, h.heapNodup, h.keyInj, fun q => ?_, h.qFlag,
    hperm.nodup_iff.mp h.sNodup, h.qNodup, ?_, h.qSize⟩
  · exact hperm.mem_iff.symm.trans (h.sFlag q)
  · exact h.sSize.trans hperm.length_eq

/-- A block that is on neither list is taken out of the table and freed. -/
theorem destroy (h : LirsShape c) (hp : p ∈ c.heap) (hs : (c.block p).inSStack = false)
    (hq : (c.block p).inQQueue = false) : LirsShape (lirsBlockDestroy (lirsRemoveHash c p) p) := by
  have hmem : ∀ q, q ∈ c.heap.erase p ↔ q ≠ p ∧ q ∈ c.heap := fun q => h.heapNodup.mem_erase_iff
  refine ⟨fun i q => ?_, fun i => (h.bucketNodup i).erase p, h.heapNodup.erase p, ?_, fun q => ?_,
    fun q => ?_, h.sNodup, h.qNodup, h.sSize, h.qSize⟩
  · show q ∈ (c.hashTable i).erase p ↔ q ∈ c.heap.erase p ∧ _
    rw [(h.bucketNodup i).mem_erase_iff, hmem, h.bucket i q, and_assoc]
    rfl
  · intro q hq r hr he
    exact h.keyInj q ((hmem q).mp hq).2 r ((hmem r).mp hr).2 he
  · show q ∈ c.sStack ↔ q ∈ c.heap.erase p ∧ (c.block q).inSStack = true
    rw [hmem, h.sFlag]
    constructor
    · rintro ⟨h1, h2⟩
      refine ⟨⟨?_, h1⟩, h2⟩
      rintro rfl
      rw [hs] at h2
      exact absurd h2 (by decide)
    · rintro ⟨⟨-, h1⟩, h2⟩
      exact ⟨h1, h2⟩
  · show q ∈ c.qQueue ↔ q ∈ c.heap.erase p ∧ (c.block q).inQQueue = true
    rw [hmem, h.qFlag]
    constructor
    · rintro ⟨h1, h2⟩
      refine ⟨⟨?_, h1⟩, h2⟩
      rintro rfl
      rw [hq] at h2
      exact absurd h2 (by decide)
    · rintro ⟨⟨-, h1⟩, h2⟩
      exact ⟨h1, h2⟩

end LirsShape

/-! ## types and counters -/

/-- The type of each block. -/
def LirsCache.types (c : LirsCache) : ℕ → LirsBlockType := fun p => (c.block p).type

section
variable (c : LirsCache) (p : ℕ)

@[simp] theorem types_delS : (c.delS p).types = c.types := by
  funext q
  by_cases he : q = p <;> simp [LirsCache.types, LirsCache.delS, he]

@[simp] theorem types_addS : (c.addS p).types = c.types := by
  funext q
  by_cases he : q = p <;> simp [LirsCache.types, LirsCache.addS, he]

@[simp] theorem types_delQ : (c.delQ p).types = c.types := by
  funext q
  by_cases he : q = p <;> simp [LirsCache.types, LirsCache.delQ, he]

@[simp] theorem types_addQ : (c.addQ p).types = c.types := by
  funext q
  by_cases he : q = p <;> simp [LirsCache.types, LirsCache.addQ, he]

@[simp] theorem types_setType (t : LirsBlockType) :
    (c.setType p t).types = Function.update c.types p t := by
  funext q
  by_cases he : q = p <;>
    simp [LirsCache.types, LirsCache.setType, LirsCache.setBlock, he]

end

/-- What the type of a block says about the lists it is on. -/
structure BlockOk (b : LirsBlock) : Prop where
  resident : b.type = .hirResident ↔ b.inQQueue = true
  stacked : b.type ≠ .hirResident → b.inSStack = true

structure LirsInv (c : LirsCache) : Prop where
  shape : LirsShape c
  blocks : ∀ p ∈ c.heap, BlockOk (c.block p)
  lir : c.stats.lirCount = typeCount c.heap c.types .lir
  hir : c.stats.hirResidentCount = typeCount c.heap c.types .hirResident

/-- The settings of a cache. -/
structure SameConfig (c c' : LirsCache) : Prop where
  capacity : c'.capacity = c.capacity
  hirCapacity : c'.hirCapacity = c.hirCapacity

theorem SameConfig.refl (c : LirsCache) : SameConfig c c := ⟨rfl, rfl⟩

theorem SameConfig.trans {c c' c'' : LirsCache} (h : SameConfig c c') (h' : SameConfig c' c'') :
    SameConfig c c'' := ⟨h'.capacity.trans h.capacity, h'.hirCapacity.trans h.hirCapacity⟩

theorem blockOk_update {heap : List ℕ} {block : ℕ → LirsBlock} {p : ℕ} {b : LirsBlock}
    (h : ∀ q ∈ heap, BlockOk (block q)) (hb : BlockOk b) :
    ∀ q ∈ heap, BlockOk (Function.update block p b q) := by
  intro q hq
  by_cases he : q = p
  · rw [he, Function.update_self]
    exact hb
  · rw [Function.update_of_ne he]
    exact h q hq

namespace LirsInv

variable {c : LirsCache} {p : ℕ}

theorem inQ_iff (h : LirsInv c) (hp : p ∈ c.heap) :
    (c.block p).type = .hirResident ↔ p ∈ c.qQueue := by
  rw [(h.blocks p hp).resident, h.shape.qFlag]
  exact ⟨fun hf => ⟨hp, hf⟩, fun hf => hf.2⟩

theorem withStats (h : LirsInv c) {stats : LirsStats} (h1 : stats.lirCount = c.stats.lirCount)
    (h2 : stats.hirResidentCount = c.stats.hirResidentCount) :
    LirsInv { c with stats := stats } :=
  ⟨h.shape.congr rfl rfl rfl rfl rfl rfl rfl rfl, h.blocks, h1.trans h.lir, h2.trans h.hir⟩

/-- A HIR resident block leaves S. -/
theorem delS (h : LirsInv c) (hp : p ∈ c.sStack) (ht : (c.block p).type = .hirResident) :
    LirsInv (c.delS p) := by
  have hb := h.blocks p (h.shape.mem_heap_of_s hp)
  refine ⟨h.shape.delS hp, ?_, ?_, ?_⟩
  · exact blockOk_update h.blocks ⟨hb.resident, fun hne => absurd ht hne⟩
  · rw [types_delS]
    exact h.lir
  · rw [types_delS]
    exact h.hir

/-- A block is put on S. -/
theorem addS (h : LirsInv c) (hheap : p ∈ c.heap) (hp : p ∉ c.sStack) : LirsInv (c.addS p) := by
  refine ⟨h.shape.addS hheap hp, ?_, ?_, ?_⟩
  · exact blockOk_update h.blocks ⟨(h.blocks p hheap).resident, fun _ => rfl⟩
  · rw [types_addS]
    exact h.lir
  · rw [types_addS]
    exact h.hir

theorem moveS (h : LirsInv c) (hp : p ∈ c.sStack) : LirsInv (c.moveS p) :=
  ⟨h.shape.moveS hp, h.blocks, h.lir, h.hir⟩

/-- A block that is not resident is freed once it is off S. -/
theorem destroy (h : LirsInv c) (hp : p ∈ c.sStack) (ht : (c.block p).type = .hirNonResident) :
    LirsInv (lirsBlockDestroy (lirsRemoveHash (c.delS p) p) p) := by
  have hheap := h.shape.mem_heap_of_s hp
  have hb := h.blocks p hheap
  have hq : (c.block p).inQQueue = false := by
    rw [Bool.eq_false_iff, ne_eq, ← hb.resident, ht]
    decide
  have hself : (c.delS p).block p = { c.block p with inSStack := false } :=
    Function.update_self ..
  have hcount : ∀ t, t ≠ .hirNonResident →
      typeCount (c.heap.erase p) c.types t = typeCount c.heap c.types t := by
    intro t hne
    have htp : c.types p ≠ t := fun he => hne (he.symm.trans ht)
    rw [typeCount_erase c.types hheap, if_neg htp, Nat.add_zero]
  refine ⟨?_, fun q hq' => ?_, ?_, ?_⟩
  · exact (h.shape.delS hp).destroy hheap (by rw [hself]) (by rw [hself]; exact hq)
  · have hne := (h.shape.heapNodup.mem_erase_iff.mp hq').1
    show BlockOk (Function.update c.block p _ q)
    rw [Function.update_of_ne hne]
    exact h.blocks q (h.shape.heapNodup.mem_erase_iff.mp hq').2
  · show c.stats.lirCount = typeCount (c.heap.erase p) (c.delS p).types .lir
    rw [types_delS, hcount _ (by decide)]
    exact h.lir
  · show c.stats.hirResidentCount = typeCount (c.heap.erase p) (c.delS p).types .hirResident
    rw [types_delS, hcount _ (by decide)]
    exact h.hir

end LirsInv

/-! ## pruning S -/

section
variable {c : LirsCache} {p : ℕ}

/-- What pruning leaves alone. -/
structure PruneFrame (c c' : LirsCache) : Prop where
  config : SameConfig c c'
  stats : c'.stats = c.stats
  qQueue : c'.qQueue = c.qQueue
  keeps : ∀ q ∈ c.heap, (c.block q).type ≠ .hirNonResident →
    q ∈ c'.heap ∧ (c'.block q).type = (c.block q).type
  old : ∀ q ∈ c'.heap, q ∈ c.heap ∧ (c'.block q).key = (c.block q).key

theorem PruneFrame.refl (c : LirsCache) : PruneFrame c c :=
  ⟨SameConfig.refl c, rfl, rfl, fun _ hq _ => ⟨hq, rfl⟩, fun _ hq => ⟨hq, rfl⟩⟩

theorem PruneFrame.trans {c c' c'' : LirsCache} (h : PruneFrame c c') (h' : PruneFrame c' c'') :
    PruneFrame c c'' := by
  refine ⟨h.config.trans h'.config, h'.stats.trans h.stats, h'.qQueue.trans h.qQueue, ?_, ?_⟩
  · intro q hq hne
    obtain ⟨h1, h2⟩ := h.keeps q hq hne
    obtain ⟨h3, h4⟩ := h'.keeps q h1 (by rw [h2]; exact hne)
    exact ⟨h3, h4.trans h2⟩
  · intro q hq
    obtain ⟨h1, h2⟩ := h'.old q hq
    obtain ⟨h3, h4⟩ := h.old q h1
    exact ⟨h3, h2.trans h4⟩

theorem LirsInv.pruneBottom (h : LirsInv c) (hl : c.sStack.getLast? = some p)
    (hne : (c.block p).type ≠ .lir) :
    LirsInv (lirsPruneBottom c p) ∧ PruneFrame c (lirsPruneBottom c p) ∧
      (lirsPruneBottom c p).sStack = c.sStack.erase p := by
  have hp := List.mem_of_getLast? hl
  have htypes := types_delS c p
  have hkeep : ∀ q, ((c.delS p).block q).type = (c.block q).type := congrFun htypes
  have hkey : ∀ q, ((c.delS p).block q).key = (c.block q).key := fun q => by
    by_cases he : q = p <;> simp [LirsCache.delS, he]
  unfold lirsPruneBottom
  rcases ht : (c.block p).type with _ | _ | _
  · exact absurd ht hne
  · rw [if_neg (by rw [hkeep, ht]; decide)]
    exact ⟨h.delS hp ht, ⟨⟨rfl, rfl⟩, rfl, rfl, fun q hq _ => ⟨hq, hkeep q⟩,
      fun q hq => ⟨hq, hkey q⟩⟩, rfl⟩
  · rw [if_pos (by rw [hkeep, ht])]
    refine ⟨h.destroy hp ht, ⟨⟨rfl, rfl⟩, rfl, rfl, fun q hq hqt => ⟨?_, hkeep q⟩,
      fun q hq => ⟨List.mem_of_mem_erase hq, hkey q⟩⟩, rfl⟩
    refine (List.mem_erase_of_ne ?_).mpr hq
    rintro rfl
    exact hqt ht

theorem LirsInv.pruneLoop (h : LirsInv c) {n : ℕ} (hn : c.sStack.length ≤ n) :
    LirsInv (lirsPruneLoop n c) ∧ PruneFrame c (lirsPruneLoop n c) ∧
      ∀ q, (lirsPruneLoop n c).sStack.getLast? = some q →
        ((lirsPruneLoop n c).block q).type = .lir := by
  induction n generalizing c with
  | zero =>
    refine ⟨h, PruneFrame.refl c, fun q hq => ?_⟩
    have hnil : c.sStack = [] := List.length_eq_zero_iff.mp (Nat.le_zero.mp hn)
    rw [show lirsPruneLoop 0 c = c from rfl, hnil] at hq
    exact absurd hq (by simp)
  | succ n ih =>
    unfold lirsPruneLoop
    cases hl : c.sStack.getLast? with
    | none =>
      refine ⟨h, PruneFrame.refl c, fun q hq => ?_⟩
      rw [hl] at hq
      exact absurd hq (by simp)
    | some p =>
      have hp := List.mem_of_getLast? hl
      have hflag := ((h.shape.sFlag p).mp hp).2
      by_cases ht : (c.block p).type = .lir
      · simp only [ht, hflag, and_self, if_true]
        refine ⟨h, PruneFrame.refl c, fun q hq => ?_⟩
        rw [hl, Option.some_inj] at hq
        rw [← hq, ht]
      · simp only [ht, false_and, if_false]
        obtain ⟨hinv, hframe, hs⟩ := h.pruneBottom hl ht
        have hlen : (lirsPruneBottom c p).sStack.length ≤ n := by
          rw [hs, List.length_erase_of_mem hp]
          omega
        obtain ⟨h1, h2, h3⟩ := ih hinv hlen
        exact ⟨h1, hframe.trans h2, h3⟩

/-- **`lirs_prune_s_stack`** keeps the invariant, and ends with S empty or a LIR block below. -/
theorem LirsInv.prune (h : LirsInv c) :
    LirsInv (lirsPruneSStack c) ∧ PruneFrame c (lirsPruneSStack c) :=
  ⟨(h.pruneLoop (le_refl _)).1, (h.pruneLoop (le_refl _)).2.1⟩

theorem LirsInv.prune_bottom (h : LirsInv c) {q : ℕ}
    (hq : (lirsPruneSStack c).sStack.getLast? = some q) :
    ((lirsPruneSStack c).block q).type = .lir := (h.pruneLoop (le_refl _)).2.2 q hq

/-! ## evicting from Q -/

/-- A block that leaves Q for a ghost, and the others. -/
theorem evicted_block (c : LirsCache) (p : ℕ) :
    ((c.delQ p).setType p .hirNonResident).block p =
        { c.block p with inQQueue := false, type := .hirNonResident } ∧
      ∀ q, q ≠ p → ((c.delQ p).setType p .hirNonResident).block q = c.block q := by
  refine ⟨?_, fun q hne => ?_⟩
  · simp [LirsCache.setType, LirsCache.setBlock, LirsCache.delQ]
  · simp [LirsCache.setType, LirsCache.setBlock, LirsCache.delQ, hne]

theorem LirsInv.typeCount_evicted (h : LirsInv c) (hheap : p ∈ c.heap)
    (ht : (c.block p).type = .hirResident) :
    typeCount c.heap ((c.delQ p).setType p .hirNonResident).types .lir =
        typeCount c.heap c.types .lir ∧
      typeCount c.heap ((c.delQ p).setType p .hirNonResident).types .hirResident =
        typeCount c.heap c.types .hirResident - 1 := by
  have htp : c.types p = .hirResident := ht
  have hpos : 0 < typeCount c.heap c.types .hirResident := typeCount_pos c.types hheap ht
  have h1 := typeCount_update c.types h.shape.heapNodup hheap .hirNonResident .lir
  have h2 := typeCount_update c.types h.shape.heapNodup hheap .hirNonResident .hirResident
  rw [types_setType, types_delQ]
  simp only [htp, reduceCtorEq, if_false, if_true] at h1 h2
  omega

theorem LirsInv.evictHead (h : LirsInv c) {rest : List ℕ} (hq : c.qQueue = p :: rest) :
    LirsInv (lirsEvictHead c p) ∧ (lirsEvictHead c p).qQueue = rest ∧
      (lirsEvictHead c p).stats.lirCount = c.stats.lirCount ∧ SameConfig c (lirsEvictHead c p) := by
  have hp : p ∈ c.qQueue := by
    rw [hq]
    exact List.mem_cons_self
  have hheap := h.shape.mem_heap_of_q hp
  have ht := (h.inQ_iff hheap).mpr hp
  have herase : c.qQueue.erase p = rest := by rw [hq, List.erase_cons_head]
  have hshape : LirsShape ((c.delQ p).setType p .hirNonResident) :=
    (h.shape.delQ hp).setType hheap _
  obtain ⟨hself, hother⟩ := evicted_block c p
  obtain ⟨hlir, hhir⟩ := h.typeCount_evicted hheap ht
  unfold lirsEvictHead
  extract_lets c1 stats c2
  have hinS : (c2.block p).inSStack = (c.block p).inSStack := by
    show (c1.block p).inSStack = _
    rw [hself]
  have hshape2 : LirsShape c2 := hshape.congr rfl rfl rfl rfl rfl rfl rfl rfl
  rw [hinS]
  cases hs : (c.block p).inSStack with
  | true =>
    -- on S it stays as a ghost
    rw [if_neg (by decide)]
    refine ⟨⟨hshape2, fun q hq' => ?_, h.lir.trans hlir.symm, ?_⟩, herase, rfl, rfl, rfl⟩
    · show BlockOk (c1.block q)
      by_cases he : q = p
      · rw [he, hself]
        exact ⟨by simp, fun _ => hs⟩
      · rw [hother q he]
        exact h.blocks q hq'
    · show c.stats.hirResidentCount - 1 = typeCount c.heap c1.types .hirResident
      rw [hhir, h.hir]
  | false =>
    -- elsewhere it is freed
    rw [if_pos (by decide)]
    have hrest : ∀ t, t ≠ .hirNonResident → typeCount (c.heap.erase p) c1.types t =
        typeCount c.heap c1.types t := by
      intro t hne
      have htp : c1.types p ≠ t := by
        show (c1.block p).type ≠ t
        rw [hself]
        exact hne.symm
      rw [typeCount_erase c1.types hheap, if_neg htp, Nat.add_zero]
    refine ⟨⟨hshape2.destroy hheap (hinS.trans hs) ?_, fun q hq' => ?_, ?_, ?_⟩, herase, rfl, rfl, rfl⟩
    · show (c1.block p).inQQueue = false
      rw [hself]
    · obtain ⟨hne, hmem⟩ := h.shape.heapNodup.mem_erase_iff.mp hq'
      show BlockOk (c1.block q)
      rw [hother q hne]
      exact h.blocks q hmem
    · show c.stats.lirCount = typeCount (c.heap.erase p) c1.types .lir
      rw [hrest _ (by decide), hlir]
      exact h.lir
    · show c.stats.hirResidentCount - 1 = typeCount (c.heap.erase p) c1.types .hirResident
      rw [hrest _ (by decide), hhir, h.hir]

theorem LirsInv.evictLoop (h : LirsInv c) {n : ℕ} (hn : c.qQueue.length ≤ n) :
    LirsInv (lirsEvictLoop n c) ∧ SameConfig c (lirsEvictLoop n c) ∧
      (lirsEvictLoop n c).stats.lirCount = c.stats.lirCount ∧
      (lirsEvictLoop n c).qQueue.length ≤ c.hirCapacity := by
  induction n generalizing c with
  | zero =>
    refine ⟨h, SameConfig.refl c, rfl, ?_⟩
    show c.qQueue.length ≤ _
    omega
  | succ n ih =>
    unfold lirsEvictLoop
    cases hq : c.qQueue with
    | nil =>
      rw [List.head?_nil]
      refine ⟨h, SameConfig.refl c, rfl, ?_⟩
      show c.qQueue.length ≤ _
      rw [hq]
      exact Nat.zero_le _
    | cons p rest =>
      simp only [List.head?_cons]
      by_cases hover : c.hirCapacity < c.qQueueSize
      · rw [if_pos hover]
        obtain ⟨hinv, hrest, hlir, hcfg⟩ := h.evictHead hq
        have hlen : (lirsEvictHead c p).qQueue.length ≤ n := by
          rw [hrest]
          rw [hq, List.length_cons] at hn
          omega
        obtain ⟨h1, h2, h3, h4⟩ := ih hinv hlen
        exact ⟨h1, hcfg.trans h2, h3.trans hlir, by rw [← hcfg.hirCapacity]; exact h4⟩
      · rw [if_neg hover]
        refine ⟨h, SameConfig.refl c, rfl, ?_⟩
        have := h.shape.qSize
        omega

/-- **`lirs_evict_hir`** keeps the invariant and leaves at most `hir_capacity` blocks on Q. -/
theorem LirsInv.evict (h : LirsInv c) :
    LirsInv (lirsEvictHir c) ∧ SameConfig c (lirsEvictHir c) ∧
      (lirsEvictHir c).stats.lirCount = c.stats.lirCount ∧
      (lirsEvictHir c).qQueue.length ≤ c.hirCapacity := h.evictLoop (le_refl _)

/-- There is nothing to evict while Q is within its capacity. -/
theorem LirsInv.evict_self (h : LirsInv c) (hle : c.qQueue.length ≤ c.hirCapacity) :
    lirsEvictHir c = c := by
  have hsize := h.shape.qSize
  unfold lirsEvictHir
  cases hn : c.qQueue.length with
  | zero => rfl
  | succ n =>
    unfold lirsEvictLoop
    cases c.qQueue.head? with
    | none => rfl
    | some p => exact if_neg (by omega)

/-! ## promotion and demotion -/

theorem LirsInv.retype (h : LirsInv c) {c' : LirsCache} {t : LirsBlockType} (hp : p ∈ c.heap)
    (hshape : LirsShape c') (hheap : c'.heap = c.heap)
    (htypes : c'.types = Function.update c.types p t) (hself : BlockOk (c'.block p))
    (hother : ∀ q, q ≠ p → c'.block q = c.block q)
    (hlir : c'.stats.lirCount + (if (c.block p).type = .lir then 1 else 0) =
      c.stats.lirCount + if t = .lir then 1 else 0)
    (hhir : c'.stats.hirResidentCount + (if (c.block p).type = .hirResident then 1 else 0) =
      c.stats.hirResidentCount + if t = .hirResident then 1 else 0) : LirsInv c' := by
  have h1 := typeCount_update c.types h.shape.heapNodup hp t .lir
  have h2 := typeCount_update c.types h.shape.heapNodup hp t .hirResident
  have htp : c.types p = (c.block p).type := rfl
  rw [htp, ← h.lir] at h1
  rw [htp, ← h.hir] at h2
  refine ⟨hshape, fun q hq => ?_, ?_, ?_⟩
  · by_cases he : q = p
    · rw [he]
      exact hself
    · rw [hother q he]
      exact h.blocks q (hheap ▸ hq)
  · rw [hheap, htypes]
    omega
  · rw [hheap, htypes]
    omega

theorem LirsInv.promoteBlock (h : LirsInv c) (hs : p ∈ c.sStack)
    (ht : (c.block p).type = .hirResident) :
    LirsInv (lirsPromoteBlock c p) ∧ SameConfig c (lirsPromoteBlock c p) ∧
      (lirsPromoteBlock c p).qQueue = c.qQueue.erase p ∧
      (lirsPromoteBlock c p).sStack = c.sStack ∧
      (lirsPromoteBlock c p).stats.lirCount = c.stats.lirCount + 1 ∧
      (lirsPromoteBlock c p).heap = c.heap ∧
      (lirsPromoteBlock c p).types = Function.update c.types p .lir := by
  have hheap := h.shape.mem_heap_of_s hs
  have hq := (h.inQ_iff hheap).mp ht
  have hflagQ := ((h.shape.qFlag p).mp hq).2
  have hflagS := ((h.shape.sFlag p).mp hs).2
  have hpos : 0 < c.stats.hirResidentCount := by
    rw [h.hir]
    exact typeCount_pos c.types hheap ht
  unfold lirsPromoteBlock
  extract_lets c1 stats c2
  have hin : (c2.block p).inQQueue = true := by
    show (Function.update c.block p _ p).inQQueue = true
    rw [Function.update_self]
    exact hflagQ
  have hshape : LirsShape c2 := (h.shape.setType hheap .lir).congr rfl rfl rfl rfl rfl rfl rfl rfl
  have htypes : (c2.delQ p).types = Function.update c.types p .lir := by
    rw [types_delQ]
    exact types_setType c p .lir
  rw [if_pos hin]
  refine ⟨h.retype hheap (hshape.delQ hq) rfl htypes ?_ ?_ ?_ ?_, ⟨rfl, rfl⟩, rfl, rfl, rfl, rfl, htypes⟩
  · show BlockOk (Function.update c2.block p _ p)
    rw [Function.update_self]
    refine ⟨?_, fun _ => ?_⟩
    · show (c2.block p).type = .hirResident ↔ false = true
      rw [show (c2.block p).type = .lir from congrFun (types_setType c p .lir) p |>.trans
        (Function.update_self ..)]
      decide
    · show (Function.update c.block p _ p).inSStack = true
      rw [Function.update_self]
      exact hflagS
  · intro q hne
    show Function.update (Function.update c.block p _) p _ q = c.block q
    rw [Function.update_of_ne hne, Function.update_of_ne hne]
  · rw [ht]
    rfl
  · rw [ht]
    show c.stats.hirResidentCount - 1 + 1 = c.stats.hirResidentCount + 0
    omega

theorem LirsInv.demoteLir (h : LirsInv c) (hs : p ∈ c.sStack) (ht : (c.block p).type = .lir) :
    LirsInv (lirsDemoteLir c p) ∧ SameConfig c (lirsDemoteLir c p) ∧
      (lirsDemoteLir c p).qQueue = c.qQueue ++ [p] ∧ (lirsDemoteLir c p).sStack = c.sStack ∧
      (lirsDemoteLir c p).stats.lirCount + 1 = c.stats.lirCount ∧
      (lirsDemoteLir c p).heap = c.heap ∧
      (lirsDemoteLir c p).types = Function.update c.types p .hirResident := by
  have hheap := h.shape.mem_heap_of_s hs
  have hb := h.blocks p hheap
  have hq : p ∉ c.qQueue := by
    rw [← h.inQ_iff hheap, ht]
    decide
  have hflagQ : (c.block p).inQQueue = false := by
    rw [Bool.eq_false_iff, ne_eq, ← hb.resident, ht]
    decide
  have hpos : 0 < c.stats.lirCount := by
    rw [h.lir]
    exact typeCount_pos c.types hheap ht
  unfold lirsDemoteLir
  extract_lets c1 stats c2
  have hin : (!(c2.block p).inQQueue) = true := by
    show (!(Function.update c.block p _ p).inQQueue) = true
    rw [Function.update_self]
    show (!(c.block p).inQQueue) = true
    rw [hflagQ]
    rfl
  have hshape : LirsShape c2 :=
    (h.shape.setType hheap .hirResident).congr rfl rfl rfl rfl rfl rfl rfl rfl
  have htypes : (c2.addQ p).types = Function.update c.types p .hirResident := by
    rw [types_addQ]
    exact types_setType c p .hirResident
  rw [if_pos hin]
  refine ⟨h.retype hheap (hshape.addQ hheap hq) rfl htypes ?_ ?_ ?_ ?_, ⟨rfl, rfl⟩, rfl, rfl, ?_,
    rfl, htypes⟩
  · show BlockOk (Function.update c2.block p _ p)
    rw [Function.update_self]
    have htype : (c2.block p).type = .hirResident :=
      congrFun (types_setType c p .hirResident) p |>.trans (Function.update_self ..)
    exact ⟨⟨fun _ => rfl, fun _ => htype⟩, fun hne => absurd htype hne⟩
  · intro q hne
    show Function.update (Function.update c.block p _) p _ q = c.block q
    rw [Function.update_of_ne hne, Function.update_of_ne hne]
  · rw [ht]
    show c.stats.lirCount - 1 + 1 = c.stats.lirCount + 0
    omega
  · rw [ht]
    rfl
  · show c.stats.lirCount - 1 + 1 = c.stats.lirCount
    omega

/-- Demoting the bottom of S: a LIR block moves from S to Q, any other stays. -/
theorem LirsInv.demoteBottom (h : LirsInv c) :
    LirsInv (lirsDemoteBottom c) ∧ SameConfig c (lirsDemoteBottom c) ∧
      (lirsDemoteBottom c).heap = c.heap ∧
      (lirsDemoteBottom c).qQueue.length ≤ c.qQueue.length + 1 ∧
      (∀ q, (c.block q).type ≠ .hirNonResident →
        ((lirsDemoteBottom c).block q).type ≠ .hirNonResident) ∧
      (lirsDemoteBottom c).stats.lirCount +
        (if ∃ q, c.sStack.getLast? = some q ∧ (c.block q).type = .lir then 1 else 0) =
          c.stats.lirCount := by
  unfold lirsDemoteBottom
  cases hl : c.sStack.getLast? with
  | none =>
    refine ⟨h, SameConfig.refl c, rfl, Nat.le_succ _, fun _ hq => hq, ?_⟩
    simp
  | some q =>
    by_cases ht : (c.block q).type = .lir
    · obtain ⟨h1, h2, h3, h4, h5, h6, h7⟩ := h.demoteLir (List.mem_of_getLast? hl) ht
      have htype : ((lirsDemoteLir c q).block q).type = .hirResident :=
        (congrFun h7 q).trans (Function.update_self ..)
      have hs : q ∈ (lirsDemoteLir c q).sStack := by
        rw [h4]
        exact List.mem_of_getLast? hl
      have htypes : ((lirsDemoteLir c q).delS q).types = Function.update c.types q .hirResident := by
        rw [types_delS, h7]
      have hlen : ((lirsDemoteLir c q).delS q).qQueue.length = c.qQueue.length + 1 := by
        show (lirsDemoteLir c q).qQueue.length = _
        rw [h3, List.length_append, List.length_singleton]
      dsimp only
      rw [if_pos ht]
      refine ⟨h1.delS hs htype, ⟨h2.capacity, h2.hirCapacity⟩, h6, le_of_eq hlen, fun r hr => ?_, ?_⟩
      · show ((lirsDemoteLir c q).delS q).types r ≠ .hirNonResident
        rw [htypes]
        by_cases he : r = q
        · rw [he, Function.update_self]
          decide
        · rw [Function.update_of_ne he]
          exact hr
      · rw [if_pos ⟨q, rfl, ht⟩]
        exact h5
    · dsimp only
      rw [if_neg ht]
      refine ⟨h, SameConfig.refl c, rfl, Nat.le_succ _, fun _ hq => hq, ?_⟩
      rw [if_neg]
      · rfl
      · rintro ⟨r, hr, hrt⟩
        cases hr
        exact ht hrt

/-! ## `lirs_get` -/

/-- A store to a field of a block that the invariant does not read. -/
theorem LirsInv.setBlock (h : LirsInv c) (hp : p ∈ c.heap) {b : LirsBlock}
    (hkey : b.key = (c.block p).key) (htype : b.type = (c.block p).type)
    (hs : b.inSStack = (c.block p).inSStack) (hq : b.inQQueue = (c.block p).inQQueue) :
    LirsInv (c.setBlock p b) := by
  have hb := h.blocks p hp
  have htypes : (c.setBlock p b).types = c.types := by
    funext q
    by_cases he : q = p <;> simp [LirsCache.types, LirsCache.setBlock, he, htype]
  refine ⟨h.shape.setBlock hp hkey hs hq, blockOk_update h.blocks ⟨?_, ?_⟩, ?_, ?_⟩
  · rw [htype, hq]
    exact hb.resident
  · rw [htype, hs]
    exact hb.stacked
  · rw [htypes]
    exact h.lir
  · rw [htypes]
    exact h.hir

theorem LirsInv.withTime (h : LirsInv c) (time : ℕ) : LirsInv { c with currentTime := time } :=
  ⟨h.shape.congr rfl rfl rfl rfl rfl rfl rfl rfl, h.blocks, h.lir, h.hir⟩

/-- What an operation may do to a cache in a good state. -/
structure LirsKeeps (c c' : LirsCache) : Prop where
  inv : LirsInv c'
  config : SameConfig c c'
  queue : c'.qQueue.length ≤ c.hirCapacity

theorem LirsInv.getLir (h : LirsInv c) (hle : c.qQueue.length ≤ c.hirCapacity) (hp : p ∈ c.heap)
    (ht : (c.block p).type = .lir) :
    LirsKeeps c (lirsGetLir c p) ∧ (lirsGetLir c p).stats.lirCount = c.stats.lirCount := by
  have hflag : (c.block p).inSStack = true := (h.blocks p hp).stacked (by rw [ht]; decide)
  have hs := (h.shape.sFlag p).mpr ⟨hp, hflag⟩
  unfold lirsGetLir
  extract_lets stats c1
  have h1 : LirsInv c1 := h.withStats rfl rfl
  have hflag1 : (c1.block p).inSStack = true := hflag
  have hs1 : p ∈ c1.sStack := hs
  rw [if_pos hflag1]
  obtain ⟨h2, hf⟩ := (h1.moveS hs1).prune
  refine ⟨⟨h2, ⟨hf.config.capacity, hf.config.hirCapacity⟩, ?_⟩, ?_⟩
  · rw [hf.qQueue]
    exact hle
  · rw [hf.stats]
    rfl

theorem LirsInv.getHirNonResident (h : LirsInv c) (hle : c.qQueue.length ≤ c.hirCapacity)
    (hp : p ∈ c.heap) (ht : (c.block p).type = .hirNonResident) :
    LirsKeeps c (lirsGetHirNonResident c p) ∧
      (lirsGetHirNonResident c p).stats.lirCount = c.stats.lirCount := by
  have hflag : (c.block p).inSStack = true := (h.blocks p hp).stacked (by rw [ht]; decide)
  have hs := (h.shape.sFlag p).mpr ⟨hp, hflag⟩
  unfold lirsGetHirNonResident
  extract_lets stats c1
  have h1 : LirsInv c1 := h.withStats rfl rfl
  have hflag1 : (c1.block p).inSStack = true := hflag
  have hs1 : p ∈ c1.sStack := hs
  have ht1 : (c1.block p).type = .hirNonResident := ht
  have hcomm : (lirsRemoveHash c1 p).delS p = lirsRemoveHash (c1.delS p) p := rfl
  rw [if_pos hflag1, hcomm]
  obtain ⟨h2, hf⟩ := (h1.destroy hs1 ht1).prune
  refine ⟨⟨h2, ⟨hf.config.capacity, hf.config.hirCapacity⟩, ?_⟩, ?_⟩
  · rw [hf.qQueue]
    exact hle
  · rw [hf.stats]
    rfl

/-- The bottom of S is LIR once `p` is: it is LIR already, or it is `p`. -/
def BottomLir (c : LirsCache) (p : ℕ) : Prop :=
  ∃ q, c.sStack.getLast? = some q ∧ (q = p ∨ (c.block q).type = .lir)

open Classical in
/-- **`lirs_promote_hir`** of a block on S; it adds a LIR block unless it demotes one. -/
theorem LirsInv.promote (h : LirsInv c) (hle : c.qQueue.length ≤ c.hirCapacity)
    (hs : p ∈ c.sStack) (ht : (c.block p).type = .hirResident) :
    LirsKeeps c (lirsPromoteHir c p) ∧ p ∈ (lirsPromoteHir c p).heap ∧
      (lirsPromoteHir c p).stats.lirCount + (if BottomLir c p then 1 else 0) =
        c.stats.lirCount + 1 := by
  have hheap := h.shape.mem_heap_of_s hs
  have hq := (h.inQ_iff hheap).mp ht
  obtain ⟨hA, hAcfg, hAq, hAs, hAlir, hAheap, hAtypes⟩ := h.promoteBlock hs ht
  obtain ⟨hB, hBcfg, hBheap, hBq, hBtype, hBlir⟩ := hA.demoteBottom
  obtain ⟨hC, hCf⟩ := hB.prune
  have hpos := List.length_pos_of_mem hq
  have hlen : (lirsPruneSStack (lirsDemoteBottom (lirsPromoteBlock c p))).qQueue.length ≤
      c.hirCapacity := by
    rw [hCf.qQueue]
    rw [hAq, List.length_erase_of_mem hq] at hBq
    omega
  have hcfg := (hAcfg.trans hBcfg).trans hCf.config
  have hAp : ((lirsPromoteBlock c p).block p).type = .lir :=
    (congrFun hAtypes p).trans (Function.update_self ..)
  have hkeep := hCf.keeps p (by rw [hBheap, hAheap]; exact hheap)
    (hBtype p (by rw [hAp]; decide))
  have hself : lirsPromoteHir c p =
      lirsPruneSStack (lirsDemoteBottom (lirsPromoteBlock c p)) :=
    hC.evict_self (by rw [hcfg.hirCapacity]; exact hlen)
  have hbottom : (∃ q, (lirsPromoteBlock c p).sStack.getLast? = some q ∧
      ((lirsPromoteBlock c p).block q).type = .lir) ↔ BottomLir c p := by
    rw [hAs]
    refine exists_congr fun q => and_congr_right fun _ => ?_
    show (lirsPromoteBlock c p).types q = .lir ↔ _
    rw [hAtypes]
    by_cases he : q = p
    · simp [he]
    · rw [Function.update_of_ne he]
      simp only [he, false_or]
      rfl
  rw [hself]
  refine ⟨⟨hC, hcfg, hlen⟩, hkeep.1, ?_⟩
  rw [hCf.stats]
  simp only [hbottom] at hBlir
  rw [← hAlir, ← hBlir]

theorem LirsInv.toTop (h : LirsInv c) (hp : p ∈ c.heap) :
    LirsInv (if (c.block p).inSStack then c.moveS p else c.addS p) := by
  by_cases hs : (c.block p).inSStack = true
  · rw [if_pos hs]
    exact h.moveS ((h.shape.sFlag p).mpr ⟨hp, hs⟩)
  · rw [if_neg hs]
    exact h.addS hp fun hin => hs ((h.shape.sFlag p).mp hin).2

/-- A resident block is on Q already. -/
theorem LirsInv.not_unqueued (h : LirsInv c) (hp : p ∈ c.heap) :
    ¬ ((c.block p).type = .hirResident ∧ (!(c.block p).inQQueue) = true) := by
  rintro ⟨hres, hnot⟩
  rw [(h.blocks p hp).resident.mp hres] at hnot
  exact absurd hnot (by decide)

open Classical in
/-- **`lirs_get` of a HIR resident block.** -/
theorem LirsInv.getHirResident (h : LirsInv c) (hle : c.qQueue.length ≤ c.hirCapacity)
    (hp : p ∈ c.heap) (ht : (c.block p).type = .hirResident) :
    LirsKeeps c (lirsGetHirResident c p) ∧
      (lirsGetHirResident c p).stats.lirCount +
        (if p ∈ c.sStack ∧ BottomLir c p then 1 else 0) =
          c.stats.lirCount + if p ∈ c.sStack then 1 else 0 := by
  unfold lirsGetHirResident
  extract_lets stats c1 c2 c3
  have h1 : LirsInv c1 := h.withStats rfl rfl
  -- after the promotion, if there is one
  have h2 : LirsKeeps c c2 ∧ p ∈ c2.heap ∧
      c2.stats.lirCount + (if p ∈ c.sStack ∧ BottomLir c p then 1 else 0) =
        c.stats.lirCount + if p ∈ c.sStack then 1 else 0 := by
    by_cases hs : p ∈ c.sStack
    · have hflag : (c1.block p).inSStack = true := ((h.shape.sFlag p).mp hs).2
      have hs1 : p ∈ c1.sStack := hs
      have hc2 : c2 = lirsPromoteHir c1 p := if_pos hflag
      obtain ⟨hk, hmem, hlir⟩ := h1.promote hle hs1 ht
      rw [hc2]
      refine ⟨⟨hk.inv, ⟨hk.config.capacity, hk.config.hirCapacity⟩, hk.queue⟩, hmem, ?_⟩
      simp only [hs, true_and, if_true]
      exact hlir
    · have hflag : ¬ (c1.block p).inSStack = true := fun hf =>
        hs ((h.shape.sFlag p).mpr ⟨hp, hf⟩)
      have hc2 : c2 = c1 := if_neg hflag
      rw [hc2]
      refine ⟨⟨h1, ⟨rfl, rfl⟩, hle⟩, hp, ?_⟩
      simp only [hs, false_and, if_false]
      rfl
  obtain ⟨hk2, hp2, hlir2⟩ := h2
  have hinv3 : LirsInv c3 := hk2.inv.toTop hp2
  have h3 : SameConfig c2 c3 ∧ p ∈ c3.heap ∧ c3.stats = c2.stats := by
    by_cases hs : (c2.block p).inSStack = true
    · have hc3 : c3 = c2.moveS p := if_pos hs
      rw [hc3]
      exact ⟨⟨rfl, rfl⟩, hp2, rfl⟩
    · have hc3 : c3 = c2.addS p := if_neg hs
      rw [hc3]
      exact ⟨⟨rfl, rfl⟩, hp2, rfl⟩
  obtain ⟨hcfg3, hp3, hstats3⟩ := h3
  rw [if_neg (hinv3.not_unqueued hp3)]
  obtain ⟨h4, hcfg4, hlir4, hle4⟩ := hinv3.evict
  have hcfg := (hk2.config.trans hcfg3)
  refine ⟨⟨h4, hcfg.trans hcfg4, by rw [← hcfg.hirCapacity]; exact hle4⟩, ?_⟩
  rw [hlir4, hstats3]
  exact hlir2

/-- `lirs_find_block` returns the block of the key, if there is one. -/
theorem LirsInv.find_some (h : LirsInv c) {key : ℕ} (hf : lirsFindBlock c key = some p) :
    p ∈ c.heap ∧ (c.block p).key = key := by
  have hmem := List.mem_of_find?_eq_some hf
  have hkey := List.find?_some hf
  exact ⟨((h.shape.bucket _ p).mp hmem).1, of_decide_eq_true hkey⟩

theorem LirsInv.find_none (h : LirsInv c) {key : ℕ} (hf : lirsFindBlock c key = none) :
    ∀ q ∈ c.heap, (c.block q).key ≠ key := by
  intro q hq hkey
  have hmem : q ∈ c.hashTable (c.bucket key) := (h.shape.bucket _ q).mpr ⟨hq, by rw [hkey]⟩
  exact absurd (decide_eq_true hkey) (List.find?_eq_none.mp hf q hmem)

/-- A cache whose block at `p` has just been accessed. -/
def touched (c : LirsCache) (p : ℕ) : LirsCache :=
  { c.setBlock p { c.block p with accessTime := c.currentTime + 1 } with
    currentTime := c.currentTime + 1 }

theorem types_touched (c : LirsCache) (p : ℕ) : (touched c p).types = c.types := by
  funext q
  by_cases he : q = p <;> simp [LirsCache.types, touched, LirsCache.setBlock, he]

theorem LirsInv.touch (h : LirsInv c) (hp : p ∈ c.heap) : LirsInv (touched c p) := by
  have hset : LirsInv (c.setBlock p { c.block p with accessTime := c.currentTime + 1 }) :=
    h.setBlock hp rfl rfl rfl rfl
  exact hset.withTime _

/-- `lirs_get` of a key that has a block, by the type of the block. -/
theorem lirsGet_found {key : ℕ} (hk : key ≠ 0) (hf : lirsFindBlock c key = some p) :
    lirsGet c key =
      match (c.block p).type with
      | .lir => (lirsGetLir (touched c p) p, ((lirsGetLir (touched c p) p).block p).value)
      | .hirResident =>
        (lirsGetHirResident (touched c p) p, ((lirsGetHirResident (touched c p) p).block p).value)
      | .hirNonResident => (lirsGetHirNonResident (touched c p) p, 0) := by
  have ht : ((touched c p).block p).type = (c.block p).type := congrFun (types_touched c p) p
  rw [← ht]
  unfold lirsGet
  rw [if_neg hk, hf]
  rfl

theorem LirsInv.get (h : LirsInv c) (hle : c.qQueue.length ≤ c.hirCapacity) (key : ℕ) :
    LirsKeeps c (lirsGet c key).1 := by
  have hself : LirsKeeps c c := ⟨h, SameConfig.refl c, hle⟩
  by_cases hk : key = 0
  · unfold lirsGet
    rw [if_pos hk]
    exact hself
  rcases hf : lirsFindBlock c key with _ | p
  · unfold lirsGet
    rw [if_neg hk, hf]
    exact ⟨h.withStats rfl rfl, ⟨rfl, rfl⟩, hle⟩
  obtain ⟨hp, -⟩ := h.find_some hf
  have h1 := h.touch hp
  have htypes : ((touched c p).block p).type = (c.block p).type := congrFun (types_touched c p) p
  have hconfig : ∀ {c'}, LirsKeeps (touched c p) c' → LirsKeeps c c' := fun hk =>
    ⟨hk.inv, ⟨hk.config.capacity, hk.config.hirCapacity⟩, hk.queue⟩
  rw [lirsGet_found hk hf]
  rcases ht : (c.block p).type with _ | _ | _
  · exact hconfig (h1.getLir hle hp (htypes.trans ht)).1
  · exact hconfig (h1.getHirResident hle hp (htypes.trans ht)).1
  · exact hconfig (h1.getHirNonResident hle hp (htypes.trans ht)).1

/-! ## `lirs_put` -/

theorem LirsInv.putExisting (h : LirsInv c) (hp : p ∈ c.heap) (value size : ℕ) :
    LirsInv (lirsPutExisting c p value size) ∧
      SameConfig c (lirsPutExisting c p value size) ∧
      (lirsPutExisting c p value size).qQueue = c.qQueue ∧
      (lirsPutExisting c p value size).stats.lirCount = c.stats.lirCount := by
  unfold lirsPutExisting
  extract_lets b stats c1
  by_cases hv : b.value ≠ value
  · rw [if_pos hv]
    have h1 : LirsInv c1 := ⟨h.shape.congr rfl rfl rfl rfl rfl rfl rfl rfl, h.blocks, h.lir, h.hir⟩
    have hset : LirsInv (c1.setBlock p { b with value := value, size := size }) :=
      h1.setBlock hp rfl rfl rfl rfl
    exact ⟨hset, ⟨rfl, rfl⟩, rfl, rfl⟩
  · rw [if_neg hv]
    exact ⟨h, ⟨rfl, rfl⟩, rfl, rfl⟩

/-- Making room changes nothing but the bottom of S. -/
theorem LirsInv.makeRoom (h : LirsInv c) (hle : c.qQueue.length ≤ c.hirCapacity) (size : ℕ) :
    LirsInv (lirsMakeRoom c size) ∧ PruneFrame c (lirsMakeRoom c size) := by
  unfold lirsMakeRoom
  by_cases hover : c.full size = true
  · rw [if_pos hover, h.evict_self hle]
    dsimp only
    by_cases hprune : (c.full size && !c.sStack.isEmpty) = true
    · rw [if_pos hprune]
      exact h.prune
    · rw [if_neg hprune]
      exact ⟨h, PruneFrame.refl c⟩
  · rw [if_neg hover]
    exact ⟨h, PruneFrame.refl c⟩

/-- A new block enters the table and S, and Q as its flag says. -/
theorem LirsShape.insert {c c' : LirsCache} (h : LirsShape c) (hp : p ∉ c.heap)
    (hkey : ∀ q ∈ c.heap, (c.block q).key ≠ (c'.block p).key)
    (hmask : c'.hashTableMask = c.hashTableMask) (hheap : c'.heap = p :: c.heap)
    (htable : c'.hashTable = Function.update c.hashTable (c.bucket (c'.block p).key)
      (p :: c.hashTable (c.bucket (c'.block p).key)))
    (hother : ∀ q, q ≠ p → c'.block q = c.block q) (hs : c'.sStack = p :: c.sStack)
    (hflagS : (c'.block p).inSStack = true)
    (hq : c'.qQueue = if (c'.block p).inQQueue then c.qQueue ++ [p] else c.qQueue)
    (hss : c'.sStackSize = c.sStackSize + 1) (hqs : c'.qQueueSize = c'.qQueue.length) :
    LirsShape c' := by
  have hpS : p ∉ c.sStack := fun hin => hp (h.mem_heap_of_s hin)
  have hpQ : p ∉ c.qQueue := fun hin => hp (h.mem_heap_of_q hin)
  have hpB : ∀ i, p ∉ c.hashTable i := fun i hin => hp ((h.bucket i p).mp hin).1
  have hbucket : ∀ k, c'.bucket k = c.bucket k := fun k => by
    unfold LirsCache.bucket
    rw [hmask]
  have hnew : SameBut p c.heap (p :: c.heap) true := SameBut.cons h.heapNodup hp
  have hB : ∀ i, SameBut p (c.hashTable i) (c'.hashTable i)
      (decide (c.bucket (c'.block p).key = i)) := by
    intro i
    rw [htable]
    by_cases hi : i = c.bucket (c'.block p).key
    · rw [hi, Function.update_self, decide_eq_true rfl]
      exact SameBut.cons (h.bucketNodup _) (hpB _)
    · rw [Function.update_of_ne hi, decide_eq_false (Ne.symm hi)]
      exact SameBut.refl (h.bucketNodup i) (by simp [hpB])
  have hS : SameBut p c.sStack c'.sStack (c'.block p).inSStack := by
    rw [hs, hflagS]
    exact SameBut.cons h.sNodup hpS
  have hQ : SameBut p c.qQueue c'.qQueue (c'.block p).inQQueue := by
    rw [hq]
    cases (c'.block p).inQQueue with
    | true => exact SameBut.append h.qNodup hpQ
    | false => exact SameBut.refl h.qNodup (by simp [hpQ])
  refine ⟨fun i q => ?_, fun i => (hB i).nodup, ?_, ?_, fun q => ?_, fun q => ?_, hS.nodup,
    hQ.nodup, ?_, hqs⟩
  · have hin := (hB i).listed (f := fun q => decide (c.bucket (c.block q).key = i))
      (g := fun q => decide (c.bucket (c'.block q).key = i)) hnew (by simpa using h.bucket i)
      (fun q hne => by rw [hother q hne]) q
    rw [hin, hheap, hbucket, decide_eq_true_iff]
  · rw [hheap]
    exact hnew.nodup
  · intro q hq r hr he
    rw [hheap] at hq hr
    have hne : ∀ x ∈ c.heap, x ≠ p := fun x hx hxp => hp (hxp ▸ hx)
    rcases List.mem_cons.mp hq with hqp | hq' <;> rcases List.mem_cons.mp hr with hrp | hr'
    · exact hqp.trans hrp.symm
    · rw [hqp, hother r (hne r hr')] at he
      exact absurd he.symm (hkey r hr')
    · rw [hrp, hother q (hne q hq')] at he
      exact absurd he (hkey q hq')
    · rw [hother r (hne r hr'), hother q (hne q hq')] at he
      exact h.keyInj q hq' r hr' he
  · rw [hheap]
    exact hS.listed (g := fun q => (c'.block q).inSStack) hnew h.sFlag
      (fun q hne => by rw [hother q hne]) q
  · rw [hheap]
    exact hQ.listed (g := fun q => (c'.block q).inQQueue) hnew h.qFlag
      (fun q hne => by rw [hother q hne]) q
  · rw [hss, hs, h.sSize]
    rfl

/-- A new block enters the cache with the lists that its type asks for. -/
theorem LirsInv.insert {c c' : LirsCache} (h : LirsInv c) (hshape : LirsShape c') (hp : p ∉ c.heap)
    (hheap : c'.heap = p :: c.heap) (hother : ∀ q, q ≠ p → c'.block q = c.block q)
    (hself : BlockOk (c'.block p))
    (hlir : c'.stats.lirCount = c.stats.lirCount + if (c'.block p).type = .lir then 1 else 0)
    (hhir : c'.stats.hirResidentCount =
      c.stats.hirResidentCount + if (c'.block p).type = .hirResident then 1 else 0) :
    LirsInv c' := by
  have hne : ∀ q ∈ c.heap, q ≠ p := fun q hq he => hp (he ▸ hq)
  have hcount : ∀ t, typeCount (p :: c.heap) c'.types t =
      typeCount c.heap c.types t + if (c'.block p).type = t then 1 else 0 := by
    intro t
    have hrest : typeCount c.heap c'.types t = typeCount c.heap c.types t :=
      List.countP_congr fun q hq => by
        rw [show c'.types q = c.types q from congrArg LirsBlock.type (hother q (hne q hq))]
    rw [← hrest]
    unfold typeCount
    rw [List.countP_cons]
    simp only [decide_eq_true_eq]
    rfl
  refine ⟨hshape, fun q hq => ?_, ?_, ?_⟩
  · rw [hheap] at hq
    rcases List.mem_cons.mp hq with rfl | hq
    · exact hself
    · rw [hother q (hne q hq)]
      exact h.blocks q hq
  · rw [hlir, hheap, hcount, h.lir]
  · rw [hhir, hheap, hcount, h.hir]

section
variable (c : LirsCache) (p key value size : ℕ)

/-- The cache with the new block in its table and on its lists. -/
def entered : LirsCache := lirsPutEntry (lirsBlockCreate c p key value size) p size

/-- S is short enough for one more LIR block. -/
def RoomForLir : Prop := c.sStackSize < subW c.capacity c.hirCapacity

instance : Decidable (RoomForLir c) := inferInstanceAs (Decidable (_ < _))

theorem entered_self : (entered c p key value size).block p =
    ⟨key, value, size, if RoomForLir c then .lir else .hirResident, c.currentTime + 1, true,
      !decide (RoomForLir c)⟩ := by
  unfold entered lirsPutEntry lirsPutType lirsBlockCreate lirsInsertHash
  by_cases h : RoomForLir c
  · have h' : c.sStackSize < subW c.capacity c.hirCapacity := h
    simp [LirsCache.addS, LirsCache.setType, LirsCache.setBlock, h, h']
  · have h' : ¬ c.sStackSize < subW c.capacity c.hirCapacity := h
    simp [LirsCache.addS, LirsCache.addQ, LirsCache.setType, LirsCache.setBlock, h, h']

theorem entered_other {q : ℕ} (hq : q ≠ p) : (entered c p key value size).block q = c.block q := by
  unfold entered lirsPutEntry lirsPutType lirsBlockCreate lirsInsertHash
  by_cases h : c.sStackSize < subW c.capacity c.hirCapacity
  · simp [LirsCache.addS, LirsCache.setType, LirsCache.setBlock, h, hq]
  · simp [LirsCache.addS, LirsCache.addQ, LirsCache.setType, LirsCache.setBlock, h, hq]

theorem entered_fields :
    SameConfig c (entered c p key value size) ∧
    (entered c p key value size).hashTableMask = c.hashTableMask ∧
    (entered c p key value size).heap = p :: c.heap ∧
    (entered c p key value size).sStack = p :: c.sStack ∧
    (entered c p key value size).sStackSize = c.sStackSize + 1 ∧
    (entered c p key value size).hashTable = Function.update c.hashTable (c.bucket key)
      (p :: c.hashTable (c.bucket key)) := by
  unfold entered lirsPutEntry lirsPutType lirsBlockCreate lirsInsertHash
  by_cases h : c.sStackSize < subW c.capacity c.hirCapacity
  · simp [LirsCache.addS, LirsCache.setType, LirsCache.setBlock, LirsCache.bucket, h]
    exact ⟨rfl, rfl⟩
  · simp [LirsCache.addS, LirsCache.addQ, LirsCache.setType, LirsCache.setBlock, LirsCache.bucket, h]
    exact ⟨rfl, rfl⟩

theorem entered_queue :
    (entered c p key value size).qQueue = (if RoomForLir c then c.qQueue else c.qQueue ++ [p]) ∧
    (entered c p key value size).qQueueSize = c.qQueueSize + (if RoomForLir c then 0 else 1) ∧
    (entered c p key value size).stats.lirCount =
      c.stats.lirCount + (if RoomForLir c then 1 else 0) ∧
    (entered c p key value size).stats.hirResidentCount =
      c.stats.hirResidentCount + (if RoomForLir c then 0 else 1) := by
  unfold entered lirsPutEntry lirsPutType lirsBlockCreate lirsInsertHash
  by_cases h : RoomForLir c
  · have h' : c.sStackSize < subW c.capacity c.hirCapacity := h
    simp [LirsCache.addS, LirsCache.setType, LirsCache.setBlock, h, h']
  · have h' : ¬ c.sStackSize < subW c.capacity c.hirCapacity := h
    simp [LirsCache.addS, LirsCache.addQ, LirsCache.setType, LirsCache.setBlock, h, h']

end

theorem LirsInv.newBlock (h : LirsInv c) (hp : p ∉ c.heap) {key : ℕ} (value size : ℕ)
    (hkey : ∀ q ∈ c.heap, (c.block q).key ≠ key) : LirsInv (entered c p key value size) := by
  obtain ⟨-, hmask, hheap, hs, hss, htable⟩ := entered_fields c p key value size
  obtain ⟨hq, hqs, hlir, hhir⟩ := entered_queue c p key value size
  have hself := entered_self c p key value size
  have hother : ∀ q, q ≠ p → (entered c p key value size).block q = c.block q :=
    fun q hne => entered_other c p key value size hne
  have hshape : LirsShape (entered c p key value size) := by
    refine h.shape.insert hp ?_ hmask hheap ?_ hother hs ?_ ?_ hss ?_
    · rw [hself]
      exact hkey
    · rw [hself]
      exact htable
    · rw [hself]
    · rw [hself, hq]
      by_cases hr : RoomForLir c <;> simp [hr]
    · rw [hqs, hq, h.shape.qSize]
      by_cases hr : RoomForLir c <;> simp [hr]
  refine h.insert hshape hp hheap hother ?_ ?_ ?_
  · rw [hself]
    by_cases hr : RoomForLir c
    · simp only [hr, if_true, decide_true, Bool.not_true]
      exact ⟨by simp, fun _ => rfl⟩
    · simp only [hr, if_false, decide_false, Bool.not_false]
      exact ⟨by simp, fun _ => rfl⟩
  · rw [hself, hlir]
    by_cases hr : RoomForLir c <;> simp [hr]
  · rw [hself, hhir]
    by_cases hr : RoomForLir c <;> simp [hr]

/-- **`lirs_put` of a new key.**  The block is LIR when S is short enough. -/
theorem LirsInv.putNew (h : LirsInv c) (hp : p ∉ c.heap) {key : ℕ} (value size : ℕ)
    (hkey : ∀ q ∈ c.heap, (c.block q).key ≠ key) :
    LirsKeeps c (lirsEvictHir (lirsPruneSStack (entered c p key value size))) ∧
      (lirsEvictHir (lirsPruneSStack (entered c p key value size))).stats.lirCount =
        c.stats.lirCount + if RoomForLir c then 1 else 0 := by
  have hcfg := (entered_fields c p key value size).1
  have hlir := (entered_queue c p key value size).2.2.1
  obtain ⟨h6, hf⟩ := (h.newBlock hp value size hkey).prune
  obtain ⟨h7, hcfg7, hlir7, hle7⟩ := h6.evict
  have hcfg' := hcfg.trans hf.config
  refine ⟨⟨h7, hcfg'.trans hcfg7, by rw [← hcfg'.hirCapacity]; exact hle7⟩, ?_⟩
  rw [hlir7, hf.stats]
  exact hlir

/-- Every LIR block is on S. -/
theorem LirsInv.lirCount_le (h : LirsInv c) : c.stats.lirCount ≤ c.sStack.length := by
  rw [h.lir]
  unfold typeCount
  rw [List.countP_eq_length_filter]
  refine ((h.shape.heapNodup.filter _).subperm fun q hq => ?_).length_le
  obtain ⟨hq, ht⟩ := List.mem_filter.mp hq
  have ht' : (c.block q).type = .lir := of_decide_eq_true ht
  exact (h.shape.sFlag q).mpr ⟨hq, (h.blocks q hq).stacked (by rw [ht']; decide)⟩

theorem LirsInv.hirResidentCount_eq (h : LirsInv c) :
    c.stats.hirResidentCount = c.qQueue.length := by
  rw [h.hir]
  unfold typeCount
  rw [List.countP_eq_length_filter]
  refine ((List.perm_ext_iff_of_nodup (h.shape.heapNodup.filter _) h.shape.qNodup).mpr
    fun q => ?_).length_eq
  rw [List.mem_filter, decide_eq_true_iff]
  constructor
  · rintro ⟨hq, ht⟩
    exact (h.inQ_iff hq).mp ht
  · intro hq
    have hheap := h.shape.mem_heap_of_q hq
    exact ⟨hheap, (h.inQ_iff hheap).mpr hq⟩

theorem LirsInv.put (h : LirsInv c) (hle : c.qQueue.length ≤ c.hirCapacity) (key value size : ℕ)
    {mem : Option ℕ} (hmem : ∀ p, mem = some p → p ∉ c.heap) :
    LirsKeeps c (lirsPut c key value size mem).1 ∧
      (lirsPut c key value size mem).1.stats.lirCount ≤
        max c.stats.lirCount (subW c.capacity c.hirCapacity) := by
  have hself : LirsKeeps c c := ⟨h, SameConfig.refl c, hle⟩
  unfold lirsPut
  by_cases hk : key = 0
  · rw [if_pos hk]
    exact ⟨hself, le_max_left _ _⟩
  rw [if_neg hk]
  rcases hf : lirsFindBlock c key with _ | p
  · dsimp only
    obtain ⟨hroom, hframe⟩ := h.makeRoom hle size
    have hle' : (lirsMakeRoom c size).qQueue.length ≤ c.hirCapacity := by
      rw [hframe.qQueue]
      exact hle
    have hkeep : LirsKeeps c (lirsMakeRoom c size) := ⟨hroom, hframe.config, hle'⟩
    have hlir : (lirsMakeRoom c size).stats.lirCount = c.stats.lirCount := by rw [hframe.stats]
    by_cases hfull : (lirsMakeRoom c size).full size = true
    · rw [if_pos hfull]
      exact ⟨hkeep, by rw [hlir]; exact le_max_left _ _⟩
    rw [if_neg hfull]
    rcases mem with _ | p
    · exact ⟨hkeep, by rw [hlir]; exact le_max_left _ _⟩
    · have hp : p ∉ (lirsMakeRoom c size).heap := fun hin =>
        hmem p rfl (hframe.old p hin).1
      have hkeys : ∀ q ∈ (lirsMakeRoom c size).heap, ((lirsMakeRoom c size).block q).key ≠ key := by
        intro q hq
        obtain ⟨hq', he⟩ := hframe.old q hq
        rw [he]
        exact h.find_none hf q hq'
      obtain ⟨hnew, hcount⟩ := hroom.putNew hp value size hkeys
      refine ⟨⟨hnew.inv, hframe.config.trans hnew.config, ?_⟩, ?_⟩
      · rw [← hframe.config.hirCapacity]
        exact hnew.queue
      · show (lirsEvictHir (lirsPruneSStack (entered _ p key value size))).stats.lirCount ≤ _
        rw [hcount]
        by_cases hr : RoomForLir (lirsMakeRoom c size)
        · rw [if_pos hr]
          have hlen := hroom.lirCount_le
          rw [← hroom.shape.sSize] at hlen
          have hr' : (lirsMakeRoom c size).sStackSize < subW (lirsMakeRoom c size).capacity
            (lirsMakeRoom c size).hirCapacity := hr
          rw [hframe.config.capacity, hframe.config.hirCapacity] at hr'
          exact le_max_of_le_right (by omega)
        · rw [if_neg hr, hlir]
          exact le_max_left _ _
  · obtain ⟨hp, -⟩ := h.find_some hf
    obtain ⟨h1, h2, h3, h4⟩ := h.putExisting hp value size
    exact ⟨⟨h1, h2, by rw [h3]; exact hle⟩, by rw [h4]; exact le_max_left _ _⟩

/-! ## `lirs_remove` -/

/-- The cache with a block taken off both lists. -/
def unlisted (c : LirsCache) (p : ℕ) : LirsCache :=
  let c := if (c.block p).inSStack then c.delS p else c
  if (c.block p).inQQueue then c.delQ p else c

theorem LirsShape.unlisted (h : LirsShape c) (hp : p ∈ c.heap) :
    LirsShape (unlisted c p) ∧ (unlisted c p).heap = c.heap ∧ (unlisted c p).types = c.types ∧
      (unlisted c p).stats = c.stats ∧ SameConfig c (unlisted c p) ∧
      (unlisted c p).qQueue.length ≤ c.qQueue.length ∧
      ((unlisted c p).block p).inSStack = false ∧ ((unlisted c p).block p).inQQueue = false ∧
      ∀ q, q ≠ p → (unlisted c p).block q = c.block q := by
  unfold Nomalloc.unlisted
  extract_lets c1
  have h1 : LirsShape c1 ∧ c1.heap = c.heap ∧ c1.types = c.types ∧ c1.stats = c.stats ∧
      SameConfig c c1 ∧ c1.qQueue = c.qQueue ∧ (c1.block p).inSStack = false ∧
      ∀ q, q ≠ p → c1.block q = c.block q := by
    by_cases hs : (c.block p).inSStack = true
    · have hc1 : c1 = c.delS p := if_pos hs
      rw [hc1]
      refine ⟨h.delS ((h.sFlag p).mpr ⟨hp, hs⟩), rfl, types_delS c p, rfl, ⟨rfl, rfl⟩, rfl, ?_, ?_⟩
      · simp [LirsCache.delS]
      · intro q hne
        simp [LirsCache.delS, hne]
    · have hc1 : c1 = c := if_neg hs
      rw [hc1]
      exact ⟨h, rfl, rfl, rfl, ⟨rfl, rfl⟩, rfl, Bool.eq_false_iff.mpr hs, fun _ _ => rfl⟩
  obtain ⟨hshape, hheap, htypes, hstats, hcfg, hqueue, hflagS, hother⟩ := h1
  by_cases hq : (c1.block p).inQQueue = true
  · rw [if_pos hq]
    have hmem : p ∈ c1.qQueue := (hshape.qFlag p).mpr ⟨by rw [hheap]; exact hp, hq⟩
    refine ⟨hshape.delQ hmem, hheap, (types_delQ c1 p).trans htypes, hstats,
      ⟨hcfg.capacity, hcfg.hirCapacity⟩, ?_, ?_, ?_, fun q hne => ?_⟩
    · rw [← hqueue]
      exact List.length_erase_le
    · simp [LirsCache.delQ, hflagS]
    · simp [LirsCache.delQ]
    · rw [← hother q hne]
      simp [LirsCache.delQ, hne]
  · rw [if_neg hq]
    exact ⟨hshape, hheap, htypes, hstats, hcfg, le_of_eq (by rw [hqueue]), hflagS,
      Bool.eq_false_iff.mpr hq, hother⟩

/-- The cache with a block taken off both lists and out of the counters. -/
def uncounted (c : LirsCache) (p : ℕ) : LirsCache :=
  { unlisted c p with stats := lirsStatsRemoved (unlisted c p).stats ((unlisted c p).block p) }

/-- The cache with a block taken out of it, before S is pruned. -/
def removed (c : LirsCache) (p : ℕ) : LirsCache :=
  lirsBlockDestroy (lirsRemoveHash (uncounted c p) p) p

theorem lirsRemoveBlock_eq (c : LirsCache) (p : ℕ) :
    lirsRemoveBlock c p = lirsPruneSStack (removed c p) := rfl

theorem LirsInv.takeOut (h : LirsInv c) (hp : p ∈ c.heap) :
    LirsInv (removed c p) ∧ (removed c p).stats.lirCount ≤ c.stats.lirCount := by
  obtain ⟨hshape, hheap, htypes, hstats, -, -, hflagS, hflagQ, hother⟩ := h.shape.unlisted hp
  have hshape' : LirsShape (uncounted c p) := hshape.congr rfl rfl rfl rfl rfl rfl rfl rfl
  have htypes' : (uncounted c p).types = c.types := htypes
  have hmem : p ∈ (uncounted c p).heap := by
    show p ∈ (unlisted c p).heap
    rw [hheap]
    exact hp
  have hlir := typeCount_erase c.types hp .lir
  have hhir := typeCount_erase c.types hp .hirResident
  have htp : ((unlisted c p).block p).type = c.types p := congrFun htypes p
  have hcounts : (uncounted c p).stats.lirCount = typeCount (c.heap.erase p) c.types .lir ∧
      (uncounted c p).stats.hirResidentCount =
        typeCount (c.heap.erase p) c.types .hirResident := by
    show (lirsStatsRemoved (unlisted c p).stats ((unlisted c p).block p)).lirCount = _ ∧
      (lirsStatsRemoved (unlisted c p).stats ((unlisted c p).block p)).hirResidentCount = _
    rw [← h.lir] at hlir
    rw [← h.hir] at hhir
    unfold lirsStatsRemoved
    rw [htp, hstats]
    rcases ht : c.types p with _ | _ | _
    all_goals
      simp only [ht, reduceCtorEq, if_true, if_false] at hlir hhir
      dsimp only
      omega
  refine ⟨⟨hshape'.destroy hmem hflagS hflagQ, fun q hq => ?_, ?_, ?_⟩, ?_⟩
  · obtain ⟨hne, hq⟩ := hshape'.heapNodup.mem_erase_iff.mp hq
    show BlockOk ((unlisted c p).block q)
    rw [hother q hne]
    exact h.blocks q (hheap ▸ hq)
  · show (uncounted c p).stats.lirCount =
      typeCount ((unlisted c p).heap.erase p) (uncounted c p).types .lir
    rw [hheap, htypes', hcounts.1]
  · show (uncounted c p).stats.hirResidentCount =
      typeCount ((unlisted c p).heap.erase p) (uncounted c p).types .hirResident
    rw [hheap, htypes', hcounts.2]
  · show (uncounted c p).stats.lirCount ≤ c.stats.lirCount
    rw [hcounts.1, h.lir, hlir]
    exact Nat.le_add_right _ _

theorem LirsInv.removeBlock (h : LirsInv c) (hle : c.qQueue.length ≤ c.hirCapacity)
    (hp : p ∈ c.heap) :
    LirsKeeps c (lirsRemoveBlock c p) ∧
      (lirsRemoveBlock c p).stats.lirCount ≤ c.stats.lirCount := by
  obtain ⟨-, -, -, -, hcfg, hqueue, -⟩ := h.shape.unlisted hp
  obtain ⟨hinv, hlir⟩ := h.takeOut hp
  obtain ⟨h1, hf⟩ := hinv.prune
  rw [lirsRemoveBlock_eq]
  refine ⟨⟨h1, ?_, ?_⟩, ?_⟩
  · exact ⟨hf.config.capacity.trans hcfg.capacity, hf.config.hirCapacity.trans hcfg.hirCapacity⟩
  · rw [hf.qQueue]
    exact hqueue.trans hle
  · rw [hf.stats]
    exact hlir

theorem LirsInv.remove (h : LirsInv c) (hle : c.qQueue.length ≤ c.hirCapacity) (key : ℕ) :
    LirsKeeps c (lirsRemove c key).1 ∧ (lirsRemove c key).1.stats.lirCount ≤ c.stats.lirCount := by
  have hself : LirsKeeps c c := ⟨h, SameConfig.refl c, hle⟩
  unfold lirsRemove
  by_cases hk : key = 0
  · rw [if_pos hk]
    exact ⟨hself, le_refl _⟩
  rw [if_neg hk]
  rcases hf : lirsFindBlock c key with _ | p
  · exact ⟨hself, le_refl _⟩
  · exact h.removeBlock hle (h.find_some hf).1

end

/-! ## whole runs -/

inductive LirsOp where
  | get (key : ℕ)
  | put (key value size : ℕ) (mem : Option ℕ)
  | remove (key : ℕ)

def LirsCache.step (c : LirsCache) : LirsOp → LirsCache
  | .get key => (lirsGet c key).1
  | .put key value size mem => (lirsPut c key value size mem).1
  | .remove key => (lirsRemove c key).1

/-- `malloc` answers with memory that is not in use. -/
def LirsOp.FreshMemory (c : LirsCache) : LirsOp → Prop
  | .put _ _ _ mem => ∀ p, mem = some p → p ∉ c.heap
  | _ => True

/-- The structure of the cache: table, flags, lists and types agree. -/
structure LirsCache.WellFormed (c : LirsCache) : Prop where
  /-- no two nodes of the hash table have one key, and no block is linked twice -/
  keys : ∀ i j, ∀ p ∈ c.hashTable i, ∀ q ∈ c.hashTable j,
    (c.block p).key = (c.block q).key → i = j ∧ p = q
  linkedOnce : ∀ i, (c.hashTable i).Nodup
  inTable : ∀ p, p ∈ c.sStack ∨ p ∈ c.qQueue → p ∈ c.hashTable (c.bucket (c.block p).key)
  flagS : ∀ i, ∀ p ∈ c.hashTable i, (c.block p).inSStack = true ↔ p ∈ c.sStack
  flagQ : ∀ i, ∀ p ∈ c.hashTable i, (c.block p).inQQueue = true ↔ p ∈ c.qQueue
  onceS : c.sStack.Nodup
  onceQ : c.qQueue.Nodup
  sizeS : c.sStackSize = c.sStack.length
  sizeQ : c.qQueueSize = c.qQueue.length
  resident : ∀ i, ∀ p ∈ c.hashTable i, (c.block p).type = .hirResident ↔ p ∈ c.qQueue
  stacked : ∀ i, ∀ p ∈ c.hashTable i,
    (c.block p).type = .lir ∨ (c.block p).type = .hirNonResident → p ∈ c.sStack
  queue : c.qQueueSize ≤ c.hirCapacity

theorem LirsInv.wellFormed {c : LirsCache} (h : LirsInv c)
    (hle : c.qQueue.length ≤ c.hirCapacity) : c.WellFormed := by
  have hheap : ∀ {i p}, p ∈ c.hashTable i → p ∈ c.heap := fun hp => ((h.shape.bucket _ _).mp hp).1
  refine ⟨?_, h.shape.bucketNodup, ?_, ?_, ?_, h.shape.sNodup, h.shape.qNodup, h.shape.sSize,
    h.shape.qSize, fun i p hp => h.inQ_iff (hheap hp), ?_, h.shape.qSize ▸ hle⟩
  · intro i j p hp q hq he
    obtain ⟨hp', hi⟩ := (h.shape.bucket i p).mp hp
    obtain ⟨hq', hj⟩ := (h.shape.bucket j q).mp hq
    exact ⟨hi.symm.trans ((congrArg c.bucket he).trans hj), h.shape.keyInj p hp' q hq' he⟩
  · rintro p (hp | hp)
    · exact (h.shape.bucket _ p).mpr ⟨h.shape.mem_heap_of_s hp, rfl⟩
    · exact (h.shape.bucket _ p).mpr ⟨h.shape.mem_heap_of_q hp, rfl⟩
  · intro i p hp
    rw [h.shape.sFlag]
    exact ⟨fun hf => ⟨hheap hp, hf⟩, fun hf => hf.2⟩
  · intro i p hp
    rw [h.shape.qFlag]
    exact ⟨fun hf => ⟨hheap hp, hf⟩, fun hf => hf.2⟩
  · intro i p hp ht
    refine (h.shape.sFlag p).mpr ⟨hheap hp, (h.blocks p (hheap hp)).stacked ?_⟩
    rcases ht with ht | ht <;> rw [ht] <;> decide

/-- The empty cache. -/
theorem lirsCreate_inv {capacity maxSize : ℕ} {cacheOk tableOk : Bool} {c : LirsCache}
    (hc : lirsCreate capacity maxSize cacheOk tableOk = some c) :
    LirsInv c ∧ c.qQueue.length ≤ c.hirCapacity ∧ c.capacity = capacity ∧
      c.hirCapacity = max (hirShare capacity) LIRS_MIN_HIR_BLOCKS ∧ c.stats.lirCount = 0 := by
  unfold lirsCreate at hc
  rcases cacheOk with _ | _
  · exact absurd hc (by simp)
  cases hsize : hashSizeLoop 65 1 (capacity * 2 % wordSize) with
  | none =>
    rw [hsize] at hc
    exact absurd hc (by simp)
  | some hashSize =>
    rw [hsize] at hc
    rcases tableOk with _ | _
    · exact absurd hc (by simp)
    cases hc
    refine ⟨⟨⟨?_, ?_, ?_, ?_, ?_, ?_, ?_, ?_, rfl, rfl⟩, ?_, rfl, rfl⟩, Nat.zero_le _, rfl, rfl, rfl⟩
    all_goals simp

theorem lirs_inv_step (c : LirsCache) (op : LirsOp)
    (h : LirsInv c ∧ c.qQueue.length ≤ c.hirCapacity) (hfresh : op.FreshMemory c) :
    LirsInv (c.step op) ∧ (c.step op).qQueue.length ≤ (c.step op).hirCapacity := by
  have hof : ∀ {c'}, LirsKeeps c c' → LirsInv c' ∧ c'.qQueue.length ≤ c'.hirCapacity := fun hk =>
    ⟨hk.inv, by rw [hk.config.hirCapacity]; exact hk.queue⟩
  cases op with
  | get key => exact hof (h.1.get h.2 key)
  | put key value size mem => exact hof (h.1.put h.2 key value size hfresh).1
  | remove key => exact hof (h.1.remove h.2 key).1

/-- **The cache stays well formed**, in every state reached from `lirs_create`. -/
theorem lirs_invariant {capacity maxSize : ℕ} {cacheOk tableOk : Bool} {c : LirsCache}
    (hc : lirsCreate capacity maxSize cacheOk tableOk = some c) (ops : List LirsOp)
    (hfresh : Runs.Each LirsCache.step LirsOp.FreshMemory c ops) :
    Runs.Always LirsCache.step LirsCache.WellFormed c ops := by
  obtain ⟨h1, h2, -⟩ := lirsCreate_inv hc
  exact (Runs.inv_always lirs_inv_step ⟨h1, h2⟩ hfresh).mono fun c h => h.1.wellFormed h.2

/-- A run that inserts, finds and removes. -/
theorem lirs_invariant_run :
    Runs.Always LirsCache.step LirsCache.WellFormed ((lirsCreate 3 1000 true true).get rfl)
      [.put 16 1 10 (some 100), .put 32 2 10 (some 200), .get 16, .remove 32] := by
  refine lirs_invariant (Option.some_get _).symm _ ⟨?_, ?_, trivial, trivial, trivial⟩
  · intro p hp
    cases hp
    decide
  · intro p hp
    cases hp
    decide

end Nomalloc
