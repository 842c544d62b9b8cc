import Nomalloc.Cache.LirsInvariant
import Mathlib.Algebra.BigOperators.Group.List.Basic
import Mathlib.Data.Nat.ModEq

/-!
# What the LIRS cache does to its blocks

`Upkeep c c'` is what the cache may do to its blocks of its own accord: it changes no key, value or
size, never makes a block resident again, frees blocks with one callback for each, and takes from
`total_size` what leaves the resident blocks.

* `LirsInv.upkeep_prune`, `LirsInv.evictFrame`, `LirsInv.get_spec`   pruning, eviction and `lirs_get`
                                                                    are upkeep
* `LirsInv.put_effect`, `LirsInv.remove_effect`   all that the two writers can do
* `LirsInv.find_iff`                              `lirs_find_block` in terms of the live blocks
-/

namespace Nomalloc

/-! ## blocks as entries -/

/-- What a block holds: its key, value and size. -/
def LirsBlock.entry (b : LirsBlock) : ℕ × ℕ × ℕ := (b.key, b.value, b.size)

/-- The size that counts: a block that is not resident holds no space. -/
def LirsBlock.held (b : LirsBlock) : ℕ := if b.type = .hirNonResident then 0 else b.size

/-- The sum of the sizes of the resident blocks. -/
def residentSize (c : LirsCache) : ℕ := (c.heap.map fun p => (c.block p).held).sum

/-- The calls made when a block with this entry is destroyed or overwritten. -/
def lirsCalls (callback : Bool) (entry : ℕ × ℕ × ℕ) : List (ℕ × ℕ × ℕ) :=
  if callback && entry.2.1 != 0 then [entry] else []

theorem entry_eq_iff {b b' : LirsBlock} :
    b'.entry = b.entry ↔ b'.key = b.key ∧ b'.value = b.value ∧ b'.size = b.size := by
  simp [LirsBlock.entry]

theorem lirsCalls_append (callback : Bool) (b : LirsBlock) (calls : List (ℕ × ℕ × ℕ)) :
    (if callback && b.value != 0 then calls ++ [b.entry] else calls) =
      calls ++ lirsCalls callback b.entry := by
  unfold lirsCalls LirsBlock.entry
  split_ifs
  · rfl
  · exact (List.append_nil _).symm

theorem held_congr {b b' : LirsBlock} (he : b'.entry = b.entry)
    (ht : b'.type = .hirNonResident ↔ b.type = .hirNonResident) : b'.held = b.held := by
  unfold LirsBlock.held
  rw [(entry_eq_iff.mp he).2.2]
  simp only [ht]

section
variable {heap : List ℕ} {block block' : ℕ → LirsBlock} {p : ℕ}

theorem heldSum_erase (block : ℕ → LirsBlock) (hp : p ∈ heap) :
    (heap.map fun q => (block q).held).sum =
      ((heap.erase p).map fun q => (block q).held).sum + (block p).held := by
  rw [Nat.add_comm, List.sum_map_erase (fun q => (block q).held) hp]

theorem heldSum_congr (h : ∀ q ∈ heap, (block' q).held = (block q).held) :
    (heap.map fun q => (block' q).held).sum = (heap.map fun q => (block q).held).sum := by
  rw [List.map_congr_left h]

theorem heldSum_update (hnd : heap.Nodup) (hp : p ∈ heap)
    (hother : ∀ q, q ≠ p → block' q = block q) :
    (heap.map fun q => (block' q).held).sum + (block p).held =
      (heap.map fun q => (block q).held).sum + (block' p).held := by
  have hrest : ((heap.erase p).map fun q => (block' q).held).sum =
      ((heap.erase p).map fun q => (block q).held).sum :=
    heldSum_congr fun q hq => by rw [hother q (hnd.mem_erase_iff.mp hq).1]
  rw [heldSum_erase block' hp, heldSum_erase block hp, hrest]
  omega

end

/-! ## upkeep -/

/-- The sizes are `size_t` values. -/
def LirsCache.WordSizes (c : LirsCache) : Prop := ∀ p ∈ c.heap, (c.block p).size < wordSize

/-- What the cache does of its own accord. -/
structure Upkeep (c c' : LirsCache) : Prop where
  maxSize : c'.maxSize = c.maxSize
  callback : c'.evictCallback = c.evictCallback
  entry : ∀ q, (c'.block q).entry = (c.block q).entry
  ghost : ∀ q, (c.block q).type = .hirNonResident → (c'.block q).type = .hirNonResident
  freed : ∃ gone : List ℕ, (gone ++ c'.heap).Perm c.heap ∧
    c'.evicted = c.evicted ++ gone.flatMap fun q => lirsCalls c.evictCallback (c.block q).entry
  total : c.WordSizes →
    c'.stats.totalSize + residentSize c ≡ c.stats.totalSize + residentSize c' [MOD wordSize]
  word : c.stats.totalSize < wordSize → c'.stats.totalSize < wordSize
  shrinks : residentSize c' ≤ residentSize c

namespace Upkeep

variable {c c' c'' : LirsCache} {p : ℕ}

theorem refl (c : LirsCache) : Upkeep c c :=
  ⟨rfl, rfl, fun _ => rfl, fun _ h => h, ⟨[], List.Perm.refl _, (List.append_nil _).symm⟩,
    fun _ => rfl, id, le_refl _⟩

theorem mem_heap (h : Upkeep c c') {q : ℕ} (hq : q ∈ c'.heap) : q ∈ c.heap := by
  obtain ⟨gone, hperm, -⟩ := h.freed
  exact hperm.mem_iff.mp (List.mem_append_right _ hq)

theorem key (h : Upkeep c c') (q : ℕ) : (c'.block q).key = (c.block q).key :=
  (entry_eq_iff.mp (h.entry q)).1

theorem value (h : Upkeep c c') (q : ℕ) : (c'.block q).value = (c.block q).value :=
  (entry_eq_iff.mp (h.entry q)).2.1

theorem blockSize (h : Upkeep c c') (q : ℕ) : (c'.block q).size = (c.block q).size :=
  (entry_eq_iff.mp (h.entry q)).2.2

theorem wordSizes (h : Upkeep c c') (hw : c.WordSizes) : c'.WordSizes := fun q hq => by
  rw [h.blockSize q]
  exact hw q (h.mem_heap hq)

theorem trans (h : Upkeep c c') (h' : Upkeep c' c'') : Upkeep c c'' := by
  refine ⟨h'.maxSize.trans h.maxSize, h'.callback.trans h.callback,
    fun q => (h'.entry q).trans (h.entry q), fun q hq => h'.ghost q (h.ghost q hq), ?_, ?_,
    fun hw => h'.word (h.word hw), h'.shrinks.trans h.shrinks⟩
  · obtain ⟨gone, hperm, hcalls⟩ := h.freed
    obtain ⟨gone', hperm', hcalls'⟩ := h'.freed
    refine ⟨gone ++ gone', ?_, ?_⟩
    · rw [List.append_assoc]
      exact (hperm'.append_left gone).trans hperm
    · rw [hcalls', hcalls, h.callback, List.flatMap_append, List.append_assoc]
      simp only [h.entry]
  · intro hw
    have hsum := (h.total hw).add (h'.total (h.wordSizes hw))
    have e1 : c'.stats.totalSize + residentSize c + (c''.stats.totalSize + residentSize c') =
        c''.stats.totalSize + residentSize c + (c'.stats.totalSize + residentSize c') := by omega
    have e2 : c.stats.totalSize + residentSize c' + (c'.stats.totalSize + residentSize c'') =
        c.stats.totalSize + residentSize c'' + (c'.stats.totalSize + residentSize c') := by omega
    rw [e1, e2] at hsum
    exact Nat.ModEq.add_right_cancel' _ hsum

/-- A step that frees nothing, and neither counts nor makes a ghost. -/
theorem quiet (hmax : c'.maxSize = c.maxSize) (hcb : c'.evictCallback = c.evictCallback)
    (hheap : c'.heap = c.heap) (hcalls : c'.evicted = c.evicted)
    (htotal : c'.stats.totalSize = c.stats.totalSize)
    (hblock : ∀ q, (c'.block q).entry = (c.block q).entry ∧
      ((c'.block q).type = .hirNonResident ↔ (c.block q).type = .hirNonResident)) :
    Upkeep c c' := by
  have hsum : residentSize c' = residentSize c := by
    unfold residentSize
    rw [hheap]
    exact heldSum_congr fun q _ => held_congr (hblock q).1 (hblock q).2
  refine ⟨hmax, hcb, fun q => (hblock q).1, fun q hq => (hblock q).2.mpr hq, ⟨[], ?_, ?_⟩, ?_, ?_,
    le_of_eq hsum⟩
  · rw [hheap]
    exact List.Perm.refl _
  · rw [hcalls]
    exact (List.append_nil _).symm
  · intro _
    rw [htotal, hsum]
  · rw [htotal]
    exact id

/-- One block is stored to, its entry apart. -/
theorem store (hmax : c'.maxSize = c.maxSize) (hcb : c'.evictCallback = c.evictCallback)
    (hheap : c'.heap = c.heap) (hcalls : c'.evicted = c.evicted)
    (htotal : c'.stats.totalSize = c.stats.totalSize) {b : LirsBlock}
    (hblock : c'.block = Function.update c.block p b) (hentry : b.entry = (c.block p).entry)
    (htype : b.type = .hirNonResident ↔ (c.block p).type = .hirNonResident) : Upkeep c c' := by
  refine quiet hmax hcb hheap hcalls htotal fun q => ?_
  rw [hblock]
  by_cases he : q = p
  · rw [he, Function.update_self]
    exact ⟨hentry, htype⟩
  · rw [Function.update_of_ne he]
    exact ⟨rfl, Iff.rfl⟩

theorem delS (c : LirsCache) (p : ℕ) : Upkeep c (c.delS p) :=
  store rfl rfl rfl rfl rfl rfl rfl Iff.rfl

theorem addS (c : LirsCache) (p : ℕ) : Upkeep c (c.addS p) :=
  store rfl rfl rfl rfl rfl rfl rfl Iff.rfl

theorem moveS (c : LirsCache) (p : ℕ) : Upkeep c (c.moveS p) :=
  quiet rfl rfl rfl rfl rfl fun _ => ⟨rfl, Iff.rfl⟩

theorem delQ (c : LirsCache) (p : ℕ) : Upkeep c (c.delQ p) :=
  store rfl rfl rfl rfl rfl rfl rfl Iff.rfl

theorem addQ (c : LirsCache) (p : ℕ) : Upkeep c (c.addQ p) :=
  store rfl rfl rfl rfl rfl rfl rfl Iff.rfl

theorem setType {t : LirsBlockType} (ht : t ≠ .hirNonResident)
    (hp : (c.block p).type ≠ .hirNonResident) : Upkeep c (c.setType p t) :=
  store rfl rfl rfl rfl rfl rfl rfl ⟨fun he => absurd he ht, fun he => absurd he hp⟩

theorem withStats (c : LirsCache) {stats : LirsStats}
    (htotal : stats.totalSize = c.stats.totalSize) : Upkeep c { c with stats := stats } :=
  quiet rfl rfl rfl rfl htotal fun _ => ⟨rfl, Iff.rfl⟩

theorem destroy (hp : p ∈ c.heap) (ht : (c.block p).type = .hirNonResident) :
    Upkeep c (lirsBlockDestroy (lirsRemoveHash c p) p) := by
  have hheld : (c.block p).held = 0 := if_pos ht
  have hsum : residentSize (lirsBlockDestroy (lirsRemoveHash c p) p) = residentSize c := by
    have h := heldSum_erase c.block hp
    rw [hheld, Nat.add_zero] at h
    exact h.symm
  refine ⟨rfl, rfl, fun _ => rfl, fun _ h => h, ⟨[p], ?_, ?_⟩, ?_, id, le_of_eq hsum⟩
  · exact (List.perm_cons_erase hp).symm
  · rw [List.flatMap_singleton]
    exact lirsCalls_append c.evictCallback (c.block p) c.evicted
  · intro _
    rw [hsum]
    rfl

/-- A resident block becomes a ghost, and its size is taken from the total. -/
theorem drop (hnd : c.heap.Nodup) (hp : p ∈ c.heap) (hres : (c.block p).type ≠ .hirNonResident)
    {b : LirsBlock} (hmax : c'.maxSize = c.maxSize) (hcb : c'.evictCallback = c.evictCallback)
    (hheap : c'.heap = c.heap) (hcalls : c'.evicted = c.evicted)
    (htotal : c'.stats.totalSize = subW c.stats.totalSize (c.block p).size)
    (hblock : c'.block = Function.update c.block p b) (hentry : b.entry = (c.block p).entry)
    (htype : b.type = .hirNonResident) : Upkeep c c' := by
  have hself : c'.block p = b := by rw [hblock, Function.update_self]
  have hother : ∀ q, q ≠ p → c'.block q = c.block q := fun q hq => by
    rw [hblock, Function.update_of_ne hq]
  have hsum : residentSize c' + (c.block p).size = residentSize c := by
    have h := heldSum_update hnd hp hother
    have h1 : (c.block p).held = (c.block p).size := if_neg hres
    have h2 : (c'.block p).held = 0 := if_pos (by rw [hself]; exact htype)
    rw [h1, h2, Nat.add_zero] at h
    unfold residentSize
    rw [hheap]
    exact h
  refine ⟨hmax, hcb, fun q => ?_, fun q hq => ?_, ⟨[], ?_, ?_⟩, ?_, ?_, ?_⟩
  · by_cases he : q = p
    · rw [he, hself, hentry]
    · rw [hother q he]
  · by_cases he : q = p
    · rw [he, hself, htype]
    · rw [hother q he]
      exact hq
  · rw [hheap]
    exact List.Perm.refl _
  · rw [hcalls]
    exact (List.append_nil _).symm
  · intro hw
    have hsize := hw p hp
    rw [htotal, ← hsum]
    unfold subW Nat.ModEq
    rw [Nat.mod_add_mod]
    have he : c.stats.totalSize + (wordSize - (c.block p).size) +
        (residentSize c' + (c.block p).size) =
          c.stats.totalSize + residentSize c' + wordSize := by omega
    rw [he, Nat.add_mod_right]
  · intro _
    rw [htotal]
    exact subW_lt _ _
  · omega

end Upkeep

/-! ## pruning and eviction -/

section
variable {c : LirsCache} {p : ℕ}

theorem LirsInv.upkeep_pruneBottom (h : LirsInv c) (hl : c.sStack.getLast? = some p) :
    Upkeep c (lirsPruneBottom c p) := by
  have hdel := Upkeep.delS c p
  unfold lirsPruneBottom
  extract_lets c1
  by_cases ht : (c1.block p).type = .hirNonResident
  · rw [if_pos ht]
    have hheap : p ∈ c1.heap := h.shape.mem_heap_of_s (List.mem_of_getLast? hl)
    exact hdel.trans (Upkeep.destroy hheap ht)
  · rw [if_neg ht]
    exact hdel

theorem LirsInv.upkeep_pruneLoop (h : LirsInv c) (n : ℕ) : Upkeep c (lirsPruneLoop n c) := by
  induction n generalizing c with
  | zero => exact Upkeep.refl c
  | succ n ih =>
    unfold lirsPruneLoop
    cases hl : c.sStack.getLast? with
    | none => exact Upkeep.refl c
    | some p =>
      have hflag := ((h.shape.sFlag p).mp (List.mem_of_getLast? hl)).2
      by_cases ht : (c.block p).type = .lir
      · simp only [ht, hflag, and_self, if_true]
        exact Upkeep.refl c
      · simp only [ht, false_and, if_false]
        exact (h.upkeep_pruneBottom hl).trans (ih (h.pruneBottom hl ht).1)

theorem LirsInv.upkeep_prune (h : LirsInv c) : Upkeep c (lirsPruneSStack c) :=
  h.upkeep_pruneLoop _

theorem LirsInv.upkeep_evictHead (h : LirsInv c) (hp : p ∈ c.qQueue) :
    Upkeep c (lirsEvictHead c p) := by
  have hheap := h.shape.mem_heap_of_q hp
  have ht := (h.inQ_iff hheap).mpr hp
  have hdel : ((c.delQ p).block p) = { c.block p with inQQueue := false } :=
    Function.update_self ..
  have hblock : ((c.delQ p).setType p .hirNonResident).block =
      Function.update c.block p { c.block p with inQQueue := false, type := .hirNonResident } := by
    show Function.update (c.delQ p).block p _ = _
    rw [hdel]
    exact Function.update_idem ..
  have hsize : (((c.delQ p).setType p .hirNonResident).block p).size = (c.block p).size := by
    rw [hblock, Function.update_self]
  unfold lirsEvictHead
  extract_lets c1 stats c2
  have hdrop : Upkeep c c2 := by
    refine Upkeep.drop h.shape.heapNodup hheap (by rw [ht]; decide) rfl rfl rfl rfl ?_ hblock rfl rfl
    show subW c.stats.totalSize (c1.block p).size = _
    rw [hsize]
  by_cases hs : (!(c2.block p).inSStack) = true
  · rw [if_pos hs]
    have hmem : p ∈ c2.heap := hheap
    have hghost : (c2.block p).type = .hirNonResident := by
      show (c1.block p).type = _
      rw [hblock, Function.update_self]
    exact hdrop.trans (Upkeep.destroy hmem hghost)
  · rw [if_neg hs]
    exact hdrop

/-- Evicting one block leaves the others. -/
theorem lirsEvictHead_other {q : ℕ} (hq : q ≠ p) :
    (lirsEvictHead c p).block q = c.block q ∧ (q ∈ c.heap → q ∈ (lirsEvictHead c p).heap) := by
  have hblock : ((c.delQ p).setType p .hirNonResident).block q = c.block q := by
    simp [LirsCache.setType, LirsCache.setBlock, LirsCache.delQ, hq]
  unfold lirsEvictHead
  extract_lets c1 stats c2
  split_ifs
  · exact ⟨hblock, fun hmem => (List.mem_erase_of_ne hq).mpr hmem⟩
  · exact ⟨hblock, fun hmem => hmem⟩

/-- What eviction leaves alone. -/
structure EvictFrame (c c' : LirsCache) : Prop where
  upkeep : Upkeep c c'
  lir : ∀ q ∈ c.heap, (c.block q).type = .lir → q ∈ c'.heap ∧ (c'.block q).type = .lir
  queue : c'.qQueue = c.qQueue.drop (c.qQueue.length - c.hirCapacity)

theorem EvictFrame.self (hle : c.qQueue.length ≤ c.hirCapacity) : EvictFrame c c := by
  refine ⟨Upkeep.refl c, fun q hq ht => ⟨hq, ht⟩, ?_⟩
  rw [Nat.sub_eq_zero_of_le hle]
  rfl

theorem LirsInv.evictFrame_loop (h : LirsInv c) {n : ℕ} (hn : c.qQueue.length ≤ n) :
    EvictFrame c (lirsEvictLoop n c) := by
  induction n generalizing c with
  | zero => exact EvictFrame.self (by omega)
  | succ n ih =>
    unfold lirsEvictLoop
    cases hq : c.qQueue with
    | nil =>
      rw [List.head?_nil]
      exact EvictFrame.self (by rw [hq]; exact Nat.zero_le _)
    | cons p rest =>
      simp only [List.head?_cons]
      have hsize := h.shape.qSize
      by_cases hover : c.hirCapacity < c.qQueueSize
      · rw [if_pos hover]
        have hp : p ∈ c.qQueue := by
          rw [hq]
          exact List.mem_cons_self
        obtain ⟨hinv, hrest, -, hcfg⟩ := h.evictHead hq
        have hlen : (lirsEvictHead c p).qQueue.length ≤ n := by
          rw [hrest]
          rw [hq, List.length_cons] at hn
          omega
        have hframe := ih hinv hlen
        refine ⟨(h.upkeep_evictHead hp).trans hframe.upkeep, fun q hmem ht => ?_, ?_⟩
        · have hne : q ≠ p := by
            rintro rfl
            rw [(h.inQ_iff hmem).mpr hp] at ht
            exact absurd ht (by decide)
          obtain ⟨hblock, hkeep⟩ := lirsEvictHead_other (c := c) hne
          exact hframe.lir q (hkeep hmem) (by rw [hblock]; exact ht)
        · rw [hframe.queue, hrest, hcfg.hirCapacity, hq]
          rw [hsize, hq, List.length_cons] at hover
          rw [List.length_cons, show rest.length + 1 - c.hirCapacity =
            rest.length - c.hirCapacity + 1 by omega, List.drop_succ_cons]
      · rw [if_neg hover]
        exact EvictFrame.self (by omega)

theorem LirsInv.evictFrame (h : LirsInv c) : EvictFrame c (lirsEvictHir c) :=
  h.evictFrame_loop (le_refl _)

/-! ## promotion and `lirs_get` -/

theorem upkeep_promoteBlock (ht : (c.block p).type = .hirResident) :
    Upkeep c (lirsPromoteBlock c p) := by
  have hset : Upkeep c (c.setType p .lir) :=
    Upkeep.setType (by decide) (by rw [ht]; decide)
  unfold lirsPromoteBlock
  extract_lets c1 stats c2
  have h2 : Upkeep c c2 := hset.trans (Upkeep.withStats c1 rfl)
  split_ifs
  · exact h2.trans (Upkeep.delQ c2 p)
  · exact h2

theorem upkeep_demoteBottom (c : LirsCache) : Upkeep c (lirsDemoteBottom c) := by
  unfold lirsDemoteBottom
  cases c.sStack.getLast? with
  | none => exact Upkeep.refl c
  | some q =>
    dsimp only
    by_cases ht : (c.block q).type = .lir
    · rw [if_pos ht]
      have hset : Upkeep c (c.setType q .hirResident) :=
        Upkeep.setType (by decide) (by rw [ht]; decide)
      refine Upkeep.trans ?_ (Upkeep.delS _ q)
      unfold lirsDemoteLir
      extract_lets c1 stats c2
      have h2 : Upkeep c c2 := hset.trans (Upkeep.withStats c1 rfl)
      split_ifs
      · exact h2.trans (Upkeep.addQ c2 q)
      · exact h2
    · rw [if_neg ht]
      exact Upkeep.refl c

theorem LirsInv.upkeep_promote (h : LirsInv c) (hs : p ∈ c.sStack)
    (ht : (c.block p).type = .hirResident) : Upkeep c (lirsPromoteHir c p) := by
  have hA := (h.promoteBlock hs ht).1
  have hB := hA.demoteBottom.1
  have hC := hB.prune.1
  exact (((upkeep_promoteBlock ht).trans (upkeep_demoteBottom _)).trans
    hB.upkeep_prune).trans hC.evictFrame.upkeep

theorem upkeep_toTop (c : LirsCache) (p : ℕ) :
    Upkeep c (if (c.block p).inSStack then c.moveS p else c.addS p) := by
  split_ifs
  · exact Upkeep.moveS c p
  · exact Upkeep.addS c p

theorem LirsInv.upkeep_getLir (h : LirsInv c) (hp : p ∈ c.heap) :
    Upkeep c (lirsGetLir c p) := by
  unfold lirsGetLir
  extract_lets stats c1
  have h1 : LirsInv c1 := h.withStats rfl rfl
  have hstats : Upkeep c c1 := Upkeep.withStats c rfl
  exact (hstats.trans (upkeep_toTop c1 p)).trans (h1.toTop hp).upkeep_prune

theorem LirsInv.upkeep_getHirResident (h : LirsInv c) (hle : c.qQueue.length ≤ c.hirCapacity)
    (hp : p ∈ c.heap) (ht : (c.block p).type = .hirResident) :
    Upkeep c (lirsGetHirResident c p) := by
  unfold lirsGetHirResident
  extract_lets stats c1 c2 c3
  have h1 : LirsInv c1 := h.withStats rfl rfl
  have hstats : Upkeep c c1 := Upkeep.withStats c rfl
  have h2 : LirsInv c2 ∧ p ∈ c2.heap ∧ Upkeep c1 c2 := by
    by_cases hs : (c1.block p).inSStack = true
    · have hc2 : c2 = lirsPromoteHir c1 p := if_pos hs
      have hs1 : p ∈ c1.sStack := (h1.shape.sFlag p).mpr ⟨hp, hs⟩
      obtain ⟨hk, hmem, -⟩ := h1.promote hle hs1 ht
      rw [hc2]
      exact ⟨hk.inv, hmem, h1.upkeep_promote hs1 ht⟩
    · have hc2 : c2 = c1 := if_neg hs
      rw [hc2]
      exact ⟨h1, hp, Upkeep.refl c1⟩
  obtain ⟨hinv2, hp2, hup2⟩ := h2
  have hinv3 : LirsInv c3 := hinv2.toTop hp2
  have hp3 : p ∈ c3.heap := by
    show p ∈ (if (c2.block p).inSStack then c2.moveS p else c2.addS p).heap
    split_ifs
    · exact hp2
    · exact hp2
  rw [if_neg (hinv3.not_unqueued hp3)]
  exact ((hstats.trans hup2).trans (upkeep_toTop c2 p)).trans hinv3.evictFrame.upkeep

theorem LirsInv.upkeep_getHirNonResident (h : LirsInv c) (hp : p ∈ c.heap)
    (ht : (c.block p).type = .hirNonResident) : Upkeep c (lirsGetHirNonResident c p) := by
  unfold lirsGetHirNonResident
  extract_lets stats c1
  have h1 : LirsInv c1 := h.withStats rfl rfl
  have hstats : Upkeep c c1 := Upkeep.withStats c rfl
  have hcomm : (lirsRemoveHash c1 p).delS p = lirsRemoveHash (c1.delS p) p := rfl
  by_cases hs : (c1.block p).inSStack = true
  · have hs1 : p ∈ c1.sStack := (h1.shape.sFlag p).mpr ⟨hp, hs⟩
    have hdel := Upkeep.delS c1 p
    have hmem : p ∈ (c1.delS p).heap := hp
    rw [if_pos hs, hcomm]
    exact ((hstats.trans hdel).trans (Upkeep.destroy hmem (hdel.ghost p ht))).trans
      (h1.destroy hs1 ht).upkeep_prune
  · rw [if_neg hs]
    exact hstats

/-- **`lirs_get` is upkeep**, and it returns the value of a resident block and NULL otherwise. -/
theorem LirsInv.get_spec (h : LirsInv c) (hle : c.qQueue.length ≤ c.hirCapacity) (key : ℕ) :
    Upkeep c (lirsGet c key).1 ∧
      (lirsGet c key).2 =
        if key = 0 then 0
        else
          match lirsFindBlock c key with
          | none => 0
          | some p => if (c.block p).type = .hirNonResident then 0 else (c.block p).value := by
  by_cases hk : key = 0
  · unfold lirsGet
    rw [if_pos hk, if_pos hk]
    exact ⟨Upkeep.refl c, rfl⟩
  rw [if_neg hk]
  rcases hf : lirsFindBlock c key with _ | p
  · unfold lirsGet
    rw [if_neg hk, hf]
    exact ⟨Upkeep.withStats c rfl, rfl⟩
  obtain ⟨hp, -⟩ := h.find_some hf
  have h1 := h.touch hp
  have hup : Upkeep c (touched c p) := Upkeep.store rfl rfl rfl rfl rfl rfl rfl Iff.rfl
  have htp : ((touched c p).block p).type = (c.block p).type := congrFun (types_touched c p) p
  rw [lirsGet_found hk hf]
  rcases ht : (c.block p).type with _ | _ | _
  · have h2 := hup.trans (h1.upkeep_getLir (p := p) hp)
    refine ⟨h2, ?_⟩
    dsimp only
    rw [if_neg (by rw [ht]; decide)]
    exact h2.value p
  · have h2 := hup.trans (h1.upkeep_getHirResident hle hp (htp.trans ht))
    refine ⟨h2, ?_⟩
    dsimp only
    rw [if_neg (by rw [ht]; decide)]
    exact h2.value p
  · refine ⟨hup.trans (h1.upkeep_getHirNonResident hp (htp.trans ht)), ?_⟩
    dsimp only
    rw [if_pos ht]

/-- **`lirs_find_block`** returns the live block of the key. -/
theorem LirsInv.find_iff (h : LirsInv c) {key : ℕ} :
    lirsFindBlock c key = some p ↔ p ∈ c.heap ∧ (c.block p).key = key := by
  refine ⟨h.find_some, fun ⟨hp, hkey⟩ => ?_⟩
  cases hf : lirsFindBlock c key with
  | none => exact absurd hkey (h.find_none hf p hp)
  | some q =>
    obtain ⟨hq, hkeyq⟩ := h.find_some hf
    rw [h.shape.keyInj q hq p hp (hkeyq.trans hkey.symm)]

/-! ## `lirs_put` -/

/-- The LIR blocks stay, and stay LIR. -/
def KeepsLir (c c' : LirsCache) : Prop :=
  ∀ q ∈ c.heap, (c.block q).type = .lir → q ∈ c'.heap ∧ (c'.block q).type = .lir

theorem KeepsLir.refl (c : LirsCache) : KeepsLir c c := fun _ hq ht => ⟨hq, ht⟩

theorem PruneFrame.keepsLir {c' : LirsCache} (h : PruneFrame c c') : KeepsLir c c' := by
  intro q hq ht
  obtain ⟨hmem, htype⟩ := h.keeps q hq (by rw [ht]; decide)
  exact ⟨hmem, htype.trans ht⟩

theorem LirsInv.upkeep_makeRoom (h : LirsInv c) (hle : c.qQueue.length ≤ c.hirCapacity)
    (size : ℕ) : Upkeep c (lirsMakeRoom c size) := by
  unfold lirsMakeRoom
  by_cases hover : c.full size = true
  · rw [if_pos hover, h.evict_self hle]
    dsimp only
    split_ifs
    · exact h.upkeep_prune
    · exact Upkeep.refl c
  · rw [if_neg hover]
    exact Upkeep.refl c

theorem LirsInv.full_makeRoom (h : LirsInv c) (hle : c.qQueue.length ≤ c.hirCapacity) (size : ℕ) :
    (lirsMakeRoom c size).full size = c.full size := by
  unfold LirsCache.full
  rw [(h.makeRoom hle size).2.stats, (h.upkeep_makeRoom hle size).maxSize]

theorem entered_rest (c : LirsCache) (p key value size : ℕ) :
    (entered c p key value size).maxSize = c.maxSize ∧
    (entered c p key value size).evictCallback = c.evictCallback ∧
    (entered c p key value size).evicted = c.evicted ∧
    (entered c p key value size).stats.totalSize = addW c.stats.totalSize size := by
  unfold entered lirsPutEntry lirsPutType lirsBlockCreate lirsInsertHash
  by_cases h : c.sStackSize < subW c.capacity c.hirCapacity
  · simp [LirsCache.addS, LirsCache.setType, LirsCache.setBlock, h]
  · simp [LirsCache.addS, LirsCache.addQ, LirsCache.setType, LirsCache.setBlock, h]

/-- All that a `lirs_put` can do: the cache that it leaves and the code that it returns. -/
inductive PutEffect (c : LirsCache) (key value size : ℕ) (mem : Option ℕ) :
    LirsCache → Int → Prop
  | refused {c' : LirsCache} {code : Int} (hcode : code ≠ 0) (hup : Upkeep c c')
      (hlir : KeepsLir c c') : PutEffect c key value size mem c' code
  | same {p : ℕ} (hk : key ≠ 0) (hf : lirsFindBlock c key = some p)
      (hv : (c.block p).value = value) : PutEffect c key value size mem c 0
  | replaced {p : ℕ} (hk : key ≠ 0) (hf : lirsFindBlock c key = some p)
      (hv : (c.block p).value ≠ value) :
      PutEffect c key value size mem (lirsPutExisting c p value size) 0
  | entered {p : ℕ} {c1 c' : LirsCache} (hk : key ≠ 0) (hf : lirsFindBlock c key = none)
      (hmem : mem = some p) (hup1 : Upkeep c c1) (hlir1 : KeepsLir c c1)
      (hstats : c1.stats = c.stats) (hroom : c1.full size = false) (hinv1 : LirsInv c1)
      (hup2 : Upkeep (entered c1 p key value size) c')
      (hlir2 : KeepsLir (entered c1 p key value size) c')
      (hin : p ∈ c'.heap) (hres : (c'.block p).type ≠ .hirNonResident) :
      PutEffect c key value size mem c' 0

/-- The new block is still resident when `lirs_put` returns: it is LIR, or last on Q. -/
theorem entered_stays (hcap : 0 < c.hirCapacity) (key value size : ℕ)
    (hinv : LirsInv (entered c p key value size)) :
    p ∈ (lirsEvictHir (lirsPruneSStack (entered c p key value size))).heap ∧
      ((lirsEvictHir (lirsPruneSStack (entered c p key value size))).block p).type ≠
        .hirNonResident := by
  have hself := entered_self c p key value size
  obtain ⟨hcfg, -, hheap, -⟩ := entered_fields c p key value size
  have hmem : p ∈ (entered c p key value size).heap := by
    rw [hheap]
    exact List.mem_cons_self
  obtain ⟨hinv1, hframe⟩ := hinv.prune
  have hev := hinv1.evictFrame
  have hres : ((entered c p key value size).block p).type ≠ .hirNonResident := by
    rw [hself]
    dsimp only
    split_ifs <;> decide
  obtain ⟨hmem1, htype1⟩ := hframe.keeps p hmem hres
  by_cases hr : RoomForLir c
  · have hlir : ((entered c p key value size).block p).type = .lir := by rw [hself]; exact if_pos hr
    obtain ⟨hmem2, htype2⟩ := hev.lir p hmem1 (htype1.trans hlir)
    exact ⟨hmem2, by rw [htype2]; decide⟩
  · -- Q is `c.qQueue` and then `p`, and its first `hir_capacity` blocks at most leave it
    have hqueue := hev.queue
    have hq := (entered_queue c p key value size).1
    rw [if_neg hr] at hq
    rw [hframe.qQueue, hframe.config.hirCapacity, hcfg.hirCapacity, hq] at hqueue
    rw [List.drop_append_of_le_length (by rw [List.length_append, List.length_singleton]; omega)]
      at hqueue
    have hp : p ∈ (lirsEvictHir (lirsPruneSStack (entered c p key value size))).qQueue := by
      rw [hqueue]
      exact List.mem_append_right _ (List.mem_singleton_self p)
    have hinv2 := hinv1.evict.1
    have hmem2 := hinv2.shape.mem_heap_of_q hp
    exact ⟨hmem2, by rw [(hinv2.inQ_iff hmem2).mpr hp]; decide⟩

theorem LirsInv.put_effect (h : LirsInv c) (hle : c.qQueue.length ≤ c.hirCapacity)
    (hcap : 0 < c.hirCapacity) (key value size : ℕ) {mem : Option ℕ}
    (hmem : ∀ p, mem = some p → p ∉ c.heap) :
    PutEffect c key value size mem (lirsPut c key value size mem).1
      (lirsPut c key value size mem).2 := by
  unfold lirsPut
  by_cases hk : key = 0
  · rw [if_pos hk]
    exact .refused (show (-1 : ℤ) ≠ 0 by decide) (Upkeep.refl c) (KeepsLir.refl c)
  rw [if_neg hk]
  rcases hf : lirsFindBlock c key with _ | p
  · dsimp only
    have hup := h.upkeep_makeRoom hle size
    obtain ⟨hroom, hframe⟩ := h.makeRoom hle size
    have hlir := hframe.keepsLir
    by_cases hfull : (lirsMakeRoom c size).full size = true
    · rw [if_pos hfull]
      exact .refused (show (-2 : ℤ) ≠ 0 by decide) hup hlir
    rw [if_neg hfull]
    rcases mem with _ | p
    · exact .refused (show (-3 : ℤ) ≠ 0 by decide) hup hlir
    · have hp : p ∉ (lirsMakeRoom c size).heap := fun hin => hmem p rfl (hup.mem_heap hin)
      have hkeys : ∀ q ∈ (lirsMakeRoom c size).heap,
          ((lirsMakeRoom c size).block q).key ≠ key := by
        intro q hq
        rw [hup.key q]
        exact h.find_none hf q (hup.mem_heap hq)
      have hinv := hroom.newBlock hp value size hkeys
      obtain ⟨hin, hres⟩ := entered_stays
        (by rw [hframe.config.hirCapacity]; exact hcap) key value size hinv
      obtain ⟨hinv1, hframe1⟩ := hinv.prune
      have hev := hinv1.evictFrame
      show PutEffect c key value size (some p)
        (lirsEvictHir (lirsPruneSStack (entered (lirsMakeRoom c size) p key value size))) 0
      refine .entered hk hf rfl hup hlir hframe.stats (Bool.eq_false_iff.mpr hfull) hroom
        (hinv.upkeep_prune.trans hev.upkeep) (fun q hq ht => ?_) hin hres
      obtain ⟨hq1, ht1⟩ := hframe1.keepsLir q hq ht
      exact hev.lir q hq1 ht1
  · dsimp only
    by_cases hv : (c.block p).value = value
    · have hsame : lirsPutExisting c p value size = c := by
        unfold lirsPutExisting
        exact if_neg (not_not.mpr hv)
      rw [hsame]
      exact .same hk hf hv
    · exact .replaced hk hf hv

/-- A block is overwritten, with the callback for what it held. -/
theorem putExisting_fields (c : LirsCache) (p value size : ℕ) (hv : (c.block p).value ≠ value) :
    (lirsPutExisting c p value size).heap = c.heap ∧
    (lirsPutExisting c p value size).maxSize = c.maxSize ∧
    (lirsPutExisting c p value size).evictCallback = c.evictCallback ∧
    (lirsPutExisting c p value size).block =
      Function.update c.block p { c.block p with value := value, size := size } ∧
    (lirsPutExisting c p value size).stats.totalSize =
      addW (subW c.stats.totalSize (c.block p).size) size ∧
    (lirsPutExisting c p value size).evicted =
      c.evicted ++ lirsCalls c.evictCallback (c.block p).entry := by
  unfold lirsPutExisting
  dsimp only
  rw [if_pos hv]
  exact ⟨rfl, rfl, rfl, rfl, rfl, lirsCalls_append c.evictCallback (c.block p) c.evicted⟩

/-! ## `lirs_remove` -/

/-- All that a `lirs_remove` can do. -/
inductive RemoveEffect (c : LirsCache) (key : ℕ) : LirsCache → Int → Prop
  | refused {code : Int} (hcode : code ≠ 0) : RemoveEffect c key c code
  | removed {p : ℕ} {c' : LirsCache} (hk : key ≠ 0) (hf : lirsFindBlock c key = some p)
      (hinv : LirsInv (removed c p)) (hup : Upkeep (removed c p) c') : RemoveEffect c key c' 0

theorem LirsInv.remove_effect (h : LirsInv c) (key : ℕ) :
    RemoveEffect c key (lirsRemove c key).1 (lirsRemove c key).2 := by
  unfold lirsRemove
  by_cases hk : key = 0
  · rw [if_pos hk]
    exact .refused (show (-1 : ℤ) ≠ 0 by decide)
  rw [if_neg hk]
  rcases hf : lirsFindBlock c key with _ | p
  · exact .refused (show (-2 : ℤ) ≠ 0 by decide)
  · have hinv := (h.takeOut (h.find_some hf).1).1
    show RemoveEffect c key (lirsPruneSStack (removed c p)) 0
    exact .removed hk hf hinv hinv.upkeep_prune

theorem removed_fields (c : LirsCache) (p : ℕ) :
    (removed c p).maxSize = c.maxSize ∧
    (removed c p).evictCallback = c.evictCallback ∧
    (removed c p).heap = c.heap.erase p ∧
    (∀ q, q ≠ p → (removed c p).block q = c.block q) ∧
    (removed c p).stats.totalSize = subW c.stats.totalSize (c.block p).size ∧
    (removed c p).evicted = c.evicted ++ lirsCalls c.evictCallback (c.block p).entry := by
  have hun : (unlisted c p).maxSize = c.maxSize ∧
      (unlisted c p).evictCallback = c.evictCallback ∧ (unlisted c p).heap = c.heap ∧
      (unlisted c p).stats = c.stats ∧ (unlisted c p).evicted = c.evicted ∧
      ((unlisted c p).block p).entry = (c.block p).entry ∧
      ∀ q, q ≠ p → (unlisted c p).block q = c.block q := by
    unfold unlisted
    by_cases hs : (c.block p).inSStack = true <;> by_cases hq : (c.block p).inQQueue = true
    all_goals
      simp only [hs, hq, LirsCache.delS, LirsCache.delQ, Function.update_self, if_true, if_false,
        Bool.false_eq_true, LirsBlock.entry, true_and]
      intro q hne
      simp [hne]
  obtain ⟨hmax, hcb, hheap, hstats, hcalls, hentry, hother⟩ := hun
  obtain ⟨-, -, hsize⟩ := entry_eq_iff.mp hentry
  refine ⟨hmax, hcb, ?_, fun q hne => hother q hne, ?_, ?_⟩
  · show (unlisted c p).heap.erase p = _
    rw [hheap]
  · show (lirsStatsRemoved (unlisted c p).stats ((unlisted c p).block p)).totalSize = _
    rw [← hsize, ← hstats]
    unfold lirsStatsRemoved
    cases ((unlisted c p).block p).type <;> rfl
  · rw [← hentry, ← hcb, ← hcalls]
    exact lirsCalls_append (unlisted c p).evictCallback ((unlisted c p).block p) _

end

end Nomalloc
