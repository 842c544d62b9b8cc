import Nomalloc.Cache.LirsContents

/-!
# The bytes in the LIRS cache

`total_size` counts the bytes of the resident blocks, and `lirs_put` lets a new block in while
`total_size + size` is at most `max_size`.  A block that is evicted while it is on S stays in the
table as a ghost, after its size was taken from the total; `lirs_put` and `lirs_remove` take it away
once more when they meet the ghost.  Neither the addition of the check is guarded against wrapping,
nor is the size checked where a value is overwritten in place.

* `total_size_iff_spares_ghosts`   `total_size` is the sum of the resident sizes, modulo `2^64`, all
                                   along a run exactly when no step counts a ghost a second time;
* `put_full_iff`                   `lirs_put` returns -2 by the total, though HIR blocks could be
                                   evicted: `lirs_evict_hir` evicts by their number only;
* `resident_size_le_max`           the sum is at most `max_size`, in the runs that moreover overwrite
                                   only within the budget and insert only where the sum of the check
                                   does not wrap.
-/

namespace Nomalloc

/-! ## one step -/

/-- The sum of the resident sizes, as the 64-bit counter has it. -/
def TotalExact (c : LirsCache) : Prop := c.stats.totalSize = residentSize c % wordSize

structure TotalInv (c : LirsCache) : Prop where
  ready : LirsReady c
  sizes : c.WordSizes
  word : c.stats.totalSize < wordSize
  total : c.stats.totalSize ≡ residentSize c [MOD wordSize]

theorem TotalInv.exact {c : LirsCache} (h : TotalInv c) : TotalExact c := by
  have ht := h.total
  unfold Nat.ModEq at ht
  rwa [Nat.mod_eq_of_lt h.word] at ht

/-- The operations as the program can make them: new memory for new blocks, sizes of type
`size_t`. -/
def LirsOp.Admissible (c : LirsCache) (op : LirsOp) : Prop :=
  op.FreshMemory c ∧
    match op with
    | .put _ _ size _ => size < wordSize
    | _ => True

/-- The step does not take the size of a ghost from the total: no put that gives a ghost a new value
and another size, no remove of a ghost that has a size. -/
def LirsOp.SparesGhosts (c : LirsCache) : LirsOp → Prop
  | .get _ => True
  | .put key value size _ => key ≠ 0 → ∀ p, lirsFindBlock c key = some p →
      (c.block p).type = .hirNonResident → (c.block p).value = value ∨ (c.block p).size = size
  | .remove key => key ≠ 0 → ∀ p, lirsFindBlock c key = some p →
      (c.block p).type = .hirNonResident → (c.block p).size = 0

section
variable {c c' : LirsCache} {p key value size : ℕ}

/-- Upkeep keeps the difference of the counter and the sum. -/
theorem Upkeep.total_exact (hup : Upkeep c c') (hw : c.WordSizes)
    (ht : c.stats.totalSize ≡ residentSize c [MOD wordSize]) :
    c'.stats.totalSize ≡ residentSize c' [MOD wordSize] := by
  have h := hup.total hw
  have h1 : c'.stats.totalSize + residentSize c ≡ residentSize c + residentSize c' [MOD wordSize] :=
    h.trans (ht.add_right _)
  rw [Nat.add_comm (residentSize c)] at h1
  exact Nat.ModEq.add_right_cancel' _ h1

theorem residentSize_putExisting (size : ℕ) (hr : LirsReady c) (hp : p ∈ c.heap)
    (hv : (c.block p).value ≠ value) :
    ((c.block p).type = .hirNonResident →
      residentSize (lirsPutExisting c p value size) = residentSize c) ∧
    ((c.block p).type ≠ .hirNonResident →
      residentSize (lirsPutExisting c p value size) + (c.block p).size = residentSize c + size) := by
  obtain ⟨hheap, -, -, hblock, -, -⟩ := putExisting_fields c p value size hv
  have hother : ∀ q, q ≠ p → (lirsPutExisting c p value size).block q = c.block q :=
    fun q hq => by rw [hblock, Function.update_of_ne hq]
  have hsum := heldSum_update hr.inv.shape.heapNodup hp hother
  have hself : (lirsPutExisting c p value size).block p =
      { c.block p with value := value, size := size } := by
    rw [hblock, Function.update_self]
  have hres : residentSize (lirsPutExisting c p value size) =
      (c.heap.map fun q => ((lirsPutExisting c p value size).block q).held).sum := by
    unfold residentSize
    rw [hheap]
  rw [← hres, hself] at hsum
  constructor
  · intro ht
    simp only [LirsBlock.held, ht, if_true] at hsum
    exact hsum
  · intro ht
    simp only [LirsBlock.held, ht, if_false] at hsum
    exact hsum

theorem residentSize_entered (hp : p ∉ c.heap) :
    residentSize (entered c p key value size) = residentSize c + size := by
  have hself := entered_self c p key value size
  have hheap := (entered_fields c p key value size).2.2.1
  have hheld : ((entered c p key value size).block p).held = size := by
    rw [hself]
    refine if_neg ?_
    dsimp only
    split_ifs <;> decide
  have hrest : (c.heap.map fun q => ((entered c p key value size).block q).held).sum =
      residentSize c :=
    heldSum_congr fun q hq => by
      rw [entered_other c p key value size fun he => hp (he ▸ hq)]
  unfold residentSize
  rw [hheap, List.map_cons, List.sum_cons, hheld, hrest, Nat.add_comm]
  rfl

theorem residentSize_removed (hr : LirsReady c) (hp : p ∈ c.heap) :
    residentSize (removed c p) + (c.block p).held = residentSize c := by
  obtain ⟨-, -, hheap, hother, -, -⟩ := removed_fields c p
  have hrest : residentSize (removed c p) = ((c.heap.erase p).map fun q => (c.block q).held).sum := by
    unfold residentSize
    rw [hheap]
    exact heldSum_congr fun q hq => by
      rw [hother q (hr.inv.shape.heapNodup.mem_erase_iff.mp hq).1]
  rw [hrest]
  exact (heldSum_erase c.block hp).symm

theorem WordSizes.putExisting (hw : c.WordSizes) (hsize : size < wordSize)
    (hv : (c.block p).value ≠ value) : (lirsPutExisting c p value size).WordSizes := by
  obtain ⟨hheap, -, -, hblock, -, -⟩ := putExisting_fields c p value size hv
  intro q hq
  rw [hheap] at hq
  rw [hblock]
  by_cases he : q = p
  · rw [he, Function.update_self]
    exact hsize
  · rw [Function.update_of_ne he]
    exact hw q hq

theorem WordSizes.entered (hw : c.WordSizes) (hsize : size < wordSize) :
    (entered c p key value size).WordSizes := by
  have hself := entered_self c p key value size
  have hheap := (entered_fields c p key value size).2.2.1
  intro q hq
  by_cases he : q = p
  · rw [he, hself]
    exact hsize
  · rw [hheap] at hq
    rw [entered_other c p key value size he]
    exact hw q ((List.mem_cons.mp hq).resolve_left he)

theorem WordSizes.removed (hw : c.WordSizes) (hr : LirsReady c) : (removed c p).WordSizes := by
  obtain ⟨-, -, hheap, hother, -, -⟩ := removed_fields c p
  intro q hq
  rw [hheap] at hq
  obtain ⟨hne, hq⟩ := hr.inv.shape.heapNodup.mem_erase_iff.mp hq
  rw [hother q hne]
  exact hw q hq

theorem total_putExisting (size : ℕ) (hw : (c.block p).size < wordSize) (hv : (c.block p).value ≠ value) :
    (lirsPutExisting c p value size).stats.totalSize + (c.block p).size ≡
      c.stats.totalSize + size [MOD wordSize] := by
  obtain ⟨-, -, -, -, htotal, -⟩ := putExisting_fields c p value size hv
  rw [htotal]
  calc addW (subW c.stats.totalSize (c.block p).size) size + (c.block p).size
      ≡ subW c.stats.totalSize (c.block p).size + size + (c.block p).size [MOD wordSize] :=
        (addW_modEq _ _).add_right _
    _ ≡ subW c.stats.totalSize (c.block p).size + (c.block p).size + size [MOD wordSize] := by
        rw [Nat.add_right_comm]
    _ ≡ c.stats.totalSize + size [MOD wordSize] := (subW_modEq _ hw.le).add_right _

theorem total_removed (hw : (c.block p).size < wordSize) :
    (removed c p).stats.totalSize + (c.block p).size ≡ c.stats.totalSize [MOD wordSize] := by
  obtain ⟨-, -, -, -, htotal, -⟩ := removed_fields c p
  rw [htotal]
  exact subW_modEq _ hw.le

theorem total_lt_putExisting (hv : (c.block p).value ≠ value) :
    (lirsPutExisting c p value size).stats.totalSize < wordSize := by
  obtain ⟨-, -, -, -, htotal, -⟩ := putExisting_fields c p value size hv
  rw [htotal]
  exact addW_lt _ _

theorem total_lt_removed : (removed c p).stats.totalSize < wordSize := by
  obtain ⟨-, -, -, -, htotal, -⟩ := removed_fields c p
  rw [htotal]
  exact subW_lt _ _

/-! ## the counter is exact -/

theorem TotalInv.upkeep (h : TotalInv c) (hr : LirsReady c') (hup : Upkeep c c') : TotalInv c' :=
  ⟨hr, hup.wordSizes h.sizes, hup.word h.word, hup.total_exact h.sizes h.total⟩

/-- A put keeps the counter exact unless it meets a ghost with another size. -/
theorem TotalInv.put (h : TotalInv c) {mem : Option ℕ}
    (hadm : (LirsOp.put key value size mem).Admissible c)
    (hspare : (LirsOp.put key value size mem).SparesGhosts c) :
    TotalInv (c.step (.put key value size mem)) := by
  obtain ⟨hfresh, hsize⟩ := hadm
  have hready := h.ready.step hfresh
  have hr := h.ready
  have heffect := hr.inv.put_effect hr.queue hr.hir key value size hfresh
  have hstep : c.step (.put key value size mem) = (lirsPut c key value size mem).1 := rfl
  rw [hstep] at hready ⊢
  generalize (lirsPut c key value size mem).1 = c' at heffect hready ⊢
  generalize (lirsPut c key value size mem).2 = code at heffect
  cases heffect with
  | refused _ hup _ => exact h.upkeep hready hup
  | same => exact h
  | @replaced p hk hf hv =>
    have hp := (hr.inv.find_some hf).1
    obtain ⟨hghost, hres⟩ := residentSize_putExisting size hr hp hv
    have htotal := total_putExisting size (h.sizes p hp) hv
    refine ⟨hready, WordSizes.putExisting h.sizes hsize hv, total_lt_putExisting hv, ?_⟩
    by_cases ht : (c.block p).type = .hirNonResident
    · have hsame : (c.block p).size = size := (hspare hk p hf ht).resolve_left hv
      rw [hghost ht]
      rw [hsame] at htotal
      exact (Nat.ModEq.add_right_cancel' _ htotal).trans h.total
    · have hsum := htotal.trans (h.total.add_right size)
      rw [← hres ht] at hsum
      exact Nat.ModEq.add_right_cancel' _ hsum
  | @entered p c1 _ _ _ hm hup1 _ _ _ _ hup2 _ _ _ =>
    have hp1 : p ∉ c1.heap := fun hin => hfresh p hm (hup1.mem_heap hin)
    have htotal : (entered c1 p key value size).stats.totalSize ≡
        residentSize (entered c1 p key value size) [MOD wordSize] := by
      rw [residentSize_entered hp1, (entered_rest c1 p key value size).2.2.2]
      exact (addW_modEq _ _).trans ((hup1.total_exact h.sizes h.total).add_right _)
    have hsizes : (entered c1 p key value size).WordSizes :=
      WordSizes.entered (hup1.wordSizes h.sizes) hsize
    refine ⟨hready, hup2.wordSizes hsizes, hup2.word ?_, hup2.total_exact hsizes htotal⟩
    rw [(entered_rest c1 p key value size).2.2.2]
    exact addW_lt _ _

theorem TotalInv.remove (h : TotalInv c) (hspare : (LirsOp.remove key).SparesGhosts c) :
    TotalInv (c.step (.remove key)) := by
  have hr := h.ready
  have hready : LirsReady (c.step (.remove key)) := hr.step trivial
  have heffect := hr.inv.remove_effect key
  have hstep : c.step (.remove key) = (lirsRemove c key).1 := rfl
  rw [hstep] at hready ⊢
  generalize (lirsRemove c key).1 = c' at heffect hready ⊢
  generalize (lirsRemove c key).2 = code at heffect
  cases heffect with
  | refused => exact h
  | @removed p _ hk hf _ hup =>
    have hp := (hr.inv.find_some hf).1
    have hsum := residentSize_removed hr hp
    have htotal := total_removed (h.sizes p hp)
    have hheld : (c.block p).held = (c.block p).size := by
      unfold LirsBlock.held
      split_ifs with ht
      · exact (hspare hk p hf ht).symm
      · rfl
    rw [hheld] at hsum
    have hsizes : (removed c p).WordSizes := WordSizes.removed h.sizes hr
    have hexact : (removed c p).stats.totalSize ≡ residentSize (removed c p) [MOD wordSize] := by
      have h1 := htotal.trans h.total
      rw [← hsum] at h1
      exact Nat.ModEq.add_right_cancel' _ h1
    exact ⟨hready, hup.wordSizes hsizes, hup.word total_lt_removed, hup.total_exact hsizes hexact⟩

theorem TotalInv.step (h : TotalInv c) {op : LirsOp} (hadm : op.Admissible c)
    (hspare : op.SparesGhosts c) : TotalInv (c.step op) := by
  cases op with
  | get key =>
    exact h.upkeep (h.ready.step trivial) (h.ready.inv.get_spec h.ready.queue key).1
  | put key value size mem => exact h.put hadm hspare
  | remove key => exact h.remove hspare

/-- A step that meets a ghost and does not spare it leaves the counter wrong. -/
theorem TotalInv.double_count (h : TotalInv c) {op : LirsOp} (hadm : op.Admissible c)
    (hbad : ¬ op.SparesGhosts c) : ¬ TotalExact (c.step op) := by
  intro hexact
  have hmod : (c.step op).stats.totalSize ≡ residentSize (c.step op) [MOD wordSize] := by
    rw [hexact]
    exact Nat.mod_modEq _ _
  have hr := h.ready
  cases op with
  | get => exact hbad trivial
  | put key value size mem =>
    apply hbad
    intro hk p hf ht
    by_contra hno
    obtain ⟨hv, hne⟩ := not_or.mp hno
    have hp := (hr.inv.find_some hf).1
    have hstep : c.step (.put key value size mem) = lirsPutExisting c p value size := by
      show (lirsPut c key value size mem).1 = _
      unfold lirsPut
      rw [if_neg hk, hf]
    rw [hstep, (residentSize_putExisting size hr hp hv).1 ht] at hmod
    have htotal := total_putExisting size (h.sizes p hp) hv
    have h1 : residentSize c + (c.block p).size ≡ residentSize c + size [MOD wordSize] :=
      (hmod.symm.add_right _).trans (htotal.trans (h.total.add_right _))
    have h2 := Nat.ModEq.add_left_cancel' _ h1
    exact hne (Nat.ModEq.eq_of_lt_of_lt h2 (h.sizes p hp) hadm.2)
  | remove key =>
    apply hbad
    intro hk p hf ht
    have hp := (hr.inv.find_some hf).1
    have hinv := (hr.inv.takeOut hp).1
    have hstep : c.step (.remove key) = lirsPruneSStack (removed c p) := by
      show (lirsRemove c key).1 = _
      unfold lirsRemove
      rw [if_neg hk, hf]
      rfl
    have hup := hinv.upkeep_prune
    rw [← hstep] at hup
    have hsizes : (removed c p).WordSizes := WordSizes.removed h.sizes hr
    have hsum := residentSize_removed hr hp
    rw [show (c.block p).held = 0 from if_pos ht, Nat.add_zero] at hsum
    -- pruning keeps the difference, so it was wrong before the pruning already
    have hbefore : (removed c p).stats.totalSize ≡ residentSize c [MOD wordSize] := by
      have h1 := hup.total hsizes
      rw [hsum] at h1
      have h2 := (hmod.add_right (residentSize c)).symm.trans h1
      rw [Nat.add_comm] at h2
      exact (Nat.ModEq.add_right_cancel' _ h2).symm
    have h3 : residentSize c + (c.block p).size ≡ residentSize c + 0 [MOD wordSize] :=
      (hbefore.symm.add_right _).trans ((total_removed (h.sizes p hp)).trans h.total)
    exact Nat.ModEq.eq_of_lt_of_lt (Nat.ModEq.add_left_cancel' _ h3) (h.sizes p hp) (by decide)

end

theorem lirsCreate_total {capacity maxSize : ℕ} {cacheOk tableOk : Bool} {c : LirsCache}
    (hc : lirsCreate capacity maxSize cacheOk tableOk = some c) (callback : Bool) :
    TotalInv (lirsSetEvictCallback c callback) ∧
      residentSize (lirsSetEvictCallback c callback) = 0 := by
  obtain ⟨hheap, -, htotal, -⟩ := lirsCreate_heap hc
  have hres : residentSize (lirsSetEvictCallback c callback) = 0 := by
    show (c.heap.map _).sum = 0
    rw [hheap]
    rfl
  refine ⟨⟨lirsCreate_ready hc callback, fun p hp => ?_, ?_, ?_⟩, hres⟩
  · have hp' : p ∈ c.heap := hp
    rw [hheap] at hp'
    exact absurd hp' (by simp)
  · show c.stats.totalSize < wordSize
    rw [htotal]
    decide
  · rw [hres]
    show c.stats.totalSize ≡ 0 [MOD wordSize]
    rw [htotal]

/-- **`total_size` is exact along a run exactly when the run spares the ghosts.** -/
theorem total_size_iff_spares_ghosts {capacity maxSize : ℕ} {cacheOk tableOk : Bool}
    {c : LirsCache} (hc : lirsCreate capacity maxSize cacheOk tableOk = some c) (callback : Bool)
    (ops : List LirsOp)
    (hadm : Runs.Each LirsCache.step (fun c op => op.Admissible c)
      (lirsSetEvictCallback c callback) ops) :
    Runs.Always LirsCache.step TotalExact (lirsSetEvictCallback c callback) ops ↔
      Runs.Each LirsCache.step (fun c op => op.SparesGhosts c)
        (lirsSetEvictCallback c callback) ops :=
  Runs.always_iff_each_of (fun _ _ h hA hC => h.step hA hC) (fun _ h => h.exact)
    (fun _ _ h hA hC => h.double_count hA hC) (lirsCreate_total hc callback).1 hadm

/-- A put in place and a remove of resident blocks. -/
theorem total_size_iff_run :
    Runs.Always LirsCache.step TotalExact
        (lirsSetEvictCallback ((lirsCreate 3 1000 true true).get rfl) false)
        [.put 16 1 5 (some 100), .put 16 2 7 none, .remove 16] ↔
      Runs.Each LirsCache.step (fun c op => op.SparesGhosts c)
        (lirsSetEvictCallback ((lirsCreate 3 1000 true true).get rfl) false)
        [.put 16 1 5 (some 100), .put 16 2 7 none, .remove 16] := by
  refine total_size_iff_spares_ghosts (Option.some_get _).symm false _ ?_
  refine ⟨⟨fun p hp => ?_, by decide⟩, ⟨fun p hp => ?_, by decide⟩, ⟨trivial, trivial⟩, trivial⟩
  · cases hp
    decide
  · cases hp

/-- The second key is evicted and stays as a ghost; removing it takes its size away again, and a
counter below zero is `2^64 - 5 + 3`. -/
theorem remove_counts_ghost_again :
    ∃ c, lirsCreate 3 1000 true true = some c ∧ ∃ ops : List LirsOp,
      Runs.Each LirsCache.step (fun c op => op.Admissible c) c ops ∧
      (Runs.after LirsCache.step c ops).stats.totalSize = wordSize - 2 ∧
      residentSize (Runs.after LirsCache.step c ops) = 3 ∧
      ¬ Runs.Always LirsCache.step TotalExact c ops := by
  have htotal : (Runs.after LirsCache.step ((lirsCreate 3 1000 true true).get rfl)
      [.put 16 1 1 (some 100), .put 32 2 5 (some 200), .put 48 3 1 (some 300),
        .put 64 4 1 (some 400), .remove 32]).stats.totalSize = wordSize - 2 := by decide +kernel
  have hres : residentSize (Runs.after LirsCache.step ((lirsCreate 3 1000 true true).get rfl)
      [.put 16 1 1 (some 100), .put 32 2 5 (some 200), .put 48 3 1 (some 300),
        .put 64 4 1 (some 400), .remove 32]) = 3 := by decide +kernel
  refine ⟨(lirsCreate 3 1000 true true).get rfl, (Option.some_get _).symm,
    [.put 16 1 1 (some 100), .put 32 2 5 (some 200), .put 48 3 1 (some 300),
      .put 64 4 1 (some 400), .remove 32], ?_, htotal, hres, fun h => ?_⟩
  · refine ⟨⟨fun p hp => ?_, by decide⟩, ⟨fun p hp => ?_, by decide⟩,
      ⟨fun p hp => ?_, by decide⟩, ⟨fun p hp => ?_, by decide⟩, ⟨trivial, trivial⟩, trivial⟩
    all_goals
      cases hp
      decide +kernel
  · have hlast := h.last
    unfold TotalExact at hlast
    rw [htotal, hres] at hlast
    exact absurd hlast (by decide)

/-! ## the room for a new key -/

/-- The sum of the sizes of the LIR blocks. -/
def lirSize (c : LirsCache) : ℕ :=
  (c.heap.map fun p => if (c.block p).type = .lir then (c.block p).size else 0).sum

/-- Nothing is evicted for a new key: Q is within its capacity, whatever its blocks hold. -/
theorem LirsReady.put_full {c : LirsCache} (h : LirsReady c) {key size : ℕ} (hk : key ≠ 0)
    (hf : lirsFindBlock c key = none) (value : ℕ) (mem : Option ℕ) :
    (lirsPut c key value size mem).2 = -2 ↔ c.maxSize < addW c.stats.totalSize size := by
  have hiff : c.full size = true ↔ c.maxSize < addW c.stats.totalSize size := decide_eq_true_iff
  unfold lirsPut
  rw [if_neg hk, hf]
  dsimp only
  rw [h.inv.full_makeRoom h.queue, ← hiff]
  by_cases hover : c.full size = true
  · rw [if_pos hover]
    exact iff_of_true rfl hover
  · rw [if_neg hover]
    refine iff_of_false ?_ hover
    cases mem with
    | none => exact show (-3 : ℤ) ≠ -2 by decide
    | some p => exact show (0 : ℤ) ≠ -2 by decide

/-- **A `lirs_put` that returns -2 has no room beside the LIR blocks**, exactly when there is room
beside all that `total_size` counts, or none beside the LIR blocks. -/
theorem put_full_iff {capacity maxSize : ℕ} {cacheOk tableOk : Bool} {c s : LirsCache}
    (hc : lirsCreate capacity maxSize cacheOk tableOk = some c) (callback : Bool)
    (ops : List LirsOp)
    (hfresh : Runs.Each LirsCache.step LirsOp.FreshMemory (lirsSetEvictCallback c callback) ops)
    (hs : s = Runs.after LirsCache.step (lirsSetEvictCallback c callback) ops)
    {key : ℕ} (hk : key ≠ 0) (hf : lirsFindBlock s key = none) (value size : ℕ)
    (mem : Option ℕ) :
    ((lirsPut s key value size mem).2 = -2 → s.maxSize < lirSize s + size) ↔
      addW s.stats.totalSize size ≤ s.maxSize ∨ s.maxSize < lirSize s + size := by
  have hready : LirsReady s := by
    rw [hs]
    exact (lirsCreate_ready hc callback).after hfresh
  rw [hready.put_full hk hf value mem, imp_iff_not_or, not_lt]

/-- A key that fits. -/
theorem put_full_run :
    let s := Runs.after LirsCache.step
      (lirsSetEvictCallback ((lirsCreate 3 10 true true).get rfl) false)
      [.put 16 1 2 (some 100)]
    ((lirsPut s 32 2 5 (some 200)).2 = -2 → s.maxSize < lirSize s + 5) ↔
      addW s.stats.totalSize 5 ≤ s.maxSize ∨ s.maxSize < lirSize s + 5 := by
  refine put_full_iff (Option.some_get _).symm false _ ?_ rfl (by decide) ?_ _ _ _
  · refine ⟨fun p hp => ?_, trivial⟩
    cases hp
    decide
  · decide +kernel

/-- Five bytes of ten would be free without the HIR resident block of five. -/
theorem put_full_beside_hir :
    ∃ c, lirsCreate 3 10 true true = some c ∧ ∃ ops : List LirsOp,
      Runs.Each LirsCache.step LirsOp.FreshMemory c ops ∧
      lirsFindBlock (Runs.after LirsCache.step c ops) 48 = none ∧
      (lirsPut (Runs.after LirsCache.step c ops) 48 3 5 (some 300)).2 = -2 ∧
      lirSize (Runs.after LirsCache.step c ops) + 5 ≤ 10 := by
  refine ⟨(lirsCreate 3 10 true true).get rfl, (Option.some_get _).symm,
    [.put 16 1 2 (some 100), .put 32 2 5 (some 200)], ?_, by decide +kernel, by decide +kernel,
    by decide +kernel⟩
  refine ⟨fun p hp => ?_, fun p hp => ?_, trivial⟩
  all_goals
    cases hp
    decide +kernel

/-! ## the budget -/

/-- The step leaves no more than `max_size` bytes, as the check of `lirs_put` would have it: a value
that is overwritten in a resident block has room for its new size, and the sum in the check of a new
key does not wrap.  And it spares the ghosts. -/
def LirsOp.WithinBudget (c : LirsCache) (op : LirsOp) : Prop :=
  op.SparesGhosts c ∧
    match op with
    | .put key value size mem => key ≠ 0 →
        (∀ p, lirsFindBlock c key = some p → (c.block p).type ≠ .hirNonResident →
          (c.block p).value ≠ value →
            c.stats.totalSize - (c.block p).size + size ≤ c.maxSize) ∧
        (lirsFindBlock c key = none → mem ≠ none → c.stats.totalSize + size < wordSize)
    | _ => True

structure BudgetInv (maxSize : ℕ) (c : LirsCache) : Prop where
  total : TotalInv c
  max : c.maxSize = maxSize
  word : maxSize < wordSize
  le : residentSize c ≤ maxSize

section
variable {c c' : LirsCache} {maxSize : ℕ}

theorem BudgetInv.total_eq (h : BudgetInv maxSize c) : c.stats.totalSize = residentSize c := by
  have hexact : c.stats.totalSize = residentSize c % wordSize := h.total.exact
  rw [hexact, Nat.mod_eq_of_lt (Nat.lt_of_le_of_lt h.le h.word)]

theorem held_le_residentSize {p : ℕ} (hp : p ∈ c.heap) (ht : (c.block p).type ≠ .hirNonResident) :
    (c.block p).size ≤ residentSize c := by
  have hheld : (c.block p).held = (c.block p).size := if_neg ht
  rw [← hheld]
  exact List.single_le_sum (fun _ _ => Nat.zero_le _) _ (List.mem_map.mpr ⟨p, hp, rfl⟩)

theorem BudgetInv.step (h : BudgetInv maxSize c) {op : LirsOp} (hadm : op.Admissible c)
    (hfits : op.WithinBudget c) : BudgetInv maxSize (c.step op) := by
  have htotal := h.total.step hadm hfits.1
  have hr := h.total.ready
  suffices hle : (c.step op).maxSize = maxSize ∧ residentSize (c.step op) ≤ maxSize from
    ⟨htotal, hle.1, h.word, hle.2⟩
  have hup : ∀ {c'}, Upkeep c c' → c'.maxSize = maxSize ∧ residentSize c' ≤ maxSize :=
    fun hup => ⟨hup.maxSize.trans h.max, hup.shrinks.trans h.le⟩
  cases op with
  | get key => exact hup (hr.inv.get_spec hr.queue key).1
  | remove key =>
    have heffect := hr.inv.remove_effect key
    show (lirsRemove c key).1.maxSize = maxSize ∧ residentSize (lirsRemove c key).1 ≤ maxSize
    generalize (lirsRemove c key).1 = c' at heffect
    generalize (lirsRemove c key).2 = code at heffect
    cases heffect with
    | refused => exact ⟨h.max, h.le⟩
    | @removed p _ _ hf _ hup' =>
      have hsum := residentSize_removed hr (hr.inv.find_some hf).1
      have hmax := (removed_fields c p).1
      refine ⟨hup'.maxSize.trans (hmax.trans h.max), hup'.shrinks.trans ?_⟩
      have hle := h.le
      omega
  | put key value size mem =>
    have hstep := hfits.2
    have heffect := hr.inv.put_effect hr.queue hr.hir key value size hadm.1
    show (lirsPut c key value size mem).1.maxSize = maxSize ∧
      residentSize (lirsPut c key value size mem).1 ≤ maxSize
    generalize (lirsPut c key value size mem).1 = c' at heffect
    generalize (lirsPut c key value size mem).2 = code at heffect
    cases heffect with
    | refused _ hup' _ => exact hup hup'
    | same => exact ⟨h.max, h.le⟩
    | @replaced p hk hf hv =>
      have hp := (hr.inv.find_some hf).1
      obtain ⟨hghost, hres⟩ := residentSize_putExisting size hr hp hv
      have hmax := (putExisting_fields c p value size hv).2.1
      refine ⟨hmax.trans h.max, ?_⟩
      by_cases ht : (c.block p).type = .hirNonResident
      · rw [hghost ht]
        exact h.le
      · have hroom := (hstep hk).1 p hf ht hv
        have hsize := held_le_residentSize hp ht
        have hsum := hres ht
        rw [h.total_eq, h.max] at hroom
        omega
    | @entered p c1 _ hk hf hm hup1 _ hstats hroom _ hup2 _ _ _ =>
      have hp1 : p ∉ c1.heap := fun hin => hadm.1 p hm (hup1.mem_heap hin)
      have hmax := (entered_rest c1 p key value size).1
      have hlt : c.stats.totalSize + size < wordSize :=
        (hstep hk).2 hf (by rw [hm]; exact Option.some_ne_none p)
      have hfit : c.stats.totalSize + size ≤ maxSize := by
        unfold LirsCache.full at hroom
        have hnot := of_decide_eq_false hroom
        rw [hstats, hup1.maxSize, h.max, addW_eq hlt] at hnot
        omega
      refine ⟨hup2.maxSize.trans (hmax.trans (hup1.maxSize.trans h.max)), hup2.shrinks.trans ?_⟩
      rw [residentSize_entered hp1]
      have hle := hup1.shrinks
      rw [h.total_eq] at hfit
      omega

end

/-- **The resident blocks stay within `max_size`**, in a run whose steps are within the budget. -/
theorem resident_size_le_max {capacity maxSize : ℕ} {cacheOk tableOk : Bool} {c : LirsCache}
    (hmax : maxSize < wordSize)
    (hc : lirsCreate capacity maxSize cacheOk tableOk = some c) (callback : Bool)
    (ops : List LirsOp)
    (hadm : Runs.Each LirsCache.step (fun c op => op.Admissible c)
      (lirsSetEvictCallback c callback) ops)
    (hfits : Runs.Each LirsCache.step (fun c op => op.WithinBudget c)
      (lirsSetEvictCallback c callback) ops) :
    Runs.Always LirsCache.step (fun c => residentSize c ≤ maxSize)
      (lirsSetEvictCallback c callback) ops := by
  obtain ⟨htotal, hres⟩ := lirsCreate_total hc callback
  have hinit : BudgetInv maxSize (lirsSetEvictCallback c callback) :=
    ⟨htotal, (lirsCreate_heap hc).2.2.2, hmax, by rw [hres]; exact Nat.zero_le _⟩
  exact (Runs.inv_always (fun _ _ h hC => h.step hC.1 hC.2) hinit (hadm.and hfits)).mono
    fun _ h => h.le

/-- A new block and one that grows to the whole budget. -/
theorem resident_size_run :
    Runs.Always LirsCache.step (fun c => residentSize c ≤ 10)
      (lirsSetEvictCallback ((lirsCreate 3 10 true true).get rfl) false)
      [.put 16 1 4 (some 100), .put 16 2 10 none] := by
  refine resident_size_le_max (by decide) (Option.some_get _).symm false _ ?_ ?_
  · refine ⟨⟨fun p hp => ?_, by decide⟩, ⟨fun p hp => ?_, by decide⟩, trivial⟩
    · cases hp
      decide
    · cases hp
  · have hnone : lirsFindBlock (lirsSetEvictCallback ((lirsCreate 3 10 true true).get rfl) false)
        16 = none := by decide
    refine ⟨⟨fun _ p hf => ?_, fun _ => ⟨fun p hf => ?_, fun _ _ => by decide⟩⟩,
      ⟨fun _ p hf ht => ?_, fun _ => ⟨fun p hf => ?_, fun hf => ?_⟩⟩, trivial⟩
    · exact absurd (hnone.symm.trans hf) (by simp)
    · exact absurd (hnone.symm.trans hf) (by simp)
    · have hp : p = 100 := Option.some_injective _ (hf.symm.trans (by decide +kernel))
      subst hp
      exact absurd ht (by decide +kernel)
    · have hp : p = 100 := Option.some_injective _ (hf.symm.trans (by decide +kernel))
      subst hp
      intro _ _
      decide +kernel
    · exact absurd hf (by decide +kernel)

/-- A value overwritten in place grows beyond the budget. -/
theorem overwrite_exceeds_max :
    ∃ c, lirsCreate 3 10 true true = some c ∧ ∃ ops : List LirsOp,
      Runs.Each LirsCache.step (fun c op => op.Admissible c) c ops ∧
      ¬ Runs.Always LirsCache.step (fun c => residentSize c ≤ 10) c ops := by
  refine ⟨(lirsCreate 3 10 true true).get rfl, (Option.some_get _).symm,
    [.put 16 1 4 (some 100), .put 16 2 11 none], ?_, fun h => ?_⟩
  · refine ⟨⟨fun p hp => ?_, by decide⟩, ⟨fun p hp => ?_, by decide⟩, trivial⟩
    · cases hp
      decide
    · cases hp
  · exact absurd h.last (by decide +kernel)

end Nomalloc
