import Nomalloc.Cache.LirsInvariant

/-!
# How many blocks the LIRS cache holds

`lirs_create` splits `capacity` into `hir_capacity` blocks for Q and the rest for LIR blocks.  Q is
kept within its share by `lirs_evict_hir`.  The LIR blocks are not counted anywhere: `lirs_put` makes
a LIR block while S is short, and a promotion in `lirs_get` demotes the block at the bottom of S, if
that is LIR at the moment.  A HIR block at the bottom of S (`lirs_promote_hir` leaves one there when
a HIR block is moved to the top from below a LIR one) lets the number of LIR blocks grow.

* `PromotionFits`             a promotion finds a LIR block below S, or there is room for one more;
* `within_capacity_iff_fits`  a run stays within the capacity exactly when every promotion fits.
-/

namespace Nomalloc

/-- The shares of `capacity`. -/
structure LirsCache.WithinCapacity (c : LirsCache) : Prop where
  size : lirsSize c ≤ c.capacity
  lir : typeCount c.heap c.types .lir ≤ c.capacity - c.hirCapacity
  hirResident : typeCount c.heap c.types .hirResident ≤ c.hirCapacity

/-- A `lirs_get` that promotes a block demotes one, or there is room for one more LIR block. -/
def LirsOp.PromotionFits (c : LirsCache) : LirsOp → Prop
  | .get key => key ≠ 0 → ∀ p, lirsFindBlock c key = some p → (c.block p).type = .hirResident →
      p ∈ c.sStack → BottomLir c p ∨ c.stats.lirCount < c.capacity - c.hirCapacity
  | _ => True

/-- A hundredth of `capacity`, in doubles, is no more than `capacity`. -/
theorem hirShare_le (capacity : ℕ) : hirShare capacity ≤ capacity := by
  unfold hirShare
  have h1 := round53_le capacity
  have h2 := round53_le (round53 capacity * 5764607523034235)
  have h3 : round53 (round53 capacity * 5764607523034235) ≤ capacity * 2 ^ 59 := by
    calc round53 (round53 capacity * 5764607523034235)
        ≤ 2 * (round53 capacity * 5764607523034235) := h2
      _ ≤ 2 * (2 * capacity * 5764607523034235) := by
          gcongr
      _ ≤ capacity * 2 ^ 59 := by omega
  exact Nat.div_le_of_le_mul (by rw [Nat.mul_comm (2 ^ 59)]; exact h3)

section
variable {c : LirsCache} {p : ℕ}

open Classical in
/-- A `lirs_get` adds a LIR block when it promotes one and demotes none. -/
theorem LirsInv.get_lirCount (h : LirsInv c) (hle : c.qQueue.length ≤ c.hirCapacity) {key : ℕ}
    (hk : key ≠ 0) (hf : lirsFindBlock c key = some p) :
    (lirsGet c key).1.stats.lirCount = c.stats.lirCount +
      if (c.block p).type = .hirResident ∧ p ∈ c.sStack ∧ ¬ BottomLir c p then 1 else 0 := by
  obtain ⟨hp, -⟩ := h.find_some hf
  have h1 := h.touch hp
  have htypes := types_touched c p
  have htp : ((touched c p).block p).type = (c.block p).type := congrFun htypes p
  rw [lirsGet_found hk hf]
  rcases ht : (c.block p).type with _ | _ | _
  · rw [if_neg fun hr => absurd hr.1 (by decide)]
    exact (h1.getLir hle hp (htp.trans ht)).2
  · have hbottom : BottomLir (touched c p) p ↔ BottomLir c p := by
      refine exists_congr fun q => and_congr_right fun _ => or_congr Iff.rfl ?_
      show (touched c p).types q = .lir ↔ c.types q = .lir
      rw [htypes]
    have hget := (h1.getHirResident hle hp (htp.trans ht)).2
    have hs : p ∈ (touched c p).sStack ↔ p ∈ c.sStack := Iff.rfl
    have hcount : (touched c p).stats.lirCount = c.stats.lirCount := rfl
    simp only [hbottom, hs, hcount] at hget
    dsimp only
    by_cases hin : p ∈ c.sStack <;> by_cases hb : BottomLir c p <;>
      simp only [hin, hb, and_self, and_true, and_false, not_true_eq_false, not_false_eq_true,
        if_true, if_false] at hget ⊢ <;> omega
  · rw [if_neg fun hr => absurd hr.1 (by decide)]
    exact (h1.getHirNonResident hle hp (htp.trans ht)).2

/-- A `lirs_get` of a key that is not there counts nothing but a miss. -/
theorem lirsGet_absent {key : ℕ} (hf : key = 0 ∨ lirsFindBlock c key = none) :
    (lirsGet c key).1.stats.lirCount = c.stats.lirCount := by
  unfold lirsGet
  by_cases hk : key = 0
  · rw [if_pos hk]
  · rw [if_neg hk, hf.resolve_left hk]

end

/-! ## whole runs -/

/-- What a run keeps while its promotions fit. -/
structure CapacityInv (c : LirsCache) : Prop where
  inv : LirsInv c
  queue : c.qQueue.length ≤ c.hirCapacity
  hir_le : c.hirCapacity ≤ c.capacity
  word : c.capacity < wordSize
  lir : c.stats.lirCount ≤ c.capacity - c.hirCapacity

theorem CapacityInv.within {c : LirsCache} (h : CapacityInv c) : c.WithinCapacity := by
  have hq := h.inv.hirResidentCount_eq
  have h1 := h.queue
  have h2 := h.hir_le
  have h3 := h.lir
  refine ⟨?_, ?_, ?_⟩
  · unfold lirsSize
    omega
  · rw [← h.inv.lir]
    exact h.lir
  · rw [← h.inv.hir, hq]
    exact h.queue

/-- A step that keeps the structure keeps the shares, if it leaves few enough LIR blocks. -/
theorem CapacityInv.of_keeps {c c' : LirsCache} (h : CapacityInv c) (hk : LirsKeeps c c')
    (hlir : c'.stats.lirCount ≤ c.capacity - c.hirCapacity) : CapacityInv c' := by
  obtain ⟨hinv, ⟨hcap, hhir⟩, hqueue⟩ := hk
  refine ⟨hinv, ?_, ?_, ?_, ?_⟩
  · rw [hhir]
    exact hqueue
  · rw [hhir, hcap]
    exact h.hir_le
  · rw [hcap]
    exact h.word
  · rw [hcap, hhir]
    exact hlir

theorem CapacityInv.step {c : LirsCache} {op : LirsOp} (h : CapacityInv c)
    (hfresh : op.FreshMemory c) (hfits : op.PromotionFits c) : CapacityInv (c.step op) := by
  have hsub : subW c.capacity c.hirCapacity = c.capacity - c.hirCapacity :=
    subW_eq h.hir_le h.word
  have hlir := h.lir
  cases op with
  | get key =>
    refine h.of_keeps (h.inv.get h.queue key) ?_
    show (lirsGet c key).1.stats.lirCount ≤ _
    by_cases hk : key = 0
    · rw [lirsGet_absent (Or.inl hk)]
      exact hlir
    cases hf : lirsFindBlock c key with
    | none =>
      rw [lirsGet_absent (Or.inr hf)]
      exact hlir
    | some p =>
      classical
      rw [h.inv.get_lirCount h.queue hk hf]
      by_cases hbad : (c.block p).type = .hirResident ∧ p ∈ c.sStack ∧ ¬ BottomLir c p
      · rw [if_pos hbad]
        have := (hfits hk p hf hbad.1 hbad.2.1).resolve_left hbad.2.2
        omega
      · rw [if_neg hbad]
        exact hlir
  | put key value size mem =>
    obtain ⟨hk, hcount⟩ := h.inv.put h.queue key value size hfresh
    refine h.of_keeps hk (hcount.trans ?_)
    rw [hsub]
    exact max_le hlir (le_refl _)
  | remove key =>
    obtain ⟨hk, hcount⟩ := h.inv.remove h.queue key
    exact h.of_keeps hk (hcount.trans hlir)

/-- A promotion that does not fit leaves one LIR block too many. -/
theorem CapacityInv.overflow {c : LirsCache} {op : LirsOp} (h : CapacityInv c)
    (hbad : ¬ op.PromotionFits c) : ¬ (c.step op).WithinCapacity := by
  intro hwithin
  cases op with
  | put => exact hbad trivial
  | remove => exact hbad trivial
  | get key =>
    apply hbad
    intro hk p hf ht hs
    by_contra hnot
    obtain ⟨hno, hroom⟩ := not_or.mp hnot
    have hkeep := h.inv.get h.queue key
    have hlir := hwithin.lir
    rw [← (show LirsInv (c.step (.get key)) from hkeep.inv).lir] at hlir
    classical
    have hcount := h.inv.get_lirCount h.queue hk hf
    rw [if_pos ⟨ht, hs, hno⟩] at hcount
    have hcap : (c.step (.get key)).capacity = c.capacity := hkeep.config.capacity
    have hhir : (c.step (.get key)).hirCapacity = c.hirCapacity := hkeep.config.hirCapacity
    have hval : (c.step (.get key)).stats.lirCount = c.stats.lirCount + 1 := hcount
    rw [hcap, hhir, hval] at hlir
    omega

/-- **A run stays within the capacity exactly when each of its promotions fits.** -/
theorem within_capacity_iff_fits {capacity maxSize : ℕ} {cacheOk tableOk : Bool} {c : LirsCache}
    (hcap : 3 ≤ capacity) (hword : capacity < wordSize)
    (hc : lirsCreate capacity maxSize cacheOk tableOk = some c) (ops : List LirsOp)
    (hfresh : Runs.Each LirsCache.step LirsOp.FreshMemory c ops) :
    Runs.Always LirsCache.step LirsCache.WithinCapacity c ops ↔
      Runs.Each LirsCache.step LirsOp.PromotionFits c ops := by
  obtain ⟨hinv, hqueue, hcap', hhir, hlir⟩ := lirsCreate_inv hc
  have hshare := hirShare_le capacity
  have hinit : CapacityInv c := by
    refine ⟨hinv, hqueue, ?_, ?_, ?_⟩
    · rw [hhir, hcap']
      exact max_le hshare (le_trans (by decide) hcap)
    · rw [hcap']
      exact hword
    · rw [hlir]
      exact Nat.zero_le _
  exact Runs.always_iff_each_of (fun _ _ h hf hC => h.step hf hC) (fun _ h => h.within)
    (fun _ _ h _ hbad => h.overflow hbad) hinit hfresh

/-- The smallest cache, its LIR share and Q filled, then one promotion that demotes a block and one
of that block, which is at the bottom of S by then. -/
theorem within_capacity_run :
    (3 ≤ 3 ∧ 3 < wordSize) ∧
      (Runs.Always LirsCache.step LirsCache.WithinCapacity ((lirsCreate 3 1000 true true).get rfl)
          [.put 16 1 1 (some 100), .get 16, .remove 16] ↔
        Runs.Each LirsCache.step LirsOp.PromotionFits ((lirsCreate 3 1000 true true).get rfl)
          [.put 16 1 1 (some 100), .get 16, .remove 16]) := by
  refine ⟨⟨by decide, by decide⟩, ?_⟩
  refine within_capacity_iff_fits (by decide) (by decide) (Option.some_get _).symm _
    ⟨?_, trivial, trivial, trivial⟩
  intro p hp
  cases hp
  decide

/-- Four blocks in a cache of three: the last `lirs_get(16)` promotes the block at the bottom of S
below a HIR one, so that two LIR blocks are there and Q fills up again. -/
theorem promotion_exceeds_capacity :
    ∃ c, lirsCreate 3 1000 true true = some c ∧ ∃ ops : List LirsOp,
      Runs.Each LirsCache.step LirsOp.FreshMemory c ops ∧
      lirsSize (Runs.after LirsCache.step c ops) = 4 ∧
      ¬ Runs.Always LirsCache.step LirsCache.WithinCapacity c ops := by
  have hsize : lirsSize (Runs.after LirsCache.step ((lirsCreate 3 1000 true true).get rfl)
      [.put 16 1 1 (some 100), .put 32 2 1 (some 200), .put 48 3 1 (some 300), .get 32, .get 16,
        .get 16, .put 64 4 1 (some 400)]) = 4 := by decide +kernel
  refine ⟨(lirsCreate 3 1000 true true).get rfl, (Option.some_get _).symm,
    [.put 16 1 1 (some 100), .put 32 2 1 (some 200), .put 48 3 1 (some 300), .get 32, .get 16,
      .get 16, .put 64 4 1 (some 400)], ⟨?_, ?_, ?_, trivial, trivial, trivial, ?_, trivial⟩,
    hsize, fun h => ?_⟩
  · intro p hp
    cases hp
    decide +kernel
  · intro p hp
    cases hp
    decide +kernel
  · intro p hp
    cases hp
    decide +kernel
  · intro p hp
    cases hp
    decide +kernel
  · have hle := h.last.size
    have hcap : (Runs.after LirsCache.step ((lirsCreate 3 1000 true true).get rfl)
      [.put 16 1 1 (some 100), .put 32 2 1 (some 200), .put 48 3 1 (some 300), .get 32, .get 16,
        .get 16, .put 64 4 1 (some 400)]).capacity = 3 := by decide +kernel
    have hle' := hsize.symm.le.trans (hle.trans hcap.le)
    exact absurd hle' (by decide)

end Nomalloc
