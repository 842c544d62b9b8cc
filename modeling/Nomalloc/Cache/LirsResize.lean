import Nomalloc.Cache.LirsBottom

/-!
# `lirs_resize`

`lirs_resize` takes the new capacity and demotes the bottom of S while there are more LIR blocks than
it admits, then evicts from Q.  A bottom that is not LIR is neither demoted nor taken off S, and the
loop goes round on it for ever.

* `LirsInv.resizeLoop_ends`   the loop ends when the blocks that it has to demote, counted from the
                             bottom of S, are all LIR;
* `LirsInv.resizeLoop_lir`    it does not end otherwise;
* `LirsReady.resize`         a `lirs_resize` that ends is upkeep;
* `resize_terminates_iff`     so `lirs_resize` ends, and leaves the cache within the new capacity.
-/

namespace Nomalloc

/-- The body of the loop of `lirs_resize`, for the block at the bottom of S. -/
def lirsDemoteOff (cache : LirsCache) (bottom : ℕ) : LirsCache :=
  (lirsDemoteLir cache bottom).delS bottom

/-- The loop of `lirs_resize`, in a number of rounds: `none` when it has not ended by then. -/
def lirsResizeLoop : ℕ → LirsCache → Option LirsCache
  | 0, _ => none
  | n + 1, cache =>
    if subW cache.capacity cache.hirCapacity < cache.stats.lirCount then
      match cache.sStack.getLast? with
      | none => some cache
      | some bottom =>
        if (cache.block bottom).type = .lir then lirsResizeLoop n (lirsDemoteOff cache bottom)
        else lirsResizeLoop n cache
    else some cache

/-- The new capacity is set. -/
def lirsSetCapacity (cache : LirsCache) (newCapacity : ℕ) : LirsCache :=
  { cache with
    capacity := newCapacity
    hirCapacity := max (hirShare newCapacity) LIRS_MIN_HIR_BLOCKS }

/-- `lirs_resize` -/
def lirsResize (rounds : ℕ) (cache : LirsCache) (newCapacity : ℕ) : Option LirsCache :=
  (lirsResizeLoop rounds (lirsSetCapacity cache newCapacity)).map lirsEvictHir

section
variable {c : LirsCache} {p : ℕ}

theorem LirsReady.setCapacity (h : LirsReady c) (newCapacity : ℕ) :
    LirsInv (lirsSetCapacity c newCapacity) :=
  ⟨h.inv.shape.congr rfl rfl rfl rfl rfl rfl rfl rfl, h.inv.blocks, h.inv.lir, h.inv.hir⟩

theorem LirsInv.demoteOff (h : LirsInv c) (hl : c.sStack.getLast? = some p)
    (ht : (c.block p).type = .lir) :
    LirsInv (lirsDemoteOff c p) ∧ SameConfig c (lirsDemoteOff c p) ∧
      (lirsDemoteOff c p).sStack = c.sStack.dropLast ∧
      (lirsDemoteOff c p).stats.lirCount + 1 = c.stats.lirCount ∧
      (lirsDemoteOff c p).types = Function.update c.types p .hirResident := by
  obtain ⟨h1, h2, -, h4, h5, -, h7⟩ := h.demoteLir (List.mem_of_getLast? hl) ht
  have hs : p ∈ (lirsDemoteLir c p).sStack := by
    rw [h4]
    exact List.mem_of_getLast? hl
  have htype : ((lirsDemoteLir c p).block p).type = .hirResident :=
    (congrFun h7 p).trans (Function.update_self ..)
  refine ⟨h1.delS hs htype, ⟨h2.capacity, h2.hirCapacity⟩, ?_, h5, ?_⟩
  · show (lirsDemoteLir c p).sStack.erase p = _
    rw [h4, erase_getLast h.shape.sNodup hl]
  · exact (types_delS _ p).trans h7

/-- Demoting the bottom leaves the types of the blocks above it. -/
theorem LirsInv.lir_dropLast_iff (h : LirsInv c) (hl : c.sStack.getLast? = some p)
    (ht : (c.block p).type = .lir) (k : ℕ) :
    (∀ q ∈ c.sStack.rtake (k + 1), (c.block q).type = .lir) ↔
      ∀ q ∈ (lirsDemoteOff c p).sStack.rtake k, ((lirsDemoteOff c p).block q).type = .lir := by
  obtain ⟨-, -, hs, -, htypes⟩ := h.demoteOff hl ht
  obtain ⟨init, hinit⟩ := List.getLast?_eq_some_iff.mp hl
  have hnd := h.shape.sNodup
  rw [hinit] at hnd
  have hkeep : ∀ q ∈ init.rtake k, ((lirsDemoteOff c p).block q).type = (c.block q).type := by
    intro q hq
    have hne : q ≠ p := by
      rintro rfl
      exact (List.nodup_append.mp hnd).2.2 q (List.mem_of_mem_drop hq) q
        (List.mem_singleton_self q) rfl
    exact (congrFun htypes q).trans (Function.update_of_ne hne _ _)
  rw [hs, hinit, List.dropLast_concat, List.rtake_concat_succ]
  constructor
  · intro hall q hq
    rw [hkeep q hq]
    exact hall q (List.mem_append_left _ hq)
  · intro hall q hq
    rcases List.mem_append.mp hq with hq | hq
    · rw [← hkeep q hq]
      exact hall q hq
    · rw [List.mem_singleton.mp hq, ht]

theorem LirsInv.exists_bottom (h : LirsInv c) (hpos : 0 < c.stats.lirCount) :
    ∃ q, c.sStack.getLast? = some q := by
  cases hl : c.sStack.getLast? with
  | some q => exact ⟨q, rfl⟩
  | none =>
    have hle := h.lirCount_le
    rw [List.getLast?_eq_none_iff.mp hl, List.length_nil] at hle
    omega

/-- The loop ends when the blocks that it has to demote are LIR; it demotes just these. -/
theorem LirsInv.resizeLoop_ends (h : LirsInv c) {k : ℕ}
    (hk : c.stats.lirCount - subW c.capacity c.hirCapacity = k)
    (hall : ∀ q ∈ c.sStack.rtake k, (c.block q).type = .lir) :
    ∃ c', lirsResizeLoop (k + 1) c = some c' ∧ LirsInv c' ∧ SameConfig c c' ∧
      c'.stats.lirCount ≤ subW c.capacity c.hirCapacity := by
  induction k generalizing c with
  | zero =>
    have hle : ¬ subW c.capacity c.hirCapacity < c.stats.lirCount := by omega
    exact ⟨c, if_neg hle, h, SameConfig.refl c, by omega⟩
  | succ k ih =>
    obtain ⟨p, hl⟩ := h.exists_bottom (by omega)
    obtain ⟨init, hinit⟩ := List.getLast?_eq_some_iff.mp hl
    have hp : p ∈ c.sStack.rtake (k + 1) := by
      rw [hinit, List.rtake_concat_succ]
      exact List.mem_append_right _ (List.mem_singleton_self p)
    have ht := hall p hp
    obtain ⟨hinv, hcfg, -, hcount, -⟩ := h.demoteOff hl ht
    have hbound : subW (lirsDemoteOff c p).capacity (lirsDemoteOff c p).hirCapacity =
        subW c.capacity c.hirCapacity := by rw [hcfg.capacity, hcfg.hirCapacity]
    obtain ⟨c', h1, h2, h3, h4⟩ := ih hinv (by rw [hbound]; omega)
      ((h.lir_dropLast_iff hl ht k).mp hall)
    refine ⟨c', ?_, h2, hcfg.trans h3, hbound ▸ h4⟩
    rw [lirsResizeLoop, if_pos (by omega), hl]
    dsimp only
    rw [if_pos ht, h1]

/-- A loop that has ended found nothing but LIR blocks at the bottom. -/
theorem LirsInv.resizeLoop_lir (h : LirsInv c) {rounds : ℕ} {c' : LirsCache}
    (hend : lirsResizeLoop rounds c = some c') :
    ∀ q ∈ c.sStack.rtake (c.stats.lirCount - subW c.capacity c.hirCapacity),
      (c.block q).type = .lir := by
  induction rounds generalizing c with
  | zero => exact absurd hend (by simp [lirsResizeLoop])
  | succ n ih =>
    by_cases hover : subW c.capacity c.hirCapacity < c.stats.lirCount
    · obtain ⟨p, hl⟩ := h.exists_bottom (by omega)
      rw [lirsResizeLoop, if_pos hover, hl] at hend
      dsimp only at hend
      by_cases ht : (c.block p).type = .lir
      · rw [if_pos ht] at hend
        obtain ⟨hinv, hcfg, -, hcount, -⟩ := h.demoteOff hl ht
        have hrest := ih hinv hend
        rw [hcfg.capacity, hcfg.hirCapacity] at hrest
        have hk : c.stats.lirCount - subW c.capacity c.hirCapacity =
          (lirsDemoteOff c p).stats.lirCount - subW c.capacity c.hirCapacity + 1 := by omega
        rw [hk]
        exact (h.lir_dropLast_iff hl ht _).mpr hrest
      · -- the state is the same after this round
        rw [if_neg ht] at hend
        exact ih h hend
    · rw [Nat.sub_eq_zero_of_le (by omega), List.rtake_zero]
      simp

theorem LirsInv.resizeLoop_upkeep (h : LirsInv c) {rounds : ℕ} {c' : LirsCache}
    (hend : lirsResizeLoop rounds c = some c') : LirsInv c' ∧ SameConfig c c' ∧ Upkeep c c' := by
  induction rounds generalizing c with
  | zero => exact absurd hend (by simp [lirsResizeLoop])
  | succ n ih =>
    by_cases hover : subW c.capacity c.hirCapacity < c.stats.lirCount
    · obtain ⟨p, hl⟩ := h.exists_bottom (by omega)
      rw [lirsResizeLoop, if_pos hover, hl] at hend
      dsimp only at hend
      by_cases ht : (c.block p).type = .lir
      · rw [if_pos ht] at hend
        obtain ⟨hinv, hcfg, -⟩ := h.demoteOff hl ht
        have hup : Upkeep c (lirsDemoteOff c p) := by
          have hup := upkeep_demoteBottom c
          rw [lirsDemoteBottom, hl] at hup
          dsimp only at hup
          rw [if_pos ht] at hup
          exact hup
        obtain ⟨h1, h2, h3⟩ := ih hinv hend
        exact ⟨h1, hcfg.trans h2, hup.trans h3⟩
      · rw [if_neg ht] at hend
        exact ih h hend
    · rw [lirsResizeLoop, if_neg hover] at hend
      obtain rfl := Option.some.inj hend
      exact ⟨h, SameConfig.refl c, Upkeep.refl c⟩

/-- A `lirs_resize` that ends is upkeep. -/
theorem LirsReady.resize (h : LirsReady c) {rounds newCapacity : ℕ} {c' : LirsCache}
    (hend : lirsResize rounds c newCapacity = some c') : LirsReady c' ∧ Upkeep c c' := by
  obtain ⟨c1, hloop, rfl⟩ := Option.map_eq_some_iff.mp hend
  obtain ⟨hinv, hcfg, hup⟩ := (h.setCapacity newCapacity).resizeLoop_upkeep hloop
  obtain ⟨hinv', hcfg', -, hqueue⟩ := hinv.evict
  have hset : Upkeep c (lirsSetCapacity c newCapacity) :=
    Upkeep.quiet rfl rfl rfl rfl rfl fun _ => ⟨rfl, Iff.rfl⟩
  have hhir : (lirsEvictHir c1).hirCapacity = max (hirShare newCapacity) LIRS_MIN_HIR_BLOCKS :=
    hcfg'.hirCapacity.trans hcfg.hirCapacity
  refine ⟨⟨hinv', ?_, ?_⟩, hset.trans (hup.trans hinv.evictFrame.upkeep)⟩
  · rw [hcfg'.hirCapacity]
    exact hqueue
  · rw [hhir]
    exact lt_of_lt_of_le (by decide) (le_max_right _ _)

end

/-- **`lirs_resize` ends, within the new capacity, exactly when** the lowest blocks of S, as many as
there are LIR blocks too many, are all LIR. -/
theorem resize_terminates_iff {capacity maxSize : ℕ} {cacheOk tableOk : Bool} {c s : LirsCache}
    (hc : lirsCreate capacity maxSize cacheOk tableOk = some c) (callback : Bool)
    (ops : List LirsOp)
    (hfresh : Runs.Each LirsCache.step LirsOp.FreshMemory (lirsSetEvictCallback c callback) ops)
    (hs : s = Runs.after LirsCache.step (lirsSetEvictCallback c callback) ops)
    {newCapacity hirCapacity : ℕ} (hword : newCapacity < wordSize)
    (hhir : hirCapacity = max (hirShare newCapacity) LIRS_MIN_HIR_BLOCKS)
    (hcap : hirCapacity < newCapacity) :
    (∃ rounds s', lirsResize rounds s newCapacity = some s' ∧
        s'.stats.lirCount ≤ newCapacity - hirCapacity ∧ s'.qQueueSize ≤ hirCapacity) ↔
      ∀ p ∈ s.sStack.rtake (s.stats.lirCount - (newCapacity - hirCapacity)),
        (s.block p).type = .lir := by
  have hready : LirsReady s := by
    rw [hs]
    exact (lirsCreate_ready hc callback).after hfresh
  subst hhir
  have hset := hready.setCapacity newCapacity
  have hbound : subW (lirsSetCapacity s newCapacity).capacity
      (lirsSetCapacity s newCapacity).hirCapacity =
        newCapacity - max (hirShare newCapacity) LIRS_MIN_HIR_BLOCKS :=
    subW_eq hcap.le hword
  constructor
  · rintro ⟨rounds, s', hend, -, -⟩
    obtain ⟨c', hloop, -⟩ := Option.map_eq_some_iff.mp hend
    have hlir := hset.resizeLoop_lir hloop
    rw [hbound] at hlir
    exact hlir
  · intro hall
    obtain ⟨c', hloop, hinv, hcfg, hcount⟩ :=
      hset.resizeLoop_ends (by rw [hbound]; rfl) hall
    obtain ⟨hinv', -, hlir, hqueue⟩ := hinv.evict
    refine ⟨_, lirsEvictHir c', by rw [lirsResize, hloop]; rfl, ?_, ?_⟩
    · rw [hlir, ← hbound]
      exact hcount
    · rw [hinv'.shape.qSize]
      exact hqueue.trans (le_of_eq hcfg.hirCapacity)

/-- A cache with one LIR block is made smaller. -/
theorem resize_terminates_run :
    let s := Runs.after LirsCache.step
      (lirsSetEvictCallback ((lirsCreate 5 1000 true true).get rfl) false)
      [.put 16 1 1 (some 100)]
    (∃ rounds s', lirsResize rounds s 4 = some s' ∧ s'.stats.lirCount ≤ 4 - 2 ∧
        s'.qQueueSize ≤ 2) ↔
      ∀ p ∈ s.sStack.rtake (s.stats.lirCount - (4 - 2)), (s.block p).type = .lir := by
  refine resize_terminates_iff (Option.some_get _).symm false _ ?_ rfl (by decide)
    (by decide +kernel) (by decide)
  refine ⟨fun p hp => ?_, trivial⟩
  cases hp
  decide

/-- The cache has three LIR blocks and S is `[300, 200, 400, 100]`, where `400` is HIR resident.  The
capacity of 3 admits one LIR block: `100` is demoted, and the loop stays at `400`. -/
theorem resize_never_ends :
    ∃ c, lirsCreate 5 1000 true true = some c ∧ ∃ ops : List LirsOp,
      Runs.Each LirsCache.step LirsOp.FreshMemory (lirsSetEvictCallback c false) ops ∧
        max (hirShare 3) LIRS_MIN_HIR_BLOCKS < 3 ∧
        ¬ ∃ rounds s', lirsResize rounds
          (Runs.after LirsCache.step (lirsSetEvictCallback c false) ops) 3 = some s' := by
  have hfresh : Runs.Each LirsCache.step LirsOp.FreshMemory
      (lirsSetEvictCallback ((lirsCreate 5 1000 true true).get rfl) false)
      [.put 16 1 1 (some 100), .put 32 2 1 (some 200), .put 48 3 1 (some 300),
        .put 64 4 1 (some 400), .get 32, .get 48] := by
    refine ⟨?_, ?_, ?_, ?_, trivial, trivial, trivial⟩
    all_goals
      intro p hp
      cases hp
      decide +kernel
  have hready := (lirsCreate_ready (Option.some_get _).symm false).after hfresh
  refine ⟨_, (Option.some_get _).symm, _, hfresh, by decide +kernel, ?_⟩
  rintro ⟨rounds, s', hend⟩
  obtain ⟨c', hloop, -⟩ := Option.map_eq_some_iff.mp hend
  have hlir := (hready.setCapacity 3).resizeLoop_lir hloop 400 (by decide +kernel)
  revert hlir
  decide +kernel

end Nomalloc
