import Nomalloc.Gc.RegionLists

/-!
# `gc_region_manager_get_available_regions`

The slots of the array that hold no region yet, and the free regions.  `gc_region_alloc` uses up the
free regions first, and then the slots; each call that returns a region lowers the count by one.

* `gcRegionManagerGetAvailableRegions`
* `GcRegionOp.Allowed`       the calls of a history; a free region may be aged as well;
* `gcRegionAllocs`           calls of `gc_region_alloc`, one after the other;
* `available_step`           one call returns a region not in use, or the count is 0 and it is NULL;
* `available_allocs_return`  as many calls as the count says return regions, and the next one NULL.
-/

namespace Nomalloc

/-- `gc_region_manager_get_available_regions`, an `int` computed in `size_t`. -/
def gcRegionManagerGetAvailableRegions (m : GcRegionManager) : ℤ :=
  Int.bmod ((m.maxRegions : ℤ) - m.numRegions + m.regionCount .empty) (2 ^ 32)

/-- A region of one of the five types of regions in use. -/
def GcRegionManager.InUse (m : GcRegionManager) (p : ℕ) : Prop :=
  p ∈ m.created ∧ (m.region p).type ≠ .empty

/-- The calls of a history: regions in use are freed, and any region is aged. -/
def GcRegionOp.Allowed (m : GcRegionManager) : GcRegionOp → Prop
  | .alloc type env => type ≠ .empty ∧ ∀ p, env.addr = some p → p ≠ 0 ∧ p ∉ m.created
  | .free p => m.InUse p
  | .age p => p = 0 ∨ p ∈ m.created

/-- `gc_region_create` succeeds, with memory that is not in use. -/
structure RegionEnv.Creates (env : RegionEnv) (m : GcRegionManager) : Prop where
  addr : ∃ p, env.addr = some p ∧ p ≠ 0 ∧ p ∉ m.created
  base : ∃ base, env.base = some base
  bitmaps : env.markingOk = true ∧ env.liveOk = true

/-- `gc_region_alloc`, once for each type, with what the calls return. -/
def gcRegionAllocs (m : GcRegionManager) :
    List (GcRegionType × RegionEnv) → GcRegionManager × List (Option ℕ)
  | [] => (m, [])
  | (type, env) :: calls =>
    let (m, p) := gcRegionAlloc m type env
    let (m, ps) := gcRegionAllocs m calls
    (m, p :: ps)

/-- Regions of types in use are asked for, and all that have to be created are. -/
def AllocsGranted (m : GcRegionManager) (calls : List (GcRegionType × RegionEnv)) : Prop :=
  Runs.Each (fun m call => (gcRegionAlloc m call.1 call.2).1)
    (fun m call => call.1 ≠ .empty ∧ call.2.Creates m) m calls

/-- What the count counts. -/
def freeSlots (m : GcRegionManager) (lists : GcRegionType → List ℕ) : ℕ :=
  GC_MAX_REGIONS - m.created.length + (lists .empty).length

section
variable {m m' : GcRegionManager} {lists lists' : GcRegionType → List ℕ} {p q : ℕ}
  {t : GcRegionType} {env : RegionEnv}

theorem listsOk_step (m : GcRegionManager) (op : GcRegionOp) (h : ∃ lists, ListsOk m lists)
    (ha : op.Allowed m) : ∃ lists, ListsOk (m.step op) lists := by
  cases op with
  | alloc type env => exact region_inv_step m (.alloc type env) h ha
  | free p => exact region_inv_step m (.free p) h ha
  | age p =>
    obtain ⟨lists, hinv, hu⟩ := h
    rcases ha with rfl | hp
    · exact ⟨lists, hinv, hu⟩
    · exact hinv.age hu hp

/-- The count, while it fits an `int`. -/
theorem available_eq (h : RegionInv m lists none) :
    gcRegionManagerGetAvailableRegions m = freeSlots m lists := by
  have hnum := h.num
  have hmax := h.max
  have hle := h.created_le
  have hlen := h.length_le .empty
  have hlimit : GC_MAX_REGIONS = 1024 := rfl
  unfold gcRegionManagerGetAvailableRegions freeSlots
  rw [h.count, hnum, hmax, hlimit]
  generalize (lists .empty).length = n at hlen
  generalize m.created.length = k at hle hlen
  have hcount : ((1024 : ℕ) : ℤ) - k + n = ((1024 - k + n : ℕ) : ℤ) := by omega
  rw [hcount]
  exact Int.bmod_eq_of_le (by omega) (by omega)

/-- A call that returns a region: it was not in use, and is now. -/
structure Returns (m m' : GcRegionManager) (p : ℕ) : Prop where
  fresh : ¬ m.InUse p
  inUse : ∀ q, m'.InUse q ↔ q = p ∨ m.InUse q

theorem alloc_returns (h : RegionInv m lists none) (ht : t ≠ .empty)
    (hfresh : ∀ p, env.addr = some p → p ∉ m.created) (hp : (gcRegionAlloc m t env).2 = some p) :
    Returns m (gcRegionAlloc m t env).1 p := by
  rcases h.typeLists.alloc_record t env with he | ⟨p', r, hp', hregion, htype, -, -, hcase⟩
  · rw [he] at hp
    exact absurd hp (by simp)
  obtain rfl : p' = p := Option.some.inj (hp'.symm.trans hp)
  have hmem : p' ∈ (gcRegionAlloc m t env).1.created ∧
      ∀ q, q ≠ p' → (q ∈ (gcRegionAlloc m t env).1.created ↔ q ∈ m.created) := by
    rcases hcase with hre | hnew
    · rw [hre.created]
      exact ⟨hre.free.1, fun _ _ => Iff.rfl⟩
    · rw [hnew.created]
      refine ⟨List.mem_append_right _ (List.mem_singleton_self p'), fun q hq => ?_⟩
      rw [List.mem_append, List.mem_singleton]
      exact or_iff_left hq
  refine ⟨fun huse => ?_, fun q => ?_⟩
  · rcases hcase with hre | hnew
    · exact huse.2 hre.free.2
    · exact hfresh p' hnew.addr huse.1
  · unfold GcRegionManager.InUse
    rw [hregion]
    by_cases hq : q = p'
    · subst hq
      rw [Function.update_self, htype]
      exact ⟨fun _ => Or.inl rfl, fun _ => ⟨hmem.1, ht⟩⟩
    · rw [Function.update_of_ne hq, hmem.2 q hq]
      exact (or_iff_right hq).symm

theorem alloc_none (h : RegionInv m lists none) (hzero : freeSlots m lists = 0)
    (t : GcRegionType) (env : RegionEnv) : gcRegionAlloc m t env = (m, none) := by
  have hmax := h.max
  have hnum := h.num
  have hlimit : GC_MAX_REGIONS = 1024 := rfl
  unfold freeSlots at hzero
  rcases h.typeLists.alloc_cases t env with ⟨p, ps, hl, -⟩ | ⟨-, hlt, -⟩ | ⟨-, -, he⟩
  · rw [hl, List.length_cons] at hzero
    omega
  · omega
  · exact he

/-- **One call** while something is left: a region not in use is returned, and the count falls by
one. -/
theorem available_step (h : ListsOk m lists) (hpos : 0 < freeSlots m lists) (ht : t ≠ .empty)
    (henv : env.Creates m) : ∃ m' p lists', gcRegionAlloc m t env = (m', some p) ∧
      Returns m m' p ∧ ListsOk m' lists' ∧ freeSlots m' lists' + 1 = freeSlots m lists := by
  obtain ⟨hinv, hu⟩ := h
  obtain ⟨fresh, haddr, hp0, hnew⟩ := henv.addr
  have hreturns : ∀ m' p, gcRegionAlloc m t env = (m', some p) → Returns m m' p := by
    intro m' p he
    have hone := alloc_returns (p := p) hinv ht
      (fun q hq => Option.some.inj (haddr.symm.trans hq) ▸ hnew) (by rw [he])
    rwa [he] at hone
  have hmax := hinv.max
  have hnum := hinv.num
  have hlimit : GC_MAX_REGIONS = 1024 := rfl
  unfold freeSlots at hpos
  rcases hinv.typeLists.alloc_cases t env with
    ⟨p, ps, hl, he⟩ | ⟨hnil, hlt, p, r, hc, he⟩ | ⟨hnil, hfail, he⟩
  · -- the first free region
    obtain ⟨-, -, hsame, -⟩ := gcRegionSetup_record (m.unlist p .empty) t p
    refine ⟨_, p, _, he, hreturns _ _ he, hinv.reuse hu t hl, ?_⟩
    unfold freeSlots
    rw [hsame, Function.update_of_ne (Ne.symm ht), Function.update_self, hl, List.length_cons]
    rfl
  · -- a new region
    obtain ⟨⟨haddr', -⟩, hsize, -⟩ := gcRegionCreate_record hc
    obtain rfl : fresh = p := Option.some.inj (haddr.symm.trans haddr')
    obtain ⟨-, -, hsame, -⟩ := gcRegionSetup_record (m.addCreated fresh r) t fresh
    have hcreated : (m.addCreated fresh r).created = m.created ++ [fresh] := rfl
    refine ⟨_, fresh, _, he, hreturns _ _ he, hinv.add hu t hp0 hnew hsize hlt, ?_⟩
    unfold freeSlots
    rw [hsame, hcreated, Function.update_of_ne (Ne.symm ht), List.length_append,
      List.length_singleton]
    omega
  · -- `gc_region_create` does not fail
    exfalso
    rw [hnil, List.length_nil] at hpos
    have hnone := hfail (by omega)
    obtain ⟨base, hbase⟩ := henv.base
    unfold gcRegionCreate at hnone
    rw [haddr, hbase, henv.bitmaps.1, henv.bitmaps.2] at hnone
    exact absurd hnone (by simp)

/-- As many calls as there is left. -/
theorem allocs_return {calls : List (GcRegionType × RegionEnv)} (h : ListsOk m lists)
    (hlen : calls.length = freeSlots m lists) (hgranted : AllocsGranted m calls) :
    ∃ (ps : List ℕ) (lists' : GcRegionType → List ℕ), (gcRegionAllocs m calls).2 = ps.map some ∧
      ps.Nodup ∧ (∀ p ∈ ps, ¬ m.InUse p) ∧ ListsOk (gcRegionAllocs m calls).1 lists' ∧
      freeSlots (gcRegionAllocs m calls).1 lists' = 0 := by
  induction calls generalizing m lists with
  | nil => exact ⟨[], lists, rfl, List.nodup_nil, fun _ hp => absurd hp List.not_mem_nil, h,
      hlen.symm⟩
  | cons call calls ih =>
    obtain ⟨type, env⟩ := call
    obtain ⟨⟨ht, henv⟩, hrest⟩ := hgranted
    rw [List.length_cons] at hlen
    obtain ⟨m', p, lists', he, hreturns, hok, hcount⟩ := available_step h (by omega) ht henv
    dsimp only at hrest
    rw [he] at hrest
    obtain ⟨ps, lists'', hps, hnd, hfresh, hok', hzero⟩ := ih hok (by omega) hrest
    have hrun : gcRegionAllocs m ((type, env) :: calls) =
        ((gcRegionAllocs m' calls).1, some p :: (gcRegionAllocs m' calls).2) := by
      rw [gcRegionAllocs, he]
    rw [hrun]
    refine ⟨p :: ps, lists'', by rw [hps, List.map_cons], ?_, fun q hq => ?_, hok', hzero⟩
    · exact List.nodup_cons.mpr
        ⟨fun hin => hfresh p hin ((hreturns.inUse p).mpr (Or.inl rfl)), hnd⟩
    · rcases List.mem_cons.mp hq with rfl | hq
      · exact hreturns.fresh
      · exact fun huse => hfresh q hq ((hreturns.inUse q).mpr (Or.inr huse))

end

/-- **`gc_region_manager_get_available_regions`** is exact: after any history, so many calls of
`gc_region_alloc` return different regions that were not in use, and the next call returns NULL. -/
theorem available_allocs_return (ops : List GcRegionOp)
    (hops : Runs.Each GcRegionManager.step GcRegionOp.Allowed gcRegionManagerInit ops) :
    let m := Runs.after GcRegionManager.step gcRegionManagerInit ops
    ∃ n : ℕ, gcRegionManagerGetAvailableRegions m = n ∧
      ∀ calls : List (GcRegionType × RegionEnv), calls.length = n → AllocsGranted m calls →
        (∃ ps : List ℕ, (gcRegionAllocs m calls).2 = ps.map some ∧ ps.Nodup ∧
          ∀ p ∈ ps, ¬ m.InUse p) ∧
        ∀ type env, (gcRegionAlloc (gcRegionAllocs m calls).1 type env).2 = none := by
  intro m
  obtain ⟨lists, hok⟩ : ∃ lists, ListsOk m lists :=
    Runs.inv_after listsOk_step ⟨_, gcRegionManagerInit_inv⟩ hops
  refine ⟨freeSlots m lists, available_eq hok.1, fun calls hlen hgranted => ?_⟩
  obtain ⟨ps, lists', hps, hnd, hfresh, hok', hzero⟩ := allocs_return hok hlen hgranted
  refine ⟨⟨ps, hps, hnd, hfresh⟩, fun type env => ?_⟩
  rw [alloc_none hok'.1 hzero type env]

theorem exists_allocsGranted (m : GcRegionManager) (n : ℕ) :
    ∃ calls : List (GcRegionType × RegionEnv), calls.length = n ∧ AllocsGranted m calls := by
  induction n generalizing m with
  | zero => exact ⟨[], rfl, trivial⟩
  | succ n ih =>
    obtain ⟨p, hp⟩ := Infinite.exists_notMem_finset (insert 0 m.created.toFinset)
    obtain ⟨hp0, hp⟩ := not_or.mp (mt Finset.mem_insert.mpr hp)
    obtain ⟨env, henv⟩ : ∃ env : RegionEnv, env = ⟨some p, some 0x200000, true, true⟩ := ⟨_, rfl⟩
    obtain ⟨calls, hlen, hgranted⟩ := ih (gcRegionAlloc m .young env).1
    refine ⟨(.young, env) :: calls, congrArg (· + 1) hlen, ⟨GcRegionType.noConfusion, ?_⟩, hgranted⟩
    rw [henv]
    exact ⟨⟨p, rfl, hp0, fun hin => hp (List.mem_toFinset.mpr hin)⟩, ⟨_, rfl⟩, rfl, rfl⟩

/-- After a region was created and freed. -/
theorem available_allocs_return_freed :
    let m := Runs.after GcRegionManager.step gcRegionManagerInit
      [.alloc .young ⟨some 100, some 0x200000, true, true⟩, .free 100, .age 100]
    ∃ (calls : List (GcRegionType × RegionEnv)) (ps : List ℕ),
      gcRegionManagerGetAvailableRegions m = calls.length ∧ AllocsGranted m calls ∧
        (gcRegionAllocs m calls).2 = ps.map some ∧ ps.Nodup ∧ (∀ p ∈ ps, ¬ m.InUse p) ∧
        ∀ type env, (gcRegionAlloc (gcRegionAllocs m calls).1 type env).2 = none := by
  intro m
  obtain ⟨n, hn, hcalls⟩ := available_allocs_return
    [.alloc .young ⟨some 100, some 0x200000, true, true⟩, .free 100, .age 100]
    ⟨⟨by decide, fun p hp => by cases hp; exact ⟨by decide, by decide⟩⟩, ⟨by decide, by decide⟩,
      Or.inr (by decide), trivial⟩
  obtain ⟨calls, hlen, hgranted⟩ := exists_allocsGranted m n
  obtain ⟨⟨ps, hps, hnd, hfresh⟩, hnone⟩ := hcalls calls hlen hgranted
  exact ⟨calls, ps, by rw [hn, hlen], hgranted, hps, hnd, hfresh, hnone⟩

end Nomalloc
