import Nomalloc.Gc.Reclaim

/-!
# Registered objects and collections

A collection reclaims a region of `old_regions` whose live bytes are less than half of its allocated
ones.  `gc_register_object` adds to the allocated bytes alone; the live ones follow when the region
is marked, and `gc_collect_young` and `gc_collect_mixed` mark the young regions only.

* `Prepared m m'`        what marking and ageing leave alone;
* `gcRun_spec`           a collection marks, and reclaims the first regions that pass the test;
* `GcCall.Spares`        no region that holds an object is zeroed or freed;
* `collections_spare`    so it is while no region that holds an object is reclaimed.
-/

namespace Nomalloc

/-- `m'` is `m` with some regions marked or aged, and none promoted. -/
structure Prepared (m m' : GcRegionManager) : Prop where
  same : m' = { m with region := m'.region }
  record : ∀ q, (m'.region q).id = (m.region q).id ∧ (m'.region q).type = (m.region q).type
  place : ∀ q, (m'.region q).baseAddr = (m.region q).baseAddr ∧
    (m'.region q).size = (m.region q).size
  bytes : ∀ q, (m'.region q).allocatedBytes = (m.region q).allocatedBytes ∧
    ((m'.region q).liveBytes = (m.region q).liveBytes ∨
      (m'.region q).liveBytes = (m.region q).allocatedBytes)

/-- The four collections. -/
inductive GcKind where
  | young
  | mixed
  | full
  | collect
deriving DecidableEq

def gcRun : GcKind → ℕ → Gc → Option (Gc × ℤ)
  | .young => gcCollectYoung
  | .mixed => gcCollectMixed
  | .full => gcCollectFull
  | .collect => gcCollect

/-- How many regions a collection reclaims at most. -/
def GcKind.maxRegions : GcKind → ℕ
  | .young => 5
  | .mixed => 15
  | .full => 50
  | .collect => 10

/-- An old region, as the collection reclaims it: it is marked by two of them. -/
def GcKind.seen : GcKind → GcRegion → GcRegion
  | .young, r | .mixed, r => r
  | .full, r | .collect, r => r.marked

/-- The regions of `old_regions` that a collection reclaims. -/
def GcKind.reclaims (k : GcKind) (m : GcRegionManager) (lists : GcRegionType → List ℕ) : List ℕ :=
  ((lists .old).filter fun p => (k.seen (m.region p)).reclaimable).take k.maxRegions

/-! ## marking and ageing -/

section
variable {g g' g'' : Gc} {m m' m'' : GcRegionManager} {lists : GcRegionType → List ℕ} {p q : ℕ}
  {rounds : ℕ}

namespace Prepared

theorem refl (m : GcRegionManager) : Prepared m m :=
  ⟨rfl, fun _ => ⟨rfl, rfl⟩, fun _ => ⟨rfl, rfl⟩, fun _ => ⟨rfl, Or.inl rfl⟩⟩

theorem trans (h : Prepared m m') (h' : Prepared m' m'') : Prepared m m'' := by
  refine ⟨?_, fun q => ?_, fun q => ?_, fun q => ?_⟩
  · rw [h'.same, h.same]
  · exact ⟨(h'.record q).1.trans (h.record q).1, (h'.record q).2.trans (h.record q).2⟩
  · exact ⟨(h'.place q).1.trans (h.place q).1, (h'.place q).2.trans (h.place q).2⟩
  · obtain ⟨ha, hl⟩ := h.bytes q
    obtain ⟨ha', hl'⟩ := h'.bytes q
    refine ⟨ha'.trans ha, ?_⟩
    rcases hl' with hl' | hl'
    · rw [hl']
      exact hl
    · exact Or.inr (hl'.trans ha)

theorem marked (h : MarkedFrom m m') : Prepared m m' := by
  refine ⟨h.same, fun q => ?_, fun q => ?_, fun q => ?_⟩
  all_goals rcases h.region q with he | ⟨-, he⟩
  all_goals rw [he]
  · exact ⟨rfl, rfl⟩
  · exact ⟨rfl, rfl⟩
  · exact ⟨rfl, rfl⟩
  · exact ⟨rfl, rfl⟩
  · exact ⟨rfl, Or.inl rfl⟩
  · exact ⟨rfl, Or.inr rfl⟩

theorem age (hp : p ≠ 0) (ht : (m.region p).type = .young) (hage : (m.region p).nextAge ≤ 1) :
    Prepared m (gcRegionAge m p) := by
  rw [gcRegionAge_young hp ht hage]
  refine ⟨rfl, fun q => ?_, fun q => ?_, fun q => ?_⟩
  all_goals
    show _ = _ ∧ _
    unfold GcRegionManager.setRegion
    dsimp only
    by_cases hq : q = p
    · rw [hq, Function.update_self]
      simp
    · rw [Function.update_of_ne hq]
      simp

theorem listsOk (h : Prepared m m') (hl : ListsOk m lists) : ListsOk m' lists := by
  rw [h.same]
  refine ⟨⟨hl.1.circ, fun t q => ?_, hl.1.count, hl.1.nodup, hl.1.registry, hl.1.num, hl.1.numLe,
    hl.1.max, fun i q hq => ?_, hl.1.total⟩, hl.2⟩
  · show _ ↔ _ ∧ (m'.region q).type = t ∧ _
    rw [(h.record q).2]
    exact hl.1.mem t q
  · show _ ∧ (m'.region q).id = i ∧ (m'.region q).size = _
    rw [(h.record q).1, (h.place q).2]
    exact hl.1.record i q hq

end Prepared

/-! ## a collection -/

theorem ListsOk.length_lt (h : ListsOk m lists) (hr : GC_MAX_REGIONS < rounds) (t : GcRegionType) :
    (lists t).length < rounds :=
  lt_of_le_of_lt ((h.1.length_le t).trans h.1.created_le) hr

theorem foldl_gcMarkRegion_flags (ps : List ℕ) (g : Gc) :
    SameFlags g (ps.foldl gcMarkRegion g) := by
  induction ps generalizing g with
  | nil => exact SameFlags.refl g
  | cons p ps ih =>
    have hone : SameFlags g (gcMarkRegion g p) := by
      unfold gcMarkRegion
      split_ifs <;> exact ⟨rfl, rfl, rfl⟩
    exact hone.trans (ih _)

/-- What a collection has done before it reclaims: the old regions are as `seen`. -/
structure Readied (g g' : Gc) (lists : GcRegionType → List ℕ) (seen : GcRegion → GcRegion) :
    Prop where
  flags : SameFlags g g'
  prepared : Prepared g.manager g'.manager
  old : ∀ q ∈ lists .old, g'.manager.region q = seen (g.manager.region q)

theorem gcMarkAllRegions_readied (hloop : gcMarkAllRegions rounds g = some g')
    (h : ListsOk g.manager lists) (hr : GC_MAX_REGIONS < rounds) : Readied g g' lists GcRegion.marked := by
  have hcons := h.1.consistent h.2
  rw [gcMarkAllRegions_spec hcons (h.length_lt hr)] at hloop
  obtain rfl := Option.some.inj hloop
  obtain ⟨hmarked, hall⟩ := foldl_gcMarkRegion (markedRegions lists) g
  refine ⟨foldl_gcMarkRegion_flags _ g, Prepared.marked hmarked, fun q hq => ?_⟩
  obtain ⟨hcreated, htype⟩ := (hcons.listed .old q).mp hq
  refine hall q (List.mem_append_right _ hq) (fun h0 => hcons.nonNull (h0 ▸ hcreated)) ?_
  rw [htype]
  decide

theorem youngLoop_readied {body : Gc → ℕ → Gc} (hb : AgesYoung body)
    (hbody : ∀ g p, p ≠ 0 → (g.manager.region p).type = .young →
      (g.manager.region p).nextAge ≤ 1 →
        SameFlags g (body g p) ∧ Prepared g.manager (body g p).manager)
    {r : List GcNode × Gc} (hloop : gcForEachRegion .young body rounds g = some r)
    (h : ListsOk g.manager lists) (hr : GC_MAX_REGIONS < rounds) : Readied g r.2 lists id := by
  have hcons := h.1.consistent h.2
  have hfold := ageLoop_fold (P := fun g' => SameFlags g g' ∧ Prepared g.manager g'.manager ∧
      ∀ q, (g.manager.region q).type ≠ .young → g'.manager.region q = g.manager.region q)
    hb hcons (ageLoop_stays hb hcons hloop) ?_ ⟨SameFlags.refl g, Prepared.refl _, fun _ _ => rfl⟩
    (h.length_lt hr .young)
  · obtain ⟨hfold, hflags, hprep, hother⟩ := hfold
    rw [hloop] at hfold
    obtain rfl := Option.some.inj hfold
    refine ⟨hflags, hprep, fun q hq => hother q ?_⟩
    rw [((hcons.listed .old q).mp hq).2]
    decide
  · rintro g' p - hp0 ht hage ⟨hflags, hprep, hother⟩
    obtain ⟨hf, hp⟩ := hbody g' p hp0 ht hage
    refine ⟨hflags.trans hf, hprep.trans hp, fun q hq => ?_⟩
    have hne : q ≠ p := by
      rintro rfl
      exact hq ((hprep.record q).2.symm.trans ht)
    exact (hb.other g' p q hne).trans (hother q hq)

theorem gcMarkAgeYoung_readied {r : List GcNode × Gc} (hloop : gcMarkAgeYoung rounds g = some r)
    (h : ListsOk g.manager lists) (hr : GC_MAX_REGIONS < rounds) : Readied g r.2 lists id := by
  refine youngLoop_readied markAge_agesYoung (fun g p hp ht hage => ?_) hloop h hr
  have hspec := gcMarkRegion_spec g p
  obtain ⟨htype, hnext, -⟩ := hspec.fields p
  have haged : Prepared (gcMarkRegion g p).manager (gcRegionAge (gcMarkRegion g p).manager p) := by
    refine Prepared.age hp (htype.trans ht) ?_
    unfold GcRegion.nextAge
    rw [hnext]
    exact hage
  have hflags := foldl_gcMarkRegion_flags [p] g
  exact ⟨⟨hflags.initialized, hflags.active, hflags.mixed⟩, (Prepared.marked hspec).trans haged⟩

theorem gcAgeYoung_readied {r : List GcNode × Gc} (hloop : gcAgeYoung rounds g = some r)
    (h : ListsOk g.manager lists) (hr : GC_MAX_REGIONS < rounds) : Readied g r.2 lists id :=
  youngLoop_readied gcAge_agesYoung
    (fun _ _ hp ht hage => ⟨⟨rfl, rfl, rfl⟩, Prepared.age hp ht hage⟩) hloop h hr

/-- What a collection does: it marks and ages, and reclaims the regions it is to. -/
structure Collected (g g' : Gc) (lists : GcRegionType → List ℕ) (k : GcKind) : Prop where
  flags : SameFlags g g'
  kept : ∃ lists', ListsOk g'.manager lists'
  reclaimed : ∃ m, Prepared g.manager m ∧ ReclaimedAll m g'.manager (k.reclaims g.manager lists)

theorem Readied.reclaim {k : GcKind} {bytesFreed : ℕ} (h : Readied g g' lists k.seen)
    (hl : ListsOk g.manager lists) (hr : GC_MAX_REGIONS < rounds)
    (hrec : gcReclaimRegions rounds g' k.maxRegions = some (g'', bytesFreed)) :
    Collected g g'' lists k := by
  have hl' := h.prepared.listsOk hl
  obtain ⟨g3, freed, lists', hrec', hflags, hlists, hall⟩ :=
    gcReclaimRegions_spec hl' (hl'.length_lt hr .old) k.maxRegions
  rw [hrec] at hrec'
  obtain ⟨rfl, -⟩ := Prod.mk.inj (Option.some.inj hrec')
  have hfilter : ((lists .old).filter fun p => (g'.manager.region p).reclaimable) =
      (lists .old).filter fun p => (k.seen (g.manager.region p)).reclaimable :=
    List.filter_congr fun q hq => by rw [h.old q hq]
  rw [hfilter] at hall
  exact ⟨h.flags.trans hflags, ⟨lists', hlists⟩, g'.manager, h.prepared, hall⟩

theorem Readied.of_same {seen : GcRegion → GcRegion} (h : Readied g' g'' lists seen)
    (hm : g'.manager = g.manager) (hf : SameFlags g g') : Readied g g'' lists seen := by
  obtain ⟨hflags, hprep, hold⟩ := h
  rw [hm] at hprep hold
  exact ⟨hf.trans hflags, hprep, hold⟩

theorem Readied.set {seen : GcRegion → GcRegion} (h : Readied g g' lists seen)
    (hm : g''.manager = g'.manager) (hf : SameFlags g' g'') : Readied g g'' lists seen := by
  refine ⟨h.flags.trans hf, ?_, fun q hq => ?_⟩
  · rw [hm]
    exact h.prepared
  · rw [hm]
    exact h.old q hq

theorem Collected.set {k : GcKind} (h : Collected g g' lists k) (hm : g''.manager = g'.manager)
    (hf : SameFlags g' g'') : Collected g g'' lists k := by
  obtain ⟨hflags, hkept, hrec⟩ := h
  rw [← hm] at hkept hrec
  exact ⟨hflags.trans hf, hkept, hrec⟩

section
variable {code : ℤ} (h : ListsOk g.manager lists) (hon : (!g.initialized || !g.active) = false)
  (hr : GC_MAX_REGIONS < rounds)
include h hon hr

theorem gcCollectYoung_spec (hrun : gcCollectYoung rounds g = some (g', code)) :
    Collected g g' lists .young := by
  unfold gcCollectYoung at hrun
  rw [hon, if_neg Bool.false_ne_true] at hrun
  obtain ⟨r, hloop, hrun⟩ := Option.bind_eq_some_iff.mp hrun
  obtain ⟨⟨g2, freed⟩, hrec, he⟩ := Option.map_eq_some_iff.mp hrun
  obtain ⟨rfl, -⟩ := Prod.mk.inj he
  have hready : Readied g r.2 lists id :=
    Readied.of_same (gcMarkAgeYoung_readied hloop h hr) rfl ⟨rfl, rfl, rfl⟩
  have hcollected : Collected g g2 lists .young := hready.reclaim h hr hrec
  exact hcollected.set rfl ⟨rfl, rfl, rfl⟩

theorem gcCollectMixed_spec (hmixed : g.mixedGcEnabled = true)
    (hrun : gcCollectMixed rounds g = some (g', code)) : Collected g g' lists .mixed := by
  unfold gcCollectMixed at hrun
  rw [hon, if_neg Bool.false_ne_true, hmixed, Bool.not_true, if_neg Bool.false_ne_true] at hrun
  obtain ⟨r, hloop, hrun⟩ := Option.bind_eq_some_iff.mp hrun
  obtain ⟨⟨g2, freed⟩, hrec, he⟩ := Option.map_eq_some_iff.mp hrun
  obtain ⟨rfl, -⟩ := Prod.mk.inj he
  have hmarked : Readied g r.2 lists id :=
    Readied.of_same (gcMarkAgeYoung_readied hloop h hr) rfl ⟨rfl, rfl, hmixed.symm⟩
  have hready : Readied g { r.2 with phase := .mixedReclaim } lists id :=
    hmarked.set rfl ⟨rfl, rfl, rfl⟩
  have hcollected : Collected g g2 lists .mixed := hready.reclaim h hr hrec
  exact hcollected.set rfl ⟨rfl, rfl, rfl⟩

theorem gcCollectFull_spec (hrun : gcCollectFull rounds g = some (g', code)) :
    Collected g g' lists .full := by
  unfold gcCollectFull at hrun
  rw [hon, if_neg Bool.false_ne_true] at hrun
  obtain ⟨g1, hmark, hrun⟩ := Option.bind_eq_some_iff.mp hrun
  obtain ⟨r, hloop, hrun⟩ := Option.bind_eq_some_iff.mp hrun
  obtain ⟨⟨g2, freed⟩, hrec, he⟩ := Option.map_eq_some_iff.mp hrun
  obtain ⟨rfl, -⟩ := Prod.mk.inj he
  have hmarked : Readied g g1 lists GcRegion.marked :=
    Readied.of_same (gcMarkAllRegions_readied hmark h hr) rfl ⟨rfl, rfl, rfl⟩
  have haged := gcAgeYoung_readied hloop (hmarked.prepared.listsOk h) hr
  have hready : Readied g r.2 lists GcRegion.marked :=
    ⟨hmarked.flags.trans haged.flags, hmarked.prepared.trans haged.prepared,
      fun q hq => (haged.old q hq).trans (hmarked.old q hq)⟩
  have hcollected : Collected g g2 lists .full := hready.reclaim h hr hrec
  exact hcollected.set rfl ⟨rfl, rfl, rfl⟩

theorem gcCollect_spec (hrun : gcCollect rounds g = some (g', code)) :
    Collected g g' lists .collect := by
  unfold gcCollect at hrun
  rw [hon, if_neg Bool.false_ne_true] at hrun
  obtain ⟨g1, hmark, hrun⟩ := Option.bind_eq_some_iff.mp hrun
  obtain ⟨⟨g2, freed⟩, hrec, he⟩ := Option.map_eq_some_iff.mp hrun
  obtain ⟨rfl, -⟩ := Prod.mk.inj he
  have hmarked : Readied g g1 lists GcRegion.marked :=
    Readied.of_same (gcMarkAllRegions_readied hmark h hr) rfl ⟨rfl, rfl, rfl⟩
  have hready : Readied g { g1 with phase := .cleanup } lists GcRegion.marked :=
    hmarked.set rfl ⟨rfl, rfl, rfl⟩
  have hcollected : Collected g g2 lists .collect := hready.reclaim h hr hrec
  exact hcollected.set rfl ⟨rfl, rfl, rfl⟩

end

/-- **A collection** that comes to its end. -/
theorem gcRun_spec {k : GcKind} {code : ℤ} (h : ListsOk g.manager lists)
    (hinit : g.initialized = true) (hactive : g.active = true) (hmixed : g.mixedGcEnabled = true)
    (hr : GC_MAX_REGIONS < rounds) (hrun : gcRun k rounds g = some (g', code)) :
    Collected g g' lists k := by
  have hon : (!g.initialized || !g.active) = false := by
    rw [hinit, hactive]
    rfl
  cases k with
  | young => exact gcCollectYoung_spec h hon hr hrun
  | mixed => exact gcCollectMixed_spec h hon hr hmixed hrun
  | full => exact gcCollectFull_spec h hon hr hrun
  | collect => exact gcCollect_spec h hon hr hrun

end

/-! ## runs -/

/-- A collector, with the addresses that were registered. -/
structure GcHeap where
  gc : Gc
  objects : List ℕ

inductive GcCall where
  | alloc (type : GcRegionType) (env : RegionEnv)
  | register (ptr size : ℕ)
  | collect (k : GcKind) (rounds : ℕ)

namespace GcHeap

/-- After `gc_init`. -/
def init : GcHeap := ⟨gcInit Gc.zero, []⟩

/-- A collection that does not come to its end has no result; the run stays where it is. -/
def step (s : GcHeap) : GcCall → GcHeap
  | .alloc type env =>
    { s with gc := { s.gc with manager := (gcRegionAlloc s.gc.manager type env).1 } }
  | .register ptr size =>
    { gc := gcRegisterObject s.gc ptr size
      objects :=
        if ptr ≠ 0 ∧ (gcRegionGetByAddr s.gc.manager ptr).isSome then ptr :: s.objects
        else s.objects }
  | .collect k rounds =>
    match gcRun k rounds s.gc with
    | some (g, _) => { s with gc := g }
    | none => s

/-- The region holds a registered object. -/
def Holds (s : GcHeap) (p : ℕ) : Prop :=
  ∃ ptr ∈ s.objects, (s.gc.manager.region p).contains ptr = true

end GcHeap

/-- The memory of a new region is not in use. -/
structure RegionEnv.Fresh (env : RegionEnv) (m : GcRegionManager) : Prop where
  record : ∀ p, env.addr = some p → p ≠ 0 ∧ p ∉ m.created
  below : ∀ base, env.base = some base → base + GC_REGION_SIZE_DEFAULT < wordSize
  apart : ∀ base, env.base = some base → ∀ q ∈ m.created,
    base + GC_REGION_SIZE_DEFAULT ≤ (m.region q).baseAddr ∨
      (m.region q).baseAddr + (m.region q).size ≤ base

/-- What malloc and the kernel answer; a loop is given more rounds than a list has regions. -/
def GcCall.Legal (s : GcHeap) : GcCall → Prop
  | .alloc _ env => env.Fresh s.gc.manager
  | .register _ _ => True
  | .collect _ rounds => GC_MAX_REGIONS < rounds

/-- What is asked of a collection: it zeroes no byte of a region that holds an object, and frees no
such region. -/
def GcCall.Spares (s : GcHeap) : GcCall → Prop
  | .alloc _ _ | .register _ _ => True
  | .collect k rounds => ∀ p ∈ s.gc.manager.created, s.Holds p →
    (∀ z ∈ (s.step (.collect k rounds)).gc.manager.zeroed.drop s.gc.manager.zeroed.length,
      ∀ i < z.2, (s.gc.manager.region p).contains (addW z.1 i) = false) ∧
    ((s.gc.manager.region p).type ≠ .empty →
      ((s.step (.collect k rounds)).gc.manager.region p).type ≠ .empty)

/-- No region that holds an object is among those that the collection reclaims. -/
def GcCall.ReclaimsNoObject (s : GcHeap) : GcCall → Prop
  | .alloc _ _ | .register _ _ => True
  | .collect k _ => ∀ lists, s.gc.manager.Consistent lists →
    ∀ p ∈ k.reclaims s.gc.manager lists, ¬ s.Holds p

/-- Nothing changes but `allocated_bytes`. -/
structure SameButBytes (g g' : Gc) : Prop where
  flags : SameFlags g g'
  created : g'.manager.created = g.manager.created
  lists : ∀ lists, ListsOk g.manager lists → ListsOk g'.manager lists
  place : ∀ q, (g'.manager.region q).baseAddr = (g.manager.region q).baseAddr ∧
    (g'.manager.region q).size = (g.manager.region q).size
  stage : ∀ q, (g'.manager.region q).type = (g.manager.region q).type ∧
    (g'.manager.region q).age = (g.manager.region q).age
  live : ∀ q, (g'.manager.region q).liveBytes = (g.manager.region q).liveBytes

section
variable {g g' : Gc} {p : ℕ}

theorem SameButBytes.refl (g : Gc) : SameButBytes g g :=
  ⟨SameFlags.refl g, rfl, fun _ h => h, fun _ => ⟨rfl, rfl⟩, fun _ => ⟨rfl, rfl⟩, fun _ => rfl⟩

theorem SameButBytes.store (f : GcRegion → ℕ) (hflags : SameFlags g g')
    (hm : g'.manager = g.manager.setRegion p
      { g.manager.region p with allocatedBytes := f (g.manager.region p) }) :
    SameButBytes g g' ∧ ∀ q, (g'.manager.region q).allocatedBytes =
      if some p = some q then f (g.manager.region q) else (g.manager.region q).allocatedBytes := by
  obtain ⟨r, hr⟩ : ∃ r : GcRegion,
      r = { g.manager.region p with allocatedBytes := f (g.manager.region p) } := ⟨_, rfl⟩
  rw [← hr] at hm
  have hself : g'.manager.region p = r := by
    rw [hm]
    exact Function.update_self ..
  have hother : ∀ q, q ≠ p → g'.manager.region q = g.manager.region q := by
    intro q hq
    rw [hm]
    exact Function.update_of_ne hq ..
  have hsame : ∀ {α : Type} (field : GcRegion → α), field r = field (g.manager.region p) →
      ∀ q, field (g'.manager.region q) = field (g.manager.region q) := by
    intro α field hfield q
    by_cases hq : q = p
    · rw [hq, hself, hfield]
    · rw [hother q hq]
  refine ⟨⟨hflags, by rw [hm]; rfl, fun lists h => ?_, fun q => ⟨?_, ?_⟩, fun q => ⟨?_, ?_⟩, ?_⟩,
    fun q => ?_⟩
  · rw [hm]
    exact ⟨h.1.setRegion (by rw [hr]) (by rw [hr]) (Or.inr (by rw [hr])), h.2⟩
  · exact hsame GcRegion.baseAddr (by rw [hr]) q
  · exact hsame GcRegion.size (by rw [hr]) q
  · exact hsame GcRegion.type (by rw [hr]) q
  · exact hsame GcRegion.age (by rw [hr]) q
  · exact hsame GcRegion.liveBytes (by rw [hr])
  · by_cases hq : q = p
    · rw [hq, hself, if_pos rfl, hr]
    · rw [hother q hq, if_neg fun he => hq (Option.some.inj he).symm]

/-- `gc_register_object` adds to the bytes of the region that contains the address, if there is
one. -/
theorem gcRegisterObject_bytes (hinit : g.initialized = true) (ptr size : ℕ) :
    SameButBytes g (gcRegisterObject g ptr size) ∧
      ∀ q, ((gcRegisterObject g ptr size).manager.region q).allocatedBytes =
        if ptr ≠ 0 ∧ gcRegionGetByAddr g.manager ptr = some q then
          addW (g.manager.region q).allocatedBytes size
        else (g.manager.region q).allocatedBytes := by
  unfold gcRegisterObject
  rw [hinit, Bool.not_true, Bool.false_or]
  by_cases hptr : ptr = 0
  · rw [if_pos (decide_eq_true hptr)]
    exact ⟨SameButBytes.refl g, fun q => (if_neg fun hc => hc.1 hptr).symm⟩
  rw [if_neg fun hd => hptr (of_decide_eq_true hd)]
  cases hget : gcRegionGetByAddr g.manager ptr with
  | none => exact ⟨SameButBytes.refl g, fun q => (if_neg (by simp)).symm⟩
  | some p =>
    simp only [ne_eq, hptr, not_false_eq_true, true_and]
    exact SameButBytes.store (fun r => addW r.allocatedBytes size) ⟨hinit.symm, rfl, rfl⟩ rfl

end

/-- The memory of the regions is apart. -/
structure GcRegionManager.Apart (m : GcRegionManager) : Prop where
  below : ∀ p ∈ m.created, (m.region p).baseAddr + (m.region p).size < wordSize
  pairs : ∀ p ∈ m.created, ∀ q ∈ m.created, p ≠ q →
    (m.region p).baseAddr + (m.region p).size ≤ (m.region q).baseAddr ∨
      (m.region q).baseAddr + (m.region q).size ≤ (m.region p).baseAddr

namespace GcHeap

/-- What every run keeps: a region that holds no object has no bytes. -/
structure Inv (s : GcHeap) : Prop where
  initialized : s.gc.initialized = true
  active : s.gc.active = true
  mixed : s.gc.mixedGcEnabled = true
  lists : ∃ lists, ListsOk s.gc.manager lists
  apart : s.gc.manager.Apart
  bare : ∀ p ∈ s.gc.manager.created, ¬ s.Holds p →
    (s.gc.manager.region p).allocatedBytes = 0 ∧ (s.gc.manager.region p).liveBytes = 0

theorem inv_init : init.Inv := by
  refine ⟨rfl, rfl, rfl, ⟨_, gcRegionManagerInit_inv⟩, ⟨fun p hp => ?_, fun p hp => ?_⟩,
    fun p hp => ?_⟩
  all_goals exact absurd hp List.not_mem_nil

section
variable {s : GcHeap} {p q ptr size : ℕ} {env : RegionEnv} {t : GcRegionType} {k : GcKind}

theorem contains_place {r r' : GcRegion} (h : r'.baseAddr = r.baseAddr ∧ r'.size = r.size)
    (a : ℕ) : r'.contains a = r.contains a := by
  unfold GcRegion.contains
  rw [h.1, h.2]

/-- A region that keeps its place holds the objects it held. -/
theorem Holds.place {s' : GcHeap} (h : s.Holds p) (hobjects : ∀ a ∈ s.objects, a ∈ s'.objects)
    (hplace : (s'.gc.manager.region p).baseAddr = (s.gc.manager.region p).baseAddr ∧
      (s'.gc.manager.region p).size = (s.gc.manager.region p).size) : s'.Holds p := by
  obtain ⟨a, ha, hin⟩ := h
  exact ⟨a, hobjects a ha, (contains_place hplace a).trans hin⟩

/-- What `gc_region_alloc` does to the records: no region moves, and those that change hold
nothing. -/
theorem gcRegionAlloc_records {m : GcRegionManager} {lists : GcRegionType → List ℕ}
    (h : ListsOk m lists) (t : GcRegionType) (hfresh : env.Fresh m) :
    ((gcRegionAlloc m t env).1.created = m.created ∧ ∀ q,
      (((gcRegionAlloc m t env).1.region q).baseAddr = (m.region q).baseAddr ∧
        ((gcRegionAlloc m t env).1.region q).size = (m.region q).size) ∧
      ((gcRegionAlloc m t env).1.region q = m.region q ∨
        ((gcRegionAlloc m t env).1.region q).allocatedBytes = 0 ∧
          ((gcRegionAlloc m t env).1.region q).liveBytes = 0)) ∨
    ∃ p base, p ∉ m.created ∧ env.base = some base ∧
      (gcRegionAlloc m t env).1.created = m.created ++ [p] ∧
      (((gcRegionAlloc m t env).1.region p).baseAddr = base ∧
        ((gcRegionAlloc m t env).1.region p).size = GC_REGION_SIZE_DEFAULT) ∧
      (((gcRegionAlloc m t env).1.region p).allocatedBytes = 0 ∧
        ((gcRegionAlloc m t env).1.region p).liveBytes = 0) ∧
      ∀ q, q ≠ p → (gcRegionAlloc m t env).1.region q = m.region q := by
  rcases h.1.typeLists.alloc_record t env with he | ⟨p, r, -, hregion, -, -, hbytes, hre | hnew⟩
  · rw [he]
    exact Or.inl ⟨rfl, fun q => ⟨⟨rfl, rfl⟩, Or.inl rfl⟩⟩
  · refine Or.inl ⟨hre.created, fun q => ?_⟩
    rw [hregion]
    by_cases hq : q = p
    · rw [hq, Function.update_self]
      exact ⟨hre.place, Or.inr hbytes⟩
    · rw [Function.update_of_ne hq]
      exact ⟨⟨rfl, rfl⟩, Or.inl rfl⟩
  · refine Or.inr ⟨p, r.baseAddr, (hfresh.record p hnew.addr).2, hnew.place.1, hnew.created, ?_⟩
    rw [hregion, Function.update_self]
    exact ⟨⟨rfl, hnew.place.2⟩, hbytes, fun q hq => Function.update_of_ne hq ..⟩

theorem apart_congr {m m' : GcRegionManager} (h : m.Apart) (hcreated : m'.created = m.created)
    (hplace : ∀ q, (m'.region q).baseAddr = (m.region q).baseAddr ∧
      (m'.region q).size = (m.region q).size) : m'.Apart := by
  refine ⟨fun p hp => ?_, fun p hp q hq hne => ?_⟩
  · rw [hcreated] at hp
    rw [(hplace p).1, (hplace p).2]
    exact h.below p hp
  · rw [hcreated] at hp hq
    rw [(hplace p).1, (hplace p).2, (hplace q).1, (hplace q).2]
    exact h.pairs p hp q hq hne

theorem apart_add {m m' : GcRegionManager} {base : ℕ} (h : m.Apart) (hfresh : env.Fresh m)
    (hbase : env.base = some base) (hcreated : m'.created = m.created ++ [p])
    (hp : p ∉ m.created) (hplace : (m'.region p).baseAddr = base ∧
      (m'.region p).size = GC_REGION_SIZE_DEFAULT)
    (hother : ∀ q, q ≠ p → m'.region q = m.region q) : m'.Apart := by
  have hold : ∀ q ∈ m.created, m'.region q = m.region q := fun q hq =>
    hother q fun he => hp (he ▸ hq)
  have hmem : ∀ q ∈ m'.created, q ∈ m.created ∨ q = p := by
    intro q hq
    rw [hcreated] at hq
    exact (List.mem_append.mp hq).imp_right List.mem_singleton.mp
  have hnew : ∀ q ∈ m.created, base + GC_REGION_SIZE_DEFAULT ≤ (m'.region q).baseAddr ∨
      (m'.region q).baseAddr + (m'.region q).size ≤ base := by
    intro q hq
    rw [hold q hq]
    exact hfresh.apart base hbase q hq
  refine ⟨fun q hq => ?_, fun q hq q' hq' hne => ?_⟩
  · rcases hmem q hq with hq | rfl
    · rw [hold q hq]
      exact h.below q hq
    · rw [hplace.1, hplace.2]
      exact hfresh.below base hbase
  · rcases hmem q hq with hq | rfl <;> rcases hmem q' hq' with hq' | rfl
    · rw [hold q hq, hold q' hq']
      exact h.pairs q hq q' hq' hne
    · rw [hplace.1, hplace.2]
      exact (hnew q hq).symm
    · rw [hplace.1, hplace.2]
      exact hnew q' hq'
    · exact absurd rfl hne

theorem Inv.alloc (h : s.Inv) (t : GcRegionType) (hfresh : env.Fresh s.gc.manager) :
    (s.step (.alloc t env)).Inv := by
  obtain ⟨lists, hlists⟩ := h.lists
  obtain ⟨lists', hlists'⟩ := hlists.1.alloc hlists.2 t hfresh.record
  rcases gcRegionAlloc_records hlists t hfresh with ⟨hcreated, hall⟩ |
    ⟨p, base, hp, hbase, hcreated, hplace, hbytes, hother⟩
  · refine ⟨h.initialized, h.active, h.mixed, ⟨lists', hlists'⟩,
      apart_congr h.apart hcreated fun q => (hall q).1, fun q hq hnot => ?_⟩
    have hbare : ¬ s.Holds q := fun hh => hnot (hh.place (fun _ ha => ha) (hall q).1)
    rcases (hall q).2 with he | hbytes
    · have hold := h.bare q (hcreated ▸ hq) hbare
      rw [← he] at hold
      exact hold
    · exact hbytes
  · refine ⟨h.initialized, h.active, h.mixed, ⟨lists', hlists'⟩,
      apart_add h.apart hfresh hbase hcreated hp hplace hother, fun q hq hnot => ?_⟩
    by_cases hqp : q = p
    · rw [hqp]
      exact hbytes
    · have he := hother q hqp
      have hbare : ¬ s.Holds q := fun hh => hnot (hh.place (fun _ ha => ha)
        ⟨congrArg GcRegion.baseAddr he, congrArg GcRegion.size he⟩)
      have hq' : q ∈ s.gc.manager.created ++ [p] := hcreated ▸ hq
      have hin := (List.mem_append.mp hq').resolve_right fun hin => hqp (List.mem_singleton.mp hin)
      have hold := h.bare q hin hbare
      rw [← he] at hold
      exact hold

/-- An object is registered in the region that contains its address. -/
theorem Inv.register (h : s.Inv) (ptr size : ℕ) : (s.step (.register ptr size)).Inv := by
  obtain ⟨lists, hlists⟩ := h.lists
  obtain ⟨hg, hbytes⟩ := gcRegisterObject_bytes h.initialized ptr size
  refine ⟨hg.flags.initialized.trans h.initialized, hg.flags.active.trans h.active,
    hg.flags.mixed.trans h.mixed, ⟨lists, hg.lists lists hlists⟩,
    apart_congr h.apart hg.created hg.place, fun q hq hnot => ?_⟩
  have hobjects : (s.step (.register ptr size)).objects =
      if ptr ≠ 0 ∧ (gcRegionGetByAddr s.gc.manager ptr).isSome then ptr :: s.objects
      else s.objects := rfl
  have hkeep : ∀ a ∈ s.objects, a ∈ (s.step (.register ptr size)).objects := by
    intro a ha
    rw [hobjects]
    split_ifs
    · exact List.mem_cons_of_mem _ ha
    · exact ha
  have hold := h.bare q (hg.created ▸ hq) fun hh => hnot (hh.place hkeep (hg.place q))
  -- the region that was found holds the object
  have hother : ¬ (ptr ≠ 0 ∧ gcRegionGetByAddr s.gc.manager ptr = some q) := by
    rintro ⟨hptr, hget⟩
    refine hnot ⟨ptr, ?_, (contains_place (hg.place q) ptr).trans (getByAddr_contains hget)⟩
    rw [hobjects, hget, if_pos ⟨hptr, rfl⟩]
    exact List.mem_cons_self
  have hnew := hbytes q
  rw [if_neg hother] at hnew
  exact ⟨hnew.trans hold.1, (hg.live q).trans hold.2⟩

/-- A region with no object that is reclaimed has nothing to lose but its place. -/
theorem bare_zeroes {r : GcRegion} (halloc : r.allocatedBytes = 0) (hlive : r.liveBytes = 0)
    {z : ℕ × ℕ} (hz : z ∈ r.reclaimZeroes) : z.2 = 0 ∨ z = (r.baseAddr, r.size) := by
  unfold GcRegion.reclaimZeroes at hz
  rw [if_pos hlive, halloc, hlive] at hz
  rcases List.mem_cons.mp hz with rfl | hz
  · exact Or.inl rfl
  · exact Or.inr (List.mem_singleton.mp hz)

theorem not_contains_of_apart {m : GcRegionManager} (h : m.Apart) (hp : p ∈ m.created)
    (hq : q ∈ m.created) (hne : p ≠ q) {i : ℕ} (hi : i < (m.region q).size) :
    (m.region p).contains (addW (m.region q).baseAddr i) = false := by
  have hbelow := h.below p hp
  have hbelow' := h.below q hq
  unfold GcRegion.contains
  rw [decide_eq_false_iff_not, addW_eq hbelow, addW_eq (by omega)]
  rcases h.pairs p hp q hq hne with hle | hle
  · omega
  · omega

section
variable {g' : Gc} {lists : GcRegionType → List ℕ}

/-- The regions that are reclaimed are old. -/
theorem mem_reclaims {m : GcRegionManager} (hp : p ∈ k.reclaims m lists) : p ∈ lists .old :=
  List.mem_of_mem_filter (List.mem_of_mem_take hp)

/-- What a region with no object has when the loop comes to it. -/
theorem Inv.bare_prepared (h : s.Inv) {m : GcRegionManager} (hprep : Prepared s.gc.manager m)
    (hp : p ∈ s.gc.manager.created) (hnot : ¬ s.Holds p) :
    (m.region p).allocatedBytes = 0 ∧ (m.region p).liveBytes = 0 := by
  obtain ⟨halloc, hlive⟩ := h.bare p hp hnot
  obtain ⟨halloc', hlive'⟩ := hprep.bytes p
  refine ⟨halloc'.trans halloc, ?_⟩
  rcases hlive' with hlive' | hlive'
  · exact hlive'.trans hlive
  · exact hlive'.trans halloc

theorem Inv.collected (h : s.Inv) (hcoll : Collected s.gc g' lists k) :
    Inv ⟨g', s.objects⟩ := by
  obtain ⟨hflags, hkept, m, hprep, hrec⟩ := hcoll
  have hcreated : g'.manager.created = s.gc.manager.created := by
    rw [hrec.created, hprep.same]
  have hplace : ∀ q, (g'.manager.region q).baseAddr = (s.gc.manager.region q).baseAddr ∧
      (g'.manager.region q).size = (s.gc.manager.region q).size := fun q =>
    ⟨(hrec.place q).1.trans (hprep.place q).1, (hrec.place q).2.trans (hprep.place q).2⟩
  refine ⟨hflags.initialized.trans h.initialized, hflags.active.trans h.active,
    hflags.mixed.trans h.mixed, hkept, apart_congr h.apart hcreated hplace, fun q hq hnot => ?_⟩
  have hbare : ¬ s.Holds q := fun hh => hnot (hh.place (fun _ ha => ha) (hplace q))
  obtain ⟨halloc, hlive⟩ := h.bare_prepared hprep (hcreated ▸ hq) hbare
  show (g'.manager.region q).allocatedBytes = 0 ∧ (g'.manager.region q).liveBytes = 0
  by_cases hin : q ∈ k.reclaims s.gc.manager lists
  · obtain ⟨h1, h2⟩ := hrec.bytes q hin
    exact ⟨h1.trans hlive, h2.trans hlive⟩
  · rw [hrec.other q hin]
    exact ⟨halloc, hlive⟩

/-- **A collection that reclaims no region with an object** spares those with one. -/
theorem Inv.collected_spares (h : s.Inv) (hlists : ListsOk s.gc.manager lists)
    (hcoll : Collected s.gc g' lists k) (hC : ∀ p ∈ k.reclaims s.gc.manager lists, ¬ s.Holds p)
    (hp : p ∈ s.gc.manager.created) (hholds : s.Holds p) :
    (∀ z ∈ g'.manager.zeroed.drop s.gc.manager.zeroed.length,
      ∀ i < z.2, (s.gc.manager.region p).contains (addW z.1 i) = false) ∧
    (g'.manager.region p).type = (s.gc.manager.region p).type := by
  obtain ⟨-, -, m, hprep, hrec⟩ := hcoll
  have hnot : p ∉ k.reclaims s.gc.manager lists := fun hin => hC p hin hholds
  refine ⟨fun z hz i hi => ?_, ?_⟩
  · have hzeroed : m.zeroed = s.gc.manager.zeroed := by rw [hprep.same]
    rw [hrec.zeroed, hzeroed, List.drop_left] at hz
    obtain ⟨q, hq, hz⟩ := List.mem_flatMap.mp hz
    have hqc : q ∈ s.gc.manager.created := ((hlists.1.mem .old q).mp (mem_reclaims hq)).1
    obtain ⟨halloc, hlive⟩ := h.bare_prepared hprep hqc (hC q hq)
    have hne : p ≠ q := by
      rintro rfl
      exact hnot hq
    rcases bare_zeroes halloc hlive hz with h0 | rfl
    · rw [h0] at hi
      exact absurd hi (Nat.not_lt_zero i)
    · rw [(hprep.place q).1]
      rw [(hprep.place q).2] at hi
      exact not_contains_of_apart h.apart hp hqc hne hi
  · rw [hrec.other p hnot]
    exact (hprep.record p).2

end

theorem step_collect (s : GcHeap) (k : GcKind) (rounds : ℕ) :
    s.step (.collect k rounds) = s ∨ ∃ g' code, gcRun k rounds s.gc = some (g', code) ∧
      s.step (.collect k rounds) = ⟨g', s.objects⟩ := by
  show (match gcRun k rounds s.gc with
    | some (g, _) => { s with gc := g }
    | none => s) = s ∨ ∃ g' code, _ ∧ (match gcRun k rounds s.gc with
    | some (g, _) => { s with gc := g }
    | none => s) = _
  cases gcRun k rounds s.gc with
  | none => exact Or.inl rfl
  | some r => exact Or.inr ⟨r.1, r.2, rfl, rfl⟩

theorem Inv.step (h : s.Inv) (call : GcCall) (hlegal : call.Legal s) : (s.step call).Inv := by
  cases call with
  | alloc t env => exact h.alloc t hlegal
  | register ptr size => exact h.register ptr size
  | collect k rounds =>
    rcases step_collect s k rounds with he | ⟨g', code, hrun, he⟩
    · rw [he]
      exact h
    · obtain ⟨lists, hlists⟩ := h.lists
      rw [he]
      exact h.collected (gcRun_spec hlists h.initialized h.active h.mixed hlegal hrun)

theorem Inv.spares (h : s.Inv) (call : GcCall) (hlegal : call.Legal s)
    (hC : call.ReclaimsNoObject s) : call.Spares s := by
  cases call with
  | alloc t env => trivial
  | register ptr size => trivial
  | collect k rounds =>
    intro p hp hholds
    rcases step_collect s k rounds with he | ⟨g', code, hrun, he⟩
    · rw [he, List.drop_length]
      exact ⟨fun z hz => absurd hz List.not_mem_nil, fun ht => ht⟩
    · obtain ⟨lists, hlists⟩ := h.lists
      rw [he]
      obtain ⟨hzeroed, htype⟩ := h.collected_spares hlists
        (gcRun_spec hlists h.initialized h.active h.mixed hlegal hrun)
        (hC lists (hlists.1.consistent hlists.2)) hp hholds
      exact ⟨hzeroed, fun ht => htype.symm ▸ ht⟩

end

end GcHeap

/-- **No collection zeroes or frees a region that holds a registered object**, as long as none of the
regions it reclaims holds one. -/
theorem collections_spare {calls : List GcCall}
    (hlegal : Runs.Each GcHeap.step GcCall.Legal GcHeap.init calls)
    (hC : Runs.Each GcHeap.step GcCall.ReclaimsNoObject GcHeap.init calls) :
    Runs.Each GcHeap.step GcCall.Spares GcHeap.init calls :=
  Runs.each_of_inv (fun s call (h : s.Inv) hA => h.step call hA.1)
    (fun _ call h hA => h.spares call hA.1 hA.2) GcHeap.inv_init (hlegal.and hC)

/-- The memory of the region that the runs below create. -/
def givenRegion : RegionEnv := ⟨some 100, some 0x200000, true, true⟩

/-- An old region is created, an object registered in it, and a collection called. -/
def collectOld (k : GcKind) : List GcCall :=
  [.alloc .old givenRegion, .register 0x200010 64, .collect k (GC_MAX_REGIONS + 1)]

theorem collectOld_legal (k : GcKind) :
    Runs.Each GcHeap.step GcCall.Legal GcHeap.init (collectOld k) := by
  refine ⟨⟨fun p hp => ?_, fun base hbase => ?_, fun base hbase q hq => ?_⟩, trivial,
    Nat.lt_succ_self _, trivial⟩
  · cases hp
    exact ⟨by decide, by decide⟩
  · cases hbase
    decide
  · exact absurd hq List.not_mem_nil

/-- `gc_collect` marks the region, and leaves it. -/
theorem collections_spare_old :
    Runs.Each GcHeap.step GcCall.Spares GcHeap.init (collectOld .collect) := by
  refine collections_spare (collectOld_legal _) ⟨trivial, trivial, ?_, trivial⟩
  intro lists hlists p hp
  have hold := (hlists.listed .old p).mp (GcHeap.mem_reclaims hp)
  obtain rfl : p = 100 := List.mem_singleton.mp hold.1
  have htest : ((GcKind.collect.seen (((GcHeap.init.step (.alloc .old givenRegion)).step
      (.register 0x200010 64)).gc.manager.region 100)).reclaimable) = false := by decide +kernel
  have htaken := (List.mem_filter.mp (List.mem_of_mem_take hp)).2
  exact absurd (htest.symm.trans htaken) Bool.false_ne_true

/-- `gc_collect_young` does not mark it, and frees it. -/
theorem young_collection_frees_old :
    Runs.Each GcHeap.step GcCall.Legal GcHeap.init (collectOld .young) ∧
      ¬ Runs.Each GcHeap.step GcCall.Spares GcHeap.init (collectOld .young) := by
  refine ⟨collectOld_legal _, fun h => ?_⟩
  have hfreed : ((Runs.after GcHeap.step GcHeap.init (collectOld .young)).gc.manager.region
    100).type = .empty := by decide +kernel
  exact (h.2.2.1 100 (by decide +kernel) ⟨0x200010, by decide +kernel, by decide +kernel⟩).2
    (by decide +kernel) hfreed

end Nomalloc
