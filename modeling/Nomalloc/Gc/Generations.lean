import Nomalloc.Gc.Objects

/-!
# From generation to generation

The loops of the three collectors are taken here to visit every listed region once, in any order.
`gc_region_age` makes a young region a survivor in its second year and a survivor an old region in
its sixteenth; but the collectors age the young regions alone, and a survivor stays one.

* `gcCollectOver k visit`    a collector, its loops over the regions `visit t` of each type;
* `gcCollectOver_loops`      the collectors of `gc.c` are these, where their loops end;
* `Aged g g' ps`             the regions `ps` are a year older, and the others as they were;
* `gcCollectOver_spec`       a collection ages the young regions;
* `generations_iff`          a region is where its years should have it for fifteen collections.
-/

namespace Nomalloc

/-! ## the collectors -/

/-- The loop of `gc_reclaim_regions` over the regions `old`. -/
def gcReclaimOver (old : List ℕ) (g : Gc) (maxRegions : ℕ) : Gc × ℕ :=
  let s := foldUntil (fun s : ReclaimState => decide (maxRegions ≤ s.reclaimed)) gcReclaimBody
    ⟨g, 0, 0⟩ old
  (s.gc, s.bytesFreed)

/-- `gc_collect_young` -/
def gcCollectYoungOver (visit : GcRegionType → List ℕ) (g : Gc) : Gc × ℤ :=
  if !g.initialized || !g.active then (g, -1)
  else
    let g := { g with
      state := .youngGc
      currentEpoch := addW g.currentEpoch 1
      stats := { g.stats with
        gcCount := addW g.stats.gcCount 1
        youngGcCount := addW g.stats.youngGcCount 1 } }
    let g := (visit .young).foldl (fun g p => gcAge (gcMarkRegion g p) p) g
    let r := gcReclaimOver (visit .old) g 5
    (r.1.finish r.2, 0)

/-- `gc_collect_mixed` -/
def gcCollectMixedOver (visit : GcRegionType → List ℕ) (g : Gc) : Gc × ℤ :=
  if !g.initialized || !g.active then (g, -1)
  else if !g.mixedGcEnabled then gcCollectYoungOver visit g
  else
    let g := { g with
      state := .mixedGc
      phase := .mixedReclaimStart
      currentEpoch := addW g.currentEpoch 1
      stats := { g.stats with
        gcCount := addW g.stats.gcCount 1
        mixedGcCount := addW g.stats.mixedGcCount 1 } }
    let g := (visit .young).foldl (fun g p => gcAge (gcMarkRegion g p) p) g
    let r := gcReclaimOver (visit .old) { g with phase := .mixedReclaim } 15
    ({ r.1.finish r.2 with phase := .idle }, 0)

/-- `gc_collect_full` -/
def gcCollectFullOver (visit : GcRegionType → List ℕ) (g : Gc) : Gc × ℤ :=
  if !g.initialized || !g.active then (g, -1)
  else
    let g := { g with
      state := .fullGc
      currentEpoch := addW g.currentEpoch 1
      stats := { g.stats with
        gcCount := addW g.stats.gcCount 1
        fullGcCount := addW g.stats.fullGcCount 1 } }
    let g := (markedRegions visit).foldl gcMarkRegion g
    let g := (visit .young).foldl gcAge g
    let r := gcReclaimOver (visit .old) g 50
    (r.1.finish r.2, 0)

/-- The collectors that age regions. -/
inductive Collector where
  | young
  | mixed
  | full
deriving DecidableEq

def gcCollectOver : Collector → (GcRegionType → List ℕ) → Gc → Gc × ℤ
  | .young => gcCollectYoungOver
  | .mixed => gcCollectMixedOver
  | .full => gcCollectFullOver

/-- The loops visit every listed region once. -/
def Visits (m : GcRegionManager) (visit : GcRegionType → List ℕ) : Prop :=
  ∀ lists, m.Consistent lists → ∀ t, (visit t).Perm (lists t)

/-- The regions `ps` are a year older, and the others as they were. -/
structure Aged (g g' : Gc) (ps : List ℕ) : Prop where
  flags : SameFlags g g'
  created : g'.manager.created = g.manager.created
  visited : ∀ p ∈ ps, (g'.manager.region p).type = (g.manager.region p).agedType ∧
    (g'.manager.region p).age = (g.manager.region p).nextAge
  others : ∀ q, q ∉ ps → (g'.manager.region q).type = (g.manager.region q).type ∧
    (g'.manager.region q).age = (g.manager.region q).age

section
variable {g g' g'' : Gc} {m : GcRegionManager} {lists : GcRegionType → List ℕ} {p q : ℕ}
  {ps : List ℕ} {visit : GcRegionType → List ℕ}

/-! ## ageing -/

theorem Aged.nil (g : Gc) : Aged g g [] :=
  ⟨SameFlags.refl g, rfl, fun _ hp => absurd hp List.not_mem_nil, fun _ _ => ⟨rfl, rfl⟩⟩

theorem Aged.cons (h : Aged g g' [p]) (h' : Aged g' g'' ps) (hp : p ∉ ps) :
    Aged g g'' (p :: ps) := by
  refine ⟨h.flags.trans h'.flags, h'.created.trans h.created, fun q hq => ?_, fun q hq => ?_⟩
  · rcases List.mem_cons.mp hq with rfl | hq
    · obtain ⟨htype, hage⟩ := h.visited q (List.mem_singleton_self q)
      obtain ⟨htype', hage'⟩ := h'.others q hp
      exact ⟨htype'.trans htype, hage'.trans hage⟩
    · have hne : q ∉ [p] := fun hin => hp (List.mem_singleton.mp hin ▸ hq)
      obtain ⟨htype, hage⟩ := h.others q hne
      obtain ⟨htype', hage'⟩ := h'.visited q hq
      unfold GcRegion.agedType GcRegion.nextAge at htype'
      unfold GcRegion.nextAge at hage'
      rw [htype, hage] at htype'
      rw [hage] at hage'
      exact ⟨htype', hage'⟩
  · obtain ⟨hqp, hqs⟩ := not_or.mp (mt List.mem_cons.mpr hq)
    obtain ⟨htype, hage⟩ := h.others q fun hin => hqp (List.mem_singleton.mp hin)
    obtain ⟨htype', hage'⟩ := h'.others q hqs
    exact ⟨htype'.trans htype, hage'.trans hage⟩

/-- Before a year for some regions, all are marked. -/
theorem Aged.of_marked (hm : MarkedFrom g.manager g'.manager) (hf : SameFlags g g')
    (h : Aged g' g'' ps) : Aged g g'' ps := by
  have hcreated : g'.manager.created = g.manager.created := by rw [hm.same]
  refine ⟨hf.trans h.flags, h.created.trans hcreated, fun q hq => ?_, fun q hq => ?_⟩
  · obtain ⟨htype, hage, -⟩ := hm.fields q
    have hvisited := h.visited q hq
    unfold GcRegion.agedType GcRegion.nextAge at hvisited ⊢
    rw [htype, hage] at hvisited
    exact hvisited
  · obtain ⟨htype, hage, -⟩ := hm.fields q
    obtain ⟨htype', hage'⟩ := h.others q hq
    exact ⟨htype'.trans htype, hage'.trans hage⟩

/-- The body of a loop that ages regions. -/
def AgesOne (body : Gc → ℕ → Gc) : Prop :=
  ∀ g p, p ∈ g.manager.created → (∃ lists, ListsOk g.manager lists) →
    Aged g (body g p) [p] ∧ ∃ lists, ListsOk (body g p).manager lists

theorem gcAge_agesOne : AgesOne gcAge := by
  rintro g p hp ⟨lists, h⟩
  obtain ⟨r, hregion, hcreated, htype, hage⟩ :=
    gcRegionAge_record (m := g.manager) (h.1.created_index hp).1
  have hregion' : (gcAge g p).manager.region = Function.update g.manager.region p r := hregion
  refine ⟨⟨⟨rfl, rfl, rfl⟩, hcreated, fun q hq => ?_, fun q hq => ?_⟩, h.1.age h.2 hp⟩
  · rw [List.mem_singleton.mp hq, hregion', Function.update_self]
    exact ⟨htype, hage⟩
  · rw [hregion', Function.update_of_ne fun he => hq (List.mem_singleton.mpr he)]
    exact ⟨rfl, rfl⟩

theorem gcMarkAge_agesOne : AgesOne fun g p => gcAge (gcMarkRegion g p) p := by
  rintro g p hp ⟨lists, h⟩
  have hm := gcMarkRegion_spec g p
  have hcreated : (gcMarkRegion g p).manager.created = g.manager.created := by rw [hm.same]
  obtain ⟨haged, hlists⟩ := gcAge_agesOne (gcMarkRegion g p) p (hcreated.symm ▸ hp)
    ⟨lists, (Prepared.marked hm).listsOk h⟩
  exact ⟨haged.of_marked hm (foldl_gcMarkRegion_flags [p] g), hlists⟩

/-- **A loop that ages regions.** -/
theorem foldl_aged {body : Gc → ℕ → Gc} (hbody : AgesOne body) (hnd : ps.Nodup)
    (hin : ∀ p ∈ ps, p ∈ g.manager.created) (h : ∃ lists, ListsOk g.manager lists) :
    Aged g (ps.foldl body g) ps ∧ ∃ lists, ListsOk (ps.foldl body g).manager lists := by
  induction ps generalizing g with
  | nil => exact ⟨Aged.nil g, h⟩
  | cons p ps ih =>
    obtain ⟨hp, hnd⟩ := List.nodup_cons.mp hnd
    obtain ⟨haged, hlists⟩ := hbody g p (hin p List.mem_cons_self) h
    obtain ⟨hrest, hlists'⟩ := ih hnd
      (fun q hq => haged.created.symm ▸ hin q (List.mem_cons_of_mem _ hq)) hlists
    exact ⟨haged.cons hrest hp, hlists'⟩

/-! ## reclaiming -/

/-- **A loop that reclaims old regions** leaves the others alone. -/
theorem gcReclaimOver_spec (h : ∃ lists, ListsOk g.manager lists) (hnd : ps.Nodup)
    (hold : ∀ p ∈ ps, p ∈ g.manager.created ∧ (g.manager.region p).type = .old) (maxRegions : ℕ) :
    (∃ lists, ListsOk (gcReclaimOver ps g maxRegions).1.manager lists) ∧
      SameFlags g (gcReclaimOver ps g maxRegions).1 ∧
      (gcReclaimOver ps g maxRegions).1.manager.created = g.manager.created ∧
      ∀ q, q ∉ ps → (gcReclaimOver ps g maxRegions).1.manager.region q = g.manager.region q := by
  have h0 : 0 ∉ ps := by
    obtain ⟨lists, hlists⟩ := h
    exact fun hin => (hlists.1.created_index (hold 0 hin).1).1 rfl
  have hall := reclaimFold_spec (s := ⟨g, 0, 0⟩) maxRegions hnd h0
  exact ⟨reclaimFold_lists (s := ⟨g, 0, 0⟩) gcRegionNeedsReclaim _ h hnd hold,
    reclaimFold_flags _ _ ⟨g, 0, 0⟩ ps,
    hall.created,
    fun q hq => hall.other q fun hin => hq (List.mem_of_mem_filter (List.mem_of_mem_take hin))⟩

/-! ## a collection -/

theorem Visits.mem (hv : Visits m visit) (h : ListsOk m lists) (t : GcRegionType) :
    (visit t).Nodup ∧ ∀ q, q ∈ visit t ↔ q ∈ m.created ∧ (m.region q).type = t := by
  have hperm := hv lists (h.1.consistent h.2) t
  refine ⟨hperm.nodup_iff.mpr (h.1.typeLists.list_nodup t), fun q => ?_⟩
  rw [hperm.mem_iff, h.1.mem]
  simp

/-- A collection: the young regions are a year older, and some of the old ones are reclaimed. -/
structure YearPassed (g g' : Gc) : Prop where
  flags : SameFlags g g'
  created : g'.manager.created = g.manager.created
  lists : ∃ lists, ListsOk g'.manager lists
  young : ∀ p ∈ g.manager.created, (g.manager.region p).type = .young →
    (g'.manager.region p).type = (g.manager.region p).agedType ∧
      (g'.manager.region p).age = (g.manager.region p).nextAge
  survivor : ∀ p ∈ g.manager.created, (g.manager.region p).type = .survivor →
    (g'.manager.region p).type = .survivor

/-- The young regions are aged, and the old ones reclaimed. -/
theorem Aged.reclaim (haged : Aged g g' (visit .young)) (hlists : ∃ lists, ListsOk g'.manager lists)
    (hv : Visits g.manager visit) (h : ListsOk g.manager lists) (maxRegions : ℕ) :
    YearPassed g (gcReclaimOver (visit .old) g' maxRegions).1 := by
  have hyoung := (hv.mem h .young).2
  obtain ⟨hnd, hold⟩ := hv.mem h .old
  have hnot : ∀ q, (g.manager.region q).type ≠ .old → q ∉ visit .old := fun q ht hin =>
    ht ((hold q).mp hin).2
  have hstill : ∀ q ∈ visit .old, q ∈ g'.manager.created ∧ (g'.manager.region q).type = .old := by
    intro q hq
    obtain ⟨hcreated, htype⟩ := (hold q).mp hq
    have hother : q ∉ visit .young := fun hin => by
      rw [((hyoung q).mp hin).2] at htype
      exact absurd htype (by decide)
    exact ⟨haged.created.symm ▸ hcreated, (haged.others q hother).1.trans htype⟩
  obtain ⟨hlists', hflags, hcreated, hrest⟩ := gcReclaimOver_spec hlists hnd hstill maxRegions
  refine ⟨haged.flags.trans hflags, hcreated.trans haged.created, hlists', fun p hp ht => ?_,
    fun p hp ht => ?_⟩
  · rw [hrest p (hnot p (by rw [ht]; decide))]
    exact haged.visited p ((hyoung p).mpr ⟨hp, ht⟩)
  · have hother : p ∉ visit .young := fun hin => by
      rw [((hyoung p).mp hin).2] at ht
      exact absurd ht (by decide)
    rw [hrest p (hnot p (by rw [ht]; decide))]
    exact (haged.others p hother).1.trans ht

theorem YearPassed.set (h : YearPassed g g') (hm : g''.manager = g'.manager)
    (hf : SameFlags g' g'') : YearPassed g g'' := by
  refine ⟨h.flags.trans hf, ?_, ?_, ?_, ?_⟩
  all_goals rw [hm]
  · exact h.created
  · exact h.lists
  · exact h.young
  · exact h.survivor

theorem Aged.of_same (hm : g'.manager = g.manager) (hf : SameFlags g g') (h : Aged g' g'' ps) :
    Aged g g'' ps :=
  h.of_marked (hm ▸ MarkedFrom.refl _) hf

/-- The loop of `gc_collect_young` and of `gc_collect_mixed`. -/
theorem foldl_gcMarkAge (h : ListsOk g.manager lists) (hv : Visits g.manager visit)
    (hm : g'.manager = g.manager) (hf : SameFlags g g') :
    Aged g ((visit .young).foldl (fun g p => gcAge (gcMarkRegion g p) p) g') (visit .young) ∧
      ∃ lists, ListsOk ((visit .young).foldl (fun g p => gcAge (gcMarkRegion g p) p)
        g').manager lists := by
  obtain ⟨hnd, hyoung⟩ := hv.mem h .young
  rw [← hm] at h hyoung
  obtain ⟨haged, hlists⟩ := foldl_aged gcMarkAge_agesOne hnd
    (fun p hp => ((hyoung p).mp hp).1) ⟨lists, h⟩
  exact ⟨haged.of_same hm hf, hlists⟩

section
variable (hon : (!g.initialized || !g.active) = false) (h : ListsOk g.manager lists)
  (hv : Visits g.manager visit)
include hon h hv

theorem gcCollectYoungOver_spec : YearPassed g (gcCollectYoungOver visit g).1 := by
  obtain ⟨g1, g2, r, hm, hf, hg2, hr, hrun⟩ : ∃ g1 g2 r, g1.manager = g.manager ∧ SameFlags g g1 ∧
      g2 = (visit .young).foldl (fun g p => gcAge (gcMarkRegion g p) p) g1 ∧
        r = gcReclaimOver (visit .old) g2 5 ∧
          (gcCollectYoungOver visit g).1 = r.1.finish r.2 := by
    unfold gcCollectYoungOver
    rw [hon, if_neg Bool.false_ne_true]
    refine ⟨_, _, _, ?_, ?_, rfl, rfl, rfl⟩
    · rfl
    · exact ⟨rfl, rfl, rfl⟩
  obtain ⟨haged, hlists⟩ := foldl_gcMarkAge h hv hm hf
  rw [← hg2] at haged hlists
  rw [hrun, hr]
  exact (haged.reclaim hlists hv h 5).set rfl ⟨rfl, rfl, rfl⟩

theorem gcCollectMixedOver_spec : YearPassed g (gcCollectMixedOver visit g).1 := by
  by_cases hmixed : (!g.mixedGcEnabled) = true
  · have hrun : gcCollectMixedOver visit g = gcCollectYoungOver visit g := by
      unfold gcCollectMixedOver
      rw [hon, if_neg Bool.false_ne_true, if_pos hmixed]
    rw [hrun]
    exact gcCollectYoungOver_spec hon h hv
  · obtain ⟨g1, g2, r, hm, hf, hg2, hr, hrun⟩ : ∃ g1 g2 r, g1.manager = g.manager ∧
        SameFlags g g1 ∧ g2 = (visit .young).foldl (fun g p => gcAge (gcMarkRegion g p) p) g1 ∧
          r = gcReclaimOver (visit .old) { g2 with phase := .mixedReclaim } 15 ∧
            (gcCollectMixedOver visit g).1 = { r.1.finish r.2 with phase := .idle } := by
      unfold gcCollectMixedOver
      rw [hon, if_neg Bool.false_ne_true, if_neg hmixed]
      refine ⟨_, _, _, ?_, ?_, rfl, rfl, rfl⟩
      · rfl
      · exact ⟨rfl, rfl, rfl⟩
    obtain ⟨haged, hlists⟩ := foldl_gcMarkAge h hv hm hf
    rw [← hg2] at haged hlists
    have haged' : Aged g { g2 with phase := .mixedReclaim } (visit .young) :=
      ⟨haged.flags.trans ⟨rfl, rfl, rfl⟩, haged.created, haged.visited, haged.others⟩
    rw [hrun, hr]
    exact (haged'.reclaim hlists hv h 15).set rfl ⟨rfl, rfl, rfl⟩

theorem gcCollectFullOver_spec : YearPassed g (gcCollectFullOver visit g).1 := by
  obtain ⟨g1, g2, r, hm, hf, hg2, hr, hrun⟩ : ∃ g1 g2 r, g1.manager = g.manager ∧ SameFlags g g1 ∧
      g2 = (markedRegions visit).foldl gcMarkRegion g1 ∧
        r = gcReclaimOver (visit .old) ((visit .young).foldl gcAge g2) 50 ∧
          (gcCollectFullOver visit g).1 = r.1.finish r.2 := by
    unfold gcCollectFullOver
    rw [hon, if_neg Bool.false_ne_true]
    refine ⟨_, _, _, ?_, ?_, rfl, rfl, rfl⟩
    · rfl
    · exact ⟨rfl, rfl, rfl⟩
  have hmarked := (foldl_gcMarkRegion (markedRegions visit) g1).1
  have hflags := foldl_gcMarkRegion_flags (markedRegions visit) g1
  rw [← hg2] at hmarked hflags
  have hcreated : g2.manager.created = g.manager.created := by rw [hmarked.same, hm]
  obtain ⟨hnd, hyoung⟩ := hv.mem h .young
  obtain ⟨haged, hlists⟩ := foldl_aged (g := g2) gcAge_agesOne hnd
    (fun p hp => hcreated.symm ▸ ((hyoung p).mp hp).1)
    ⟨lists, (Prepared.marked hmarked).listsOk (hm.symm ▸ h)⟩
  have haged' := (haged.of_marked hmarked hflags).of_same hm hf
  rw [hrun, hr]
  exact (haged'.reclaim hlists hv h 50).set rfl ⟨rfl, rfl, rfl⟩

/-- **A collection** ages the young regions, and leaves the survivors survivors. -/
theorem gcCollectOver_spec (k : Collector) : YearPassed g (gcCollectOver k visit g).1 := by
  cases k with
  | young => exact gcCollectYoungOver_spec hon h hv
  | mixed => exact gcCollectMixedOver_spec hon h hv
  | full => exact gcCollectFullOver_spec hon h hv

end

/-! ## the loops of `gc.c` -/

/-- The collectors of `gc.c`. -/
def gcCollectLoops : Collector → ℕ → Gc → Option (Gc × ℤ)
  | .young => gcCollectYoung
  | .mixed => gcCollectMixed
  | .full => gcCollectFull

theorem gcReclaimRegions_over (h : ListsOk g.manager lists) {rounds : ℕ}
    (hr : GC_MAX_REGIONS < rounds) (maxRegions : ℕ) :
    gcReclaimRegions rounds g maxRegions = some (gcReclaimOver (lists .old) g maxRegions) := by
  obtain ⟨s, hs, hend⟩ := gcReclaimRegions_eq h (h.length_lt hr .old) maxRegions
  rw [hend, hs]
  rfl

section
variable {rounds : ℕ} (h : ListsOk g.manager lists) (hr : GC_MAX_REGIONS < rounds)
  (hage : ∀ p ∈ lists .young, (g.manager.region p).nextAge ≤ 1)
include h hr hage

/-- A loop that ages the young regions, none of which is promoted. -/
theorem youngLoop_over {body : Gc → ℕ → Gc} (hb : AgesYoung body)
    (hbody : ∀ g p, p ≠ 0 → (g.manager.region p).type = .young →
      (g.manager.region p).nextAge ≤ 1 → Prepared g.manager (body g p).manager) :
    gcForEachRegion .young body rounds g =
        some ((lists .young).map .region, (lists .young).foldl body g) ∧
      ListsOk ((lists .young).foldl body g).manager lists :=
  ageLoop_fold (P := fun g => ListsOk g.manager lists) hb (h.1.consistent h.2) hage
    (fun g p _ hp ht hnext hok => (hbody g p hp ht hnext).listsOk hok) h (h.length_lt hr .young)

theorem markAgeLoop_over :
    gcMarkAgeYoung rounds g = some ((lists .young).map .region,
        (lists .young).foldl (fun g p => gcAge (gcMarkRegion g p) p) g) ∧
      ListsOk ((lists .young).foldl (fun g p => gcAge (gcMarkRegion g p) p) g).manager lists := by
  refine youngLoop_over h hr hage markAge_agesYoung fun g p hp ht hnext => ?_
  have hm := gcMarkRegion_spec g p
  obtain ⟨htype, hage', -⟩ := hm.fields p
  have haged : Prepared (gcMarkRegion g p).manager (gcRegionAge (gcMarkRegion g p).manager p) := by
    refine Prepared.age hp (htype.trans ht) ?_
    unfold GcRegion.nextAge at hnext ⊢
    rw [hage']
    exact hnext
  exact (Prepared.marked hm).trans haged

end

/-- **The collectors of `gc.c`** visit every region once when none is promoted. -/
theorem gcCollectOver_loops (k : Collector) {rounds : ℕ} (hinit : g.initialized = true)
    (hactive : g.active = true) (h : ListsOk g.manager lists) (hr : GC_MAX_REGIONS < rounds)
    (hage : ∀ p ∈ lists .young, (g.manager.region p).nextAge ≤ 1) :
    gcCollectLoops k rounds g = some (gcCollectOver k lists g) := by
  have hon : ¬ (!g.initialized || !g.active) = true := by
    rw [hinit, hactive]
    decide
  have hyoung : gcCollectYoung rounds g = some (gcCollectYoungOver lists g) := by
    unfold gcCollectYoung gcCollectYoungOver
    rw [if_neg hon, if_neg hon]
    dsimp only
    obtain ⟨hloop, hlists⟩ := markAgeLoop_over
      (g := { g with state := .youngGc, currentEpoch := _, stats := _ }) h hr hage
    rw [hloop, Option.bind_some, gcReclaimRegions_over hlists hr]
    rfl
  cases k with
  | young => exact hyoung
  | mixed =>
    show gcCollectMixed rounds g = some (gcCollectMixedOver lists g)
    unfold gcCollectMixed gcCollectMixedOver
    rw [if_neg hon, if_neg hon]
    by_cases hmixed : (!g.mixedGcEnabled) = true
    · rw [if_pos hmixed, if_pos hmixed]
      exact hyoung
    · rw [if_neg hmixed, if_neg hmixed]
      dsimp only
      obtain ⟨hloop, hlists⟩ := markAgeLoop_over
        (g := { g with state := .mixedGc, phase := .mixedReclaimStart, currentEpoch := _, stats := _ })
        h hr hage
      have hreclaim : ∀ g2 : Gc, ListsOk g2.manager lists → _ := fun g2 hok =>
        gcReclaimRegions_over (g := { g2 with phase := .mixedReclaim }) hok hr 15
      rw [hloop, Option.bind_some]
      dsimp only
      rw [hreclaim _ hlists]
      rfl
  | full =>
    show gcCollectFull rounds g = some (gcCollectFullOver lists g)
    unfold gcCollectFull gcCollectFullOver
    rw [if_neg hon, if_neg hon]
    dsimp only
    obtain ⟨g1, hg1⟩ : ∃ g1 : Gc, g1 = { g with
        state := .fullGc
        currentEpoch := addW g.currentEpoch 1
        stats := { g.stats with
          gcCount := addW g.stats.gcCount 1
          fullGcCount := addW g.stats.fullGcCount 1 } } := ⟨_, rfl⟩
    rw [← hg1]
    have hok : ListsOk g1.manager lists := by rwa [hg1]
    have hmarked := (foldl_gcMarkRegion (markedRegions lists) g1).1
    have hok' := (Prepared.marked hmarked).listsOk hok
    have hage' : ∀ p ∈ lists .young,
        (((markedRegions lists).foldl gcMarkRegion g1).manager.region p).nextAge ≤ 1 := by
      intro p hp
      have hone := hage p hp
      unfold GcRegion.nextAge at hone ⊢
      rw [(hmarked.fields p).2.1, hg1]
      exact hone
    obtain ⟨hloop, hlists⟩ := youngLoop_over hok' hr hage' gcAge_agesYoung
      fun _ _ hp ht hnext => Prepared.age hp ht hnext
    have hloop' : gcAgeYoung rounds ((markedRegions lists).foldl gcMarkRegion g1) = _ := hloop
    rw [gcMarkAllRegions_spec (hok.1.consistent hok.2) (hok.length_lt hr), Option.bind_some, hloop',
      Option.bind_some, gcReclaimRegions_over hlists hr]
    rfl

end

/-! ## runs -/

/-- A call; the loops of a collection visit `visit t` for each type. -/
inductive LifeCall where
  | alloc (type : GcRegionType) (env : RegionEnv)
  | free (p : ℕ)
  | register (ptr size : ℕ)
  | collect (k : Collector) (visit : GcRegionType → List ℕ)

def Gc.lifeStep (g : Gc) : LifeCall → Gc
  | .alloc type env => { g with manager := (gcRegionAlloc g.manager type env).1 }
  | .free p => { g with manager := gcRegionFree g.manager p }
  | .register ptr size => gcRegisterObject g ptr size
  | .collect k visit => (gcCollectOver k visit g).1

def LifeCall.Legal (g : Gc) : LifeCall → Prop
  | .alloc type env => (GcRegionOp.alloc type env).Legal g.manager
  | .free p => (GcRegionOp.free p).Legal g.manager
  | .register _ _ => True
  | .collect _ visit => Visits g.manager visit

/-- The region is not freed. -/
def LifeCall.Spares (p : ℕ) : LifeCall → Prop
  | .free q => q ≠ p
  | _ => True

/-- The years of a run. -/
def collections : List LifeCall → ℕ
  | [] => 0
  | .collect _ _ :: calls => collections calls + 1
  | _ :: calls => collections calls

/-- Where the years should have a region that was allocated young. -/
def Matured (g : Gc) (p years : ℕ) : Prop :=
  (2 ≤ years → years < 16 → (g.manager.region p).type = .survivor) ∧
    (16 ≤ years → (g.manager.region p).type = .old)

/-- What every run keeps. -/
structure LifeInv (g : Gc) : Prop where
  initialized : g.initialized = true
  active : g.active = true
  lists : ∃ lists, ListsOk g.manager lists

/-- Where the years have it. -/
structure Lived (g : Gc) (p years : ℕ) : Prop where
  inv : LifeInv g
  created : p ∈ g.manager.created
  stage : (years < 2 ∧ (g.manager.region p).type = .young ∧ (g.manager.region p).age = years) ∨
    (2 ≤ years ∧ (g.manager.region p).type = .survivor)

section
variable {g g' : Gc} {p q years : ℕ} {env : RegionEnv} {t : GcRegionType}
  {visit : GcRegionType → List ℕ}

theorem LifeInv.collect (h : LifeInv g) (k : Collector) (hv : Visits g.manager visit) :
    YearPassed g (gcCollectOver k visit g).1 := by
  obtain ⟨lists, hlists⟩ := h.lists
  refine gcCollectOver_spec ?_ hlists hv k
  rw [h.initialized, h.active]
  rfl

theorem LifeInv.register (h : LifeInv g) (ptr size : ℕ) :
    LifeInv (gcRegisterObject g ptr size) ∧ SameButBytes g (gcRegisterObject g ptr size) := by
  obtain ⟨lists, hlists⟩ := h.lists
  obtain ⟨hg, -⟩ := gcRegisterObject_bytes h.initialized ptr size
  exact ⟨⟨hg.flags.initialized.trans h.initialized, hg.flags.active.trans h.active, lists,
    hg.lists lists hlists⟩, hg⟩

theorem LifeInv.step (h : LifeInv g) (call : LifeCall) (hlegal : call.Legal g) :
    LifeInv (g.lifeStep call) := by
  cases call with
  | alloc type env =>
    exact ⟨h.initialized, h.active, region_inv_step g.manager (.alloc type env) h.lists hlegal⟩
  | free p => exact ⟨h.initialized, h.active, region_inv_step g.manager (.free p) h.lists hlegal⟩
  | register ptr size => exact (h.register ptr size).1
  | collect k visit =>
    have hyear := h.collect k hlegal
    exact ⟨hyear.flags.initialized.trans h.initialized, hyear.flags.active.trans h.active,
      hyear.lists⟩

theorem Lived.of_same (h : Lived g p years) (hinv : LifeInv g')
    (hcreated : p ∈ g'.manager.created)
    (hsame : (g'.manager.region p).type = (g.manager.region p).type ∧
      (g'.manager.region p).age = (g.manager.region p).age) : Lived g' p years := by
  refine ⟨hinv, hcreated, ?_⟩
  rw [hsame.1, hsame.2]
  exact h.stage

theorem Lived.inUse (h : Lived g p years) : (g.manager.region p).type ≠ .empty := by
  rcases h.stage with ⟨-, ht, -⟩ | ⟨-, ht⟩
  all_goals
    rw [ht]
    decide

/-- Other regions are allocated and freed. -/
theorem Lived.alloc (h : Lived g p years) (hlegal : (LifeCall.alloc t env).Legal g) :
    Lived (g.lifeStep (.alloc t env)) p years := by
  have hinv := h.inv.step (.alloc t env) hlegal
  obtain ⟨lists, hlists⟩ := h.inv.lists
  rcases hlists.1.typeLists.alloc_record t env with he | ⟨q, r, -, hregion, -, -, -, hcase⟩
  · have hstep : g.lifeStep (.alloc t env) = g := by
      show ({ g with manager := (gcRegionAlloc g.manager t env).1 } : Gc) = g
      rw [he]
    rw [hstep]
    exact h
  · have hne : p ≠ q := by
      rintro rfl
      rcases hcase with hre | hnew
      · exact h.inUse hre.free.2
      · exact (hlegal.2 p hnew.addr).2 h.created
    have hmanager : (g.lifeStep (.alloc t env)).manager = (gcRegionAlloc g.manager t env).1 := rfl
    refine h.of_same hinv ?_ ?_
    · rw [hmanager]
      rcases hcase with hre | hnew
      · rw [hre.created]
        exact h.created
      · rw [hnew.created]
        exact List.mem_append_left _ h.created
    · rw [hmanager, hregion, Function.update_of_ne hne]
      exact ⟨rfl, rfl⟩

theorem Lived.free (h : Lived g p years) (hlegal : (LifeCall.free q).Legal g) (hne : q ≠ p) :
    Lived (g.lifeStep (.free q)) p years := by
  have hinv := h.inv.step (.free q) hlegal
  obtain ⟨lists, hlists⟩ := h.inv.lists
  obtain ⟨r, hregion, hcreated, -⟩ :=
    gcRegionFree_record (m := g.manager) (hlists.1.created_index hlegal.1).1
  have hmanager : (g.lifeStep (.free q)).manager = gcRegionFree g.manager q := rfl
  refine h.of_same hinv ?_ ?_
  · rw [hmanager, hcreated]
    exact h.created
  · rw [hmanager, hregion, Function.update_of_ne (Ne.symm hne)]
    exact ⟨rfl, rfl⟩

/-- **A year.** -/
theorem Lived.collect (h : Lived g p years) (k : Collector) (hv : Visits g.manager visit) :
    Lived (g.lifeStep (.collect k visit)) p (years + 1) := by
  have hinv := h.inv.step (.collect k visit) hv
  have hyear := h.inv.collect k hv
  refine ⟨hinv, hyear.created.symm ▸ h.created, ?_⟩
  show (years + 1 < 2 ∧ ((gcCollectOver k visit g).1.manager.region p).type = .young ∧
    ((gcCollectOver k visit g).1.manager.region p).age = years + 1) ∨
      (2 ≤ years + 1 ∧ ((gcCollectOver k visit g).1.manager.region p).type = .survivor)
  rcases h.stage with ⟨hlt, ht, hage⟩ | ⟨hle, ht⟩
  · obtain ⟨htype, hnext⟩ := hyear.young p h.created ht
    have hnextAge : (g.manager.region p).nextAge = years + 1 := by
      unfold GcRegion.nextAge
      rw [hage]
      omega
    unfold GcRegion.agedType at htype
    rw [hnextAge] at htype hnext
    by_cases hone : years = 0
    · refine Or.inl ⟨by omega, ?_, hnext⟩
      rw [htype, if_neg (by omega), ht, if_neg fun hc => absurd hc.1 (by decide)]
    · exact Or.inr ⟨by omega, htype.trans (if_pos ⟨ht, by omega⟩)⟩
  · exact Or.inr ⟨by omega, hyear.survivor p h.created ht⟩

theorem Lived.step (h : Lived g p years) (call : LifeCall) (hlegal : call.Legal g)
    (hspares : call.Spares p) : Lived (g.lifeStep call) p (years + collections [call]) := by
  cases call with
  | alloc type env => exact h.alloc hlegal
  | free q => exact h.free hlegal hspares
  | register ptr size =>
    obtain ⟨hinv, hg⟩ := h.inv.register ptr size
    exact h.of_same hinv (hg.created.symm ▸ h.created) (hg.stage p)
  | collect k visit => exact h.collect k hlegal

theorem collections_cons (call : LifeCall) (calls : List LifeCall) :
    collections (call :: calls) = collections [call] + collections calls := by
  cases call with
  | collect k visit => exact Nat.add_comm _ _
  | alloc | free | register => exact (Nat.zero_add _).symm

/-- **The years of a run.** -/
theorem Lived.run (h : Lived g p years) {calls : List LifeCall}
    (hlegal : Runs.Each Gc.lifeStep (fun g call => call.Legal g ∧ call.Spares p) g calls) :
    Lived (Runs.after Gc.lifeStep g calls) p (years + collections calls) := by
  induction calls generalizing g years with
  | nil => exact h
  | cons call calls ih =>
    rw [collections_cons, ← Nat.add_assoc]
    exact ih (h.step call hlegal.1.1 hlegal.1.2) hlegal.2

theorem LifeInv.born (h : LifeInv g) (hlegal : (LifeCall.alloc .young env).Legal g)
    (hp : (gcRegionAlloc g.manager .young env).2 = some p) :
    Lived (g.lifeStep (.alloc .young env)) p 0 := by
  have hinv := h.step (.alloc .young env) hlegal
  obtain ⟨lists, hlists⟩ := h.lists
  rcases hlists.1.typeLists.alloc_record .young env with
    he | ⟨q, r, hq, hregion, htype, hage, -, hcase⟩
  · rw [he] at hp
    exact absurd hp (by simp)
  obtain rfl : q = p := Option.some.inj (hq.symm.trans hp)
  have hmanager : (g.lifeStep (.alloc .young env)).manager =
      (gcRegionAlloc g.manager .young env).1 := rfl
  refine ⟨hinv, ?_, Or.inl ⟨by decide, ?_⟩⟩
  · rw [hmanager]
    rcases hcase with hre | hnew
    · rw [hre.created]
      exact hre.free.1
    · rw [hnew.created]
      exact List.mem_append_right _ (List.mem_singleton_self q)
  · rw [hmanager, hregion, Function.update_self]
    exact ⟨htype, hage⟩

theorem Lived.matured_iff (h : Lived g p years) : Matured g p years ↔ years < 16 := by
  constructor
  · intro hm
    by_contra hle
    rcases h.stage with ⟨hlt, -⟩ | ⟨-, ht⟩
    · omega
    · rw [hm.2 (by omega)] at ht
      exact absurd ht (by decide)
  · refine fun hlt => ⟨fun hle _ => ?_, fun hge => by omega⟩
    rcases h.stage with ⟨hlt', -⟩ | ⟨-, ht⟩
    · omega
    · exact ht

theorem lifeInv_init : LifeInv (gcInit Gc.zero) := ⟨rfl, rfl, _, gcRegionManagerInit_inv⟩

end

/-- **From generation to generation.**  A region that was allocated young and is not freed is a
survivor after two collections and old after sixteen, for exactly fifteen collections. -/
theorem generations_iff (before calls : List LifeCall) (env : RegionEnv) (p : ℕ)
    (hbefore : Runs.Each Gc.lifeStep (fun g call => call.Legal g) (gcInit Gc.zero) before)
    (hborn : let g := Runs.after Gc.lifeStep (gcInit Gc.zero) before
      (LifeCall.alloc .young env).Legal g ∧ (gcRegionAlloc g.manager .young env).2 = some p)
    (hcalls : Runs.Each Gc.lifeStep (fun g call => call.Legal g ∧ call.Spares p)
      (Runs.after Gc.lifeStep (gcInit Gc.zero) (before ++ [.alloc .young env])) calls) :
    Matured (Runs.after Gc.lifeStep (gcInit Gc.zero) (before ++ .alloc .young env :: calls)) p
      (collections calls) ↔ collections calls < 16 := by
  have hinv : LifeInv (Runs.after Gc.lifeStep (gcInit Gc.zero) before) :=
    Runs.inv_after (fun g call h hlegal => h.step call hlegal) lifeInv_init hbefore
  have hlived := hinv.born hborn.1 hborn.2
  rw [Runs.after_append] at hcalls ⊢
  have hrun := hlived.run hcalls
  rw [Nat.zero_add] at hrun
  exact hrun.matured_iff

/-! ## collections after one another -/

/-- The regions of each type, in the order of their creation. -/
def GcRegionManager.byType (m : GcRegionManager) (t : GcRegionType) : List ℕ :=
  m.created.filter fun p => (m.region p).type = t

/-- `n` collections. -/
def yearsOf (k : Collector) : ℕ → Gc → List LifeCall
  | 0, _ => []
  | n + 1, g =>
    .collect k g.manager.byType :: yearsOf k n (g.lifeStep (.collect k g.manager.byType))

theorem byType_visits (m : GcRegionManager) : Visits m m.byType := by
  intro lists h t
  have hnd : (lists t).Nodup := List.Nodup.of_map _ (List.nodup_cons.mp (h.onLists t).nodup).2
  refine (List.perm_ext_iff_of_nodup (h.createdOnce.filter _) hnd).mpr fun p => ?_
  rw [h.listed, List.mem_filter, decide_eq_true_iff]

theorem yearsOf_legal (k : Collector) (n p : ℕ) (g : Gc) :
    Runs.Each Gc.lifeStep (fun g call => call.Legal g ∧ call.Spares p) g (yearsOf k n g) ∧
      collections (yearsOf k n g) = n := by
  induction n generalizing g with
  | zero => exact ⟨trivial, rfl⟩
  | succ n ih =>
    obtain ⟨hlegal, hcount⟩ := ih (g.lifeStep (.collect k g.manager.byType))
    exact ⟨⟨⟨byType_visits g.manager, trivial⟩, hlegal⟩, congrArg (· + 1) hcount⟩

/-- A young region, in a fresh collector. -/
def gcNewborn : Gc := (gcInit Gc.zero).lifeStep (.alloc .young givenRegion)

theorem givenRegion_legal : (LifeCall.alloc .young givenRegion).Legal (gcInit Gc.zero) := by
  refine ⟨by decide, fun p hp => ?_⟩
  cases hp
  exact ⟨by decide, by decide⟩

theorem generations_two :
    Matured (Runs.after Gc.lifeStep gcNewborn (yearsOf .young 2 gcNewborn)) 100 2 := by
  obtain ⟨hlegal, hcount⟩ := yearsOf_legal .young 2 100 gcNewborn
  have hiff := generations_iff [] (yearsOf .young 2 gcNewborn) givenRegion 100 trivial
    ⟨givenRegion_legal, rfl⟩ hlegal
  rw [hcount] at hiff
  exact hiff.mpr (by decide)

/-- After sixteen collections the region still is a survivor. -/
theorem sixteen_collections :
    Runs.Each Gc.lifeStep (fun g call => call.Legal g ∧ call.Spares 100) gcNewborn
        (yearsOf .young 16 gcNewborn) ∧
      collections (yearsOf .young 16 gcNewborn) = 16 ∧
      ¬ Matured (Runs.after Gc.lifeStep gcNewborn (yearsOf .young 16 gcNewborn)) 100 16 := by
  obtain ⟨hlegal, hcount⟩ := yearsOf_legal .young 16 100 gcNewborn
  have hborn : Lived gcNewborn 100 0 := lifeInv_init.born givenRegion_legal rfl
  have hrun := hborn.run hlegal
  rw [hcount] at hrun
  exact ⟨hlegal, hcount, fun hm => absurd (hrun.matured_iff.mp hm) (by decide)⟩

end Nomalloc
