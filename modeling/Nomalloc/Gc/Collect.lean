import Nomalloc.Gc.Region
import Nomalloc.Lib.ForEach

/-!
# `gc/gc.c`: the collector

* `gcInit`
* `gcMarkRegion`, `gcMarkAllRegions`, `gcReclaimRegions`
* `gcCollect`, `gcCollectYoung`, `gcCollectMixed`, `gcCollectFull`, `gcCollectAsync`
* `gcWriteBarrierPre`, `gcRegisterObject`

The loops follow the `list` nodes of the regions and are given a number of rounds; a loop that does
not come to its end in that many, or that is led to a node outside every region, has no result.
The loop of `gc_reclaim_regions` names the node `reclaim_list`, which no list links; it is taken
here over the `list` nodes of `old_regions`, first region first.

The locks, the times and the buffers that no function here reads are left out.
-/

namespace Nomalloc

/-- `gc_state_t` -/
inductive GcState where
  | idle
  | youngGc
  | mixedGc
  | fullGc
  | marking
  | compacting
deriving DecidableEq, Repr

/-- `gc_phase_t` -/
inductive GcPhase where
  | none
  | markStart
  | markConcurrent
  | markFinal
  | mixedReclaimStart
  | mixedReclaim
  | cleanup
  | idle
deriving DecidableEq, Repr

/-- `struct gc_stats`, times apart -/
structure GcStats where
  gcCount : ℕ
  youngGcCount : ℕ
  mixedGcCount : ℕ
  fullGcCount : ℕ
  bytesFreed : ℕ
  regionsReclaimed : ℕ
  youngGenSize : ℕ

/-- `struct gc`.  `mixedGcEnabled` is the field of `config`, `markedBytes` that of `marking_ctx`. -/
structure Gc where
  initialized : Bool
  active : Bool
  concurrentActive : Bool
  mixedGcEnabled : Bool
  currentEpoch : ℕ
  state : GcState
  phase : GcPhase
  stats : GcStats
  markedBytes : ℕ
  manager : GcRegionManager

/-- `g_gc` before the first `gc_init`: static memory is zero. -/
def Gc.zero : Gc where
  initialized := false
  active := false
  concurrentActive := false
  mixedGcEnabled := false
  currentEpoch := 0
  state := .idle
  phase := .none
  stats := ⟨0, 0, 0, 0, 0, 0, 0⟩
  markedBytes := 0
  manager := { gcRegionManagerInit with
    maxRegions := 0
    links := ⟨fun _ => none, fun _ => none, false⟩ }

/-- `gc_init` -/
def gcInit (g : Gc) : Gc :=
  if g.initialized then g
  else
    { initialized := true
      active := true
      concurrentActive := false
      mixedGcEnabled := true
      currentEpoch := 0
      state := .idle
      phase := .idle
      stats := ⟨0, 0, 0, 0, 0, 0, 0⟩
      markedBytes := 0
      manager := gcRegionManagerInit }

/-! ## marking -/

/-- What `gc_mark_region` stores: no bit is set, and all that is allocated is live. -/
def GcRegion.marked (r : GcRegion) : GcRegion :=
  { r with
    liveBitmap := bitmapInit r.bitmapSize false
    markingBitmap := bitmapInit r.bitmapSize false
    liveBytes := r.allocatedBytes
    length_live := length_bitmapInit _ _
    length_marking := length_bitmapInit _ _ }

/-- `gc_mark_region` -/
def gcMarkRegion (g : Gc) (p : ℕ) : Gc :=
  if p = 0 ∨ (g.manager.region p).type = .empty then g
  else
    { g with
      manager := g.manager.setRegion p (g.manager.region p).marked
      markedBytes := addW g.markedBytes (g.manager.region p).allocatedBytes }

theorem gcMarkRegion_region (g : Gc) (p q : ℕ) :
    (gcMarkRegion g p).manager.region q =
      if q = p ∧ p ≠ 0 ∧ (g.manager.region p).type ≠ .empty then (g.manager.region p).marked
      else g.manager.region q := by
  unfold gcMarkRegion
  by_cases h : p = 0 ∨ (g.manager.region p).type = .empty
  · rw [if_pos h, if_neg fun hc => not_or.mpr hc.2 h]
  · rw [if_neg h]
    by_cases hq : q = p
    · subst hq
      rw [if_pos ⟨rfl, not_or.mp h⟩]
      exact Function.update_self ..
    · rw [if_neg fun hc => hq hc.1]
      exact Function.update_of_ne hq ..

/-- A loop body for regions: a node outside every region is no region to work on. -/
def onRegion (body : Gc → ℕ → Gc) (g : Gc) : GcNode → Option Gc
  | .region p => some (body g p)
  | .head _ => none

/-- `list_for_each_entry(region, &g_gc_region_manager.<type>_regions, list) body`, with the nodes
visited. -/
def gcForEachRegion (t : GcRegionType) (body : Gc → ℕ → Gc) (rounds : ℕ) (g : Gc) :
    Option (List GcNode × Gc) :=
  forEach (fun g => g.manager.links) (.head t) (onRegion body) rounds
    (g.manager.links.next (.head t)) g

/-- `gc_mark_all_regions` -/
def gcMarkAllRegions (rounds : ℕ) (g : Gc) : Option Gc :=
  (gcForEachRegion .young gcMarkRegion rounds g).bind fun r =>
    (gcForEachRegion .survivor gcMarkRegion rounds r.2).bind fun r =>
      (gcForEachRegion .old gcMarkRegion rounds r.2).map fun r => r.2

/-- `gc_region_age`, on the manager of the collector -/
def gcAge (g : Gc) (p : ℕ) : Gc := { g with manager := gcRegionAge g.manager p }

/-- The loop of `gc_collect_young` and of `gc_collect_mixed`. -/
def gcMarkAgeYoung (rounds : ℕ) (g : Gc) : Option (List GcNode × Gc) :=
  gcForEachRegion .young (fun g p => gcAge (gcMarkRegion g p) p) rounds g

/-- The loop of `gc_collect_full` after marking. -/
def gcAgeYoung (rounds : ℕ) (g : Gc) : Option (List GcNode × Gc) :=
  gcForEachRegion .young gcAge rounds g

/-! ## reclaiming -/

/-- The variables of the loop of `gc_reclaim_regions`. -/
structure ReclaimState where
  gc : Gc
  reclaimed : ℕ
  bytesFreed : ℕ

/-- The body of the loop of `gc_reclaim_regions`, after the test of `reclaimed`. -/
def gcReclaimBody (s : ReclaimState) (p : ℕ) : ReclaimState :=
  let r := s.gc.manager.region p
  if gcRegionNeedsReclaim r && !r.isCompactingTarget then
    let m := gcRegionReclaim s.gc.manager p
    let bytesFreed := addW s.bytesFreed (m.region p).garbageBytes
    let m := if gcRegionIsEmpty (m.region p) then gcRegionFree m p else m
    { gc := { s.gc with
        manager := m
        stats := { s.gc.stats with
          regionsReclaimed := addW s.gc.stats.regionsReclaimed 1 } }
      reclaimed := s.reclaimed + 1
      bytesFreed := bytesFreed }
  else s

/-- `gc_reclaim_regions`, with the bytes it returns. -/
def gcReclaimRegions (rounds : ℕ) (g : Gc) (maxRegions : ℕ) : Option (Gc × ℕ) :=
  let pos := g.manager.links.next (.head .old)
  (forEachSafe (fun s => s.gc.manager.links) (.head .old)
    (fun s => decide (maxRegions ≤ s.reclaimed))
    (fun s n => match n with
      | .region p => some (gcReclaimBody s p)
      | .head _ => none)
    rounds pos (pos.bind g.manager.links.next) ⟨g, 0, 0⟩).map fun s => (s.gc, s.bytesFreed)

/-- What every collection does with the bytes it freed. -/
def Gc.finish (g : Gc) (bytesFreed : ℕ) : Gc :=
  { g with
    stats := { g.stats with bytesFreed := addW g.stats.bytesFreed bytesFreed }
    state := .idle }

/-! ## collections -/

/-- `gc_collect` -/
def gcCollect (rounds : ℕ) (g : Gc) : Option (Gc × ℤ) :=
  if !g.initialized || !g.active then some (g, -1)
  else
    let g := { g with
      currentEpoch := addW g.currentEpoch 1
      state := .youngGc
      phase := .markStart
      concurrentActive := true
      stats := { g.stats with
        gcCount := addW g.stats.gcCount 1
        youngGcCount := addW g.stats.youngGcCount 1 } }
    (gcMarkAllRegions rounds g).bind fun g =>
      (gcReclaimRegions rounds { g with phase := .cleanup } 10).map fun (g, bytesFreed) =>
        ({ g.finish bytesFreed with phase := .idle, concurrentActive := false }, 0)

/-- `gc_collect_young` -/
def gcCollectYoung (rounds : ℕ) (g : Gc) : Option (Gc × ℤ) :=
  if !g.initialized || !g.active then some (g, -1)
  else
    let g := { g with
      state := .youngGc
      currentEpoch := addW g.currentEpoch 1
      stats := { g.stats with
        gcCount := addW g.stats.gcCount 1
        youngGcCount := addW g.stats.youngGcCount 1 } }
    (gcMarkAgeYoung rounds g).bind fun r =>
      (gcReclaimRegions rounds r.2 5).map fun (g, bytesFreed) => (g.finish bytesFreed, 0)

/-- `gc_collect_mixed` -/
def gcCollectMixed (rounds : ℕ) (g : Gc) : Option (Gc × ℤ) :=
  if !g.initialized || !g.active then some (g, -1)
  else if !g.mixedGcEnabled then gcCollectYoung rounds g
  else
    let g := { g with
      state := .mixedGc
      phase := .mixedReclaimStart
      currentEpoch := addW g.currentEpoch 1
      stats := { g.stats with
        gcCount := addW g.stats.gcCount 1
        mixedGcCount := addW g.stats.mixedGcCount 1 } }
    (gcMarkAgeYoung rounds g).bind fun r =>
      (gcReclaimRegions rounds { r.2 with phase := .mixedReclaim } 15).map fun (g, bytesFreed) =>
        ({ g.finish bytesFreed with phase := .idle }, 0)

/-- `gc_collect_full` -/
def gcCollectFull (rounds : ℕ) (g : Gc) : Option (Gc × ℤ) :=
  if !g.initialized || !g.active then some (g, -1)
  else
    let g := { g with
      state := .fullGc
      currentEpoch := addW g.currentEpoch 1
      stats := { g.stats with
        gcCount := addW g.stats.gcCount 1
        fullGcCount := addW g.stats.fullGcCount 1 } }
    (gcMarkAllRegions rounds g).bind fun g =>
      (gcAgeYoung rounds g).bind fun r =>
        (gcReclaimRegions rounds r.2 50).map fun (g, bytesFreed) => (g.finish bytesFreed, 0)

/-- `gc_collect_async` -/
def gcCollectAsync (g : Gc) : Gc × ℤ :=
  if !g.initialized || !g.active then (g, -1)
  else if g.concurrentActive then (g, -2)
  else ({ g with concurrentActive := true }, 0)

/-! ## barriers and objects -/

/-- `gc_write_barrier_pre`; the new value is not looked at. -/
def gcWriteBarrierPre (g : Gc) (oldValue _newValue : ℕ) : Gc :=
  if !g.initialized || !g.concurrentActive then g
  else if oldValue = 0 then g
  else
    match gcRegionGetByAddr g.manager oldValue with
    | none => g
    | some p =>
      if gcRegionIsLive g.manager p oldValue then
        { g with manager := gcRegionMarkObject g.manager p oldValue }
      else g

/-- `gc_register_object` -/
def gcRegisterObject (g : Gc) (ptr size : ℕ) : Gc :=
  if !g.initialized || decide (ptr = 0) then g
  else
    match gcRegionGetByAddr g.manager ptr with
    | none => g
    | some p =>
      let r := g.manager.region p
      { g with
        manager := g.manager.setRegion p { r with allocatedBytes := addW r.allocatedBytes size }
        stats := { g.stats with youngGenSize := addW g.stats.youngGenSize size } }

end Nomalloc
