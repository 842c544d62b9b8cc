import Nomalloc.Gc.Reclaim
import Mathlib.Data.Rat.Cast.Order
import Mathlib.Data.Set.Card

/-!
# What `gc_reclaim_regions` returns

The live ratio is a quotient of two doubles in the code.  Here it is the quotient itself, and the
loop visits `old_regions` in order.

* `gcReclaimRegionsExact`   the loop, with the live ratio exact;
* `changedRegions m m'`     the regions whose record is not what it was;
* `ReclaimCounts`           what is returned and counted is what became of the regions;
* `gc_reclaim_counts`       so it is after every call;
* `gcReclaimRegions_exact`  below 2^53 allocated bytes the doubles decide as the quotient does.
-/

namespace Nomalloc

/-- `gc_region_get_live_ratio`, without rounding -/
def gcRegionGetLiveRatio (r : GcRegion) : ℚ :=
  if r.allocatedBytes = 0 then 0 else r.liveBytes / r.allocatedBytes

/-- `gc_region_needs_reclaim`, without rounding -/
def gcRegionNeedsReclaimExact (r : GcRegion) : Bool := decide (gcRegionGetLiveRatio r < 1 / 2)

/-- `gc_reclaim_regions`, without rounding -/
def gcReclaimRegionsExact (rounds : ℕ) (g : Gc) (maxRegions : ℤ) : Option (Gc × ℕ) :=
  let pos := g.manager.links.next (.head .old)
  (forEachSafe (fun s => s.gc.manager.links) (.head .old)
    (fun s => decide (maxRegions ≤ (s.reclaimed : ℤ)))
    (fun s n => match n with
      | .region p => some (gcReclaimBodyBy gcRegionNeedsReclaimExact s p)
      | .head _ => none)
    rounds pos (pos.bind g.manager.links.next) ⟨g, 0, 0⟩).map fun s => (s.gc, s.bytesFreed)

/-- The regions whose record is not what it was. -/
def changedRegions (m m' : GcRegionManager) : Set ℕ := {p | m'.region p ≠ m.region p}

/-- The bytes by which `allocated_bytes` went down. -/
def decrease (m m' : GcRegionManager) (p : ℕ) : ℕ :=
  (m.region p).allocatedBytes - (m'.region p).allocatedBytes

/-- What a call has returned and counted, for the regions `old` that were on `old_regions` and the
regions `free` that are on `free_regions` now. -/
structure ReclaimCounts (g g' : Gc) (old free : List ℕ) (maxRegions : ℤ) (bytesFreed : ℕ) :
    Prop where
  /-- nowhere has `allocated_bytes` gone up, and the returned `size_t` is the total decrease -/
  down : ∀ p, (g'.manager.region p).allocatedBytes ≤ (g.manager.region p).allocatedBytes
  bytes : bytesFreed = (old.map (decrease g.manager g'.manager)).sum % wordSize
  /-- nothing is lost to the modulus when no region has more allocated than it has room for -/
  bytesAll : (∀ p ∈ old, (g.manager.region p).allocatedBytes ≤ (g.manager.region p).size) →
    bytesFreed = (old.map (decrease g.manager g'.manager)).sum
  few : (changedRegions g.manager g'.manager).Finite ∧
    (changedRegions g.manager g'.manager).ncard ≤ maxRegions.toNat
  counted : g'.stats.regionsReclaimed =
    addW g.stats.regionsReclaimed (changedRegions g.manager g'.manager).ncard
  spared : ∀ p ∈ changedRegions g.manager g'.manager, (g.manager.region p).isCompactingTarget = false ∧
    ¬ (0 < (g.manager.region p).allocatedBytes ∧
      (g.manager.region p).allocatedBytes ≤ 2 * (g.manager.region p).liveBytes)
  ends : ∀ p ∈ changedRegions g.manager g'.manager,
    (g'.manager.region p).allocatedBytes = (g.manager.region p).liveBytes ∧
      (g'.manager.region p).liveBytes = (g.manager.region p).liveBytes ∧
      ((g.manager.region p).liveBytes = 0 → p ∈ free)

section
variable {g : Gc} {m : GcRegionManager} {s : ReclaimState} {r : GcRegion}
  {lists : GcRegionType → List ℕ} {p : ℕ} {ps : List ℕ} {rounds : ℕ} {maxRegions : ℤ}

theorem gcRegionNeedsReclaimExact_iff :
    gcRegionNeedsReclaimExact r = true ↔
      r.allocatedBytes = 0 ∨ 2 * r.liveBytes < r.allocatedBytes := by
  unfold gcRegionNeedsReclaimExact gcRegionGetLiveRatio
  rw [decide_eq_true_iff]
  by_cases ha : r.allocatedBytes = 0
  · rw [if_pos ha]
    exact ⟨fun _ => Or.inl ha, fun _ => by norm_num⟩
  · have hpos : (0 : ℚ) < r.allocatedBytes := Nat.cast_pos.mpr (Nat.pos_of_ne_zero ha)
    rw [if_neg ha, div_lt_div_iff₀ hpos two_pos, one_mul, or_iff_right ha, Nat.mul_comm]
    exact_mod_cast Iff.rfl

/-- With at most 53 bits nothing is rounded that matters. -/
theorem gcRegionNeedsReclaim_exact (hlive : r.liveBytes ≤ r.allocatedBytes)
    (ha : r.allocatedBytes < 2 ^ 53) : gcRegionNeedsReclaim r = gcRegionNeedsReclaimExact r := by
  rw [Bool.eq_iff_iff, gcRegionNeedsReclaimExact_iff]
  unfold gcRegionNeedsReclaim
  split_ifs with h0
  · exact ⟨fun _ => Or.inl h0, fun _ => rfl⟩
  · rw [round53_eq_self ha, round53_eq_self (lt_of_le_of_lt hlive ha), decide_eq_true_iff,
      or_iff_right h0]
    omega

/-! ## one region -/

theorem ReclaimState.take_bytes (s : ReclaimState) (hp : p ≠ 0) : (s.take p).bytesFreed =
    addW s.bytesFreed (subW (s.gc.manager.region p).allocatedBytes
      (s.gc.manager.region p).liveBytes) := by
  have hgarbage : ((gcRegionReclaim s.gc.manager p).region p).garbageBytes =
      subW (s.gc.manager.region p).allocatedBytes (s.gc.manager.region p).liveBytes := by
    unfold gcRegionReclaim
    rw [if_neg hp]
    dsimp only
    rw [Function.update_self]
  exact congrArg (addW s.bytesFreed) hgarbage

/-- A region of which no byte is live is free afterwards. -/
theorem reclaimRegion_type (hp : p ≠ 0) (hlive : (m.region p).liveBytes = 0) :
    ((reclaimRegion m p).region p).type = .empty := by
  obtain ⟨r, hrec, -, -, halloc, -⟩ := gcRegionReclaim_eq (m := m) hp
  have hempty : gcRegionIsEmpty ((gcRegionReclaim m p).region p) = true := by
    rw [hrec]
    show decide ((Function.update m.region p r p).allocatedBytes = 0) = true
    rw [Function.update_self, halloc]
    exact decide_eq_true hlive
  obtain ⟨r', hregion, -, -, -, htype, -⟩ := gcRegionFree_record (m := gcRegionReclaim m p) hp
  unfold reclaimRegion
  rw [if_pos hempty, hregion, Function.update_self]
  exact htype

/-! ## some regions -/

theorem takeFold_counted (hs : s.gc.stats.regionsReclaimed < wordSize) (ps : List ℕ) :
    (ps.foldl ReclaimState.take s).gc.stats.regionsReclaimed =
      addW s.gc.stats.regionsReclaimed ps.length := by
  induction ps generalizing s with
  | nil => exact (Nat.mod_eq_of_lt hs).symm
  | cons p ps ih =>
    have hone : (s.take p).gc.stats.regionsReclaimed = addW s.gc.stats.regionsReclaimed 1 := rfl
    rw [List.foldl_cons, ih (addW_lt _ _), hone, List.length_cons]
    unfold addW
    rw [Nat.mod_add_mod]
    congr 1
    omega

theorem takeFold_bytes (hnd : ps.Nodup) (h0 : 0 ∉ ps)
    (hlive : ∀ p ∈ ps, (s.gc.manager.region p).liveBytes ≤ (s.gc.manager.region p).allocatedBytes ∧
      (s.gc.manager.region p).allocatedBytes < wordSize) :
    (ps.foldl ReclaimState.take s).bytesFreed ≡ s.bytesFreed + (ps.map fun p =>
      (s.gc.manager.region p).allocatedBytes - (s.gc.manager.region p).liveBytes).sum
      [MOD wordSize] := by
  induction ps generalizing s with
  | nil => exact Nat.ModEq.refl _
  | cons p ps ih =>
    obtain ⟨hp, hnd⟩ := List.nodup_cons.mp hnd
    obtain ⟨hp0, h0⟩ := not_or.mp (mt List.mem_cons.mpr h0)
    obtain ⟨hle, hlt⟩ := hlive p List.mem_cons_self
    -- the regions to come are what they were
    have hsame : ∀ q ∈ ps, (s.take p).gc.manager.region q = s.gc.manager.region q := fun q hq =>
      (s.take_reclaims (Ne.symm hp0)).other q fun hin => hp (List.mem_singleton.mp hin ▸ hq)
    have hrest := ih (s := s.take p) hnd h0 fun q hq => by
      rw [hsame q hq]
      exact hlive q (List.mem_cons_of_mem _ hq)
    rw [List.map_congr_left fun q hq => by rw [hsame q hq], s.take_bytes (Ne.symm hp0),
      subW_eq hle hlt] at hrest
    rw [List.foldl_cons, List.map_cons, List.sum_cons, ← Nat.add_assoc]
    exact hrest.trans ((addW_modEq _ _).add_right _)

theorem takeFold_bytes_lt (hs : s.bytesFreed < wordSize) (ps : List ℕ) :
    (ps.foldl ReclaimState.take s).bytesFreed < wordSize := by
  induction ps generalizing s with
  | nil => exact hs
  | cons p ps ih => exact ih (addW_lt _ _)

theorem takeFold_type (hnd : ps.Nodup) (h0 : 0 ∉ ps) (hp : p ∈ ps)
    (hlive : (s.gc.manager.region p).liveBytes = 0) :
    ((ps.foldl ReclaimState.take s).gc.manager.region p).type = .empty := by
  induction ps generalizing s with
  | nil => exact absurd hp List.not_mem_nil
  | cons q ps ih =>
    obtain ⟨hq, hnd⟩ := List.nodup_cons.mp hnd
    obtain ⟨hq0, h0⟩ := not_or.mp (mt List.mem_cons.mpr h0)
    rw [List.foldl_cons]
    rcases List.mem_cons.mp hp with hpq | hp
    · rw [hpq] at hlive ⊢
      rw [(takeFold_reclaims hnd h0).other q hq, (s.take_spec q).1]
      exact reclaimRegion_type (Ne.symm hq0) hlive
    · refine ih hnd h0 hp ?_
      rw [(s.take_reclaims (Ne.symm hq0)).other p fun hin => hq (List.mem_singleton.mp hin ▸ hp)]
      exact hlive

/-! ## the call -/

/-- The regions that a call reclaims. -/
def GcRegionManager.reclaims (m : GcRegionManager) (old : List ℕ) (maxRegions : ℤ) : List ℕ :=
  (old.filter fun p => (m.region p).reclaimableBy gcRegionNeedsReclaimExact).take maxRegions.toNat

theorem reclaims_sublist (m : GcRegionManager) (old : List ℕ) (maxRegions : ℤ) :
    (m.reclaims old maxRegions).Sublist old :=
  (List.take_sublist _ _).trans List.filter_sublist

theorem reclaimableBy_of_mem_reclaims (hp : p ∈ m.reclaims ps maxRegions) :
    (m.region p).isCompactingTarget = false ∧ ((m.region p).allocatedBytes = 0 ∨
      2 * (m.region p).liveBytes < (m.region p).allocatedBytes) := by
  have htest := (List.mem_filter.mp (List.mem_of_mem_take hp)).2
  unfold GcRegion.reclaimableBy at htest
  rw [Bool.and_eq_true, Bool.not_eq_true', gcRegionNeedsReclaimExact_iff] at htest
  exact htest.symm

theorem reclaims_nodup (h : ListsOk m lists) (maxRegions : ℤ) :
    (m.reclaims (lists .old) maxRegions).Nodup ∧ 0 ∉ m.reclaims (lists .old) maxRegions :=
  ⟨(h.1.typeLists.list_nodup .old).sublist (reclaims_sublist _ _ _),
    fun hin => h.old_notNull ((reclaims_sublist _ _ _).subset hin)⟩

/-- **`gc_reclaim_regions`** comes to its end: the regions that pass the test before it are
reclaimed one after the other, `max_regions` of them at most. -/
theorem gcReclaimRegionsExact_eq (h : ListsOk g.manager lists) (hr : (lists .old).length < rounds)
    (maxRegions : ℤ) :
    ∃ s lists', s = (g.manager.reclaims (lists .old) maxRegions).foldl ReclaimState.take ⟨g, 0, 0⟩ ∧
      gcReclaimRegionsExact rounds g maxRegions = some (s.gc, s.bytesFreed) ∧
      ListsOk s.gc.manager lists' := by
  have hstop : (fun s : ReclaimState => decide (maxRegions ≤ (s.reclaimed : ℤ))) =
      fun s => decide (maxRegions.toNat ≤ s.reclaimed) := by
    funext s
    rw [decide_eq_decide, Int.toNat_le]
  have hfold : foldUntil (fun s : ReclaimState => decide (maxRegions ≤ (s.reclaimed : ℤ)))
      (gcReclaimBodyBy gcRegionNeedsReclaimExact) ⟨g, 0, 0⟩ (lists .old) =
        (g.manager.reclaims (lists .old) maxRegions).foldl ReclaimState.take ⟨g, 0, 0⟩ := by
    rw [hstop]
    exact reclaimFold_plan (s := ⟨g, 0, 0⟩) gcRegionNeedsReclaimExact maxRegions.toNat
      (h.1.typeLists.list_nodup .old) h.old_notNull
  have hloop := reclaimLoop_eq h hr gcRegionNeedsReclaimExact
    fun s => decide (maxRegions ≤ (s.reclaimed : ℤ))
  obtain ⟨lists', hlists⟩ := reclaimFold_lists (s := ⟨g, 0, 0⟩) gcRegionNeedsReclaimExact
    (fun s => decide (maxRegions ≤ (s.reclaimed : ℤ))) ⟨lists, h⟩ (h.1.typeLists.list_nodup .old)
    fun p hp => h.of_old hp
  rw [hfold] at hloop hlists
  exact ⟨_, lists', rfl, congrArg (Option.map fun s : ReclaimState => (s.gc, s.bytesFreed)) hloop,
    hlists⟩

/-- Below 2^53 allocated bytes the doubles of the code decide as the quotient does. -/
theorem gcReclaimRegions_exact (h : ListsOk g.manager lists) (hr : (lists .old).length < rounds)
    (hlive : ∀ p ∈ lists .old,
      (g.manager.region p).liveBytes ≤ (g.manager.region p).allocatedBytes ∧
        (g.manager.region p).allocatedBytes < 2 ^ 53) (n : ℕ) :
    gcReclaimRegions rounds g n = gcReclaimRegionsExact rounds g n := by
  obtain ⟨s, hs, hend⟩ := gcReclaimRegions_eq h hr n
  obtain ⟨s', -, hs', hend', -⟩ := gcReclaimRegionsExact_eq h hr n
  have hplan := reclaimFold_plan (s := ⟨g, 0, 0⟩) gcRegionNeedsReclaim n
    (h.1.typeLists.list_nodup .old) h.old_notNull
  have htests : ((lists .old).filter fun p =>
      (g.manager.region p).reclaimableBy gcRegionNeedsReclaim) =
        (lists .old).filter fun p =>
          (g.manager.region p).reclaimableBy gcRegionNeedsReclaimExact := by
    refine List.filter_congr fun p hp => ?_
    unfold GcRegion.reclaimableBy
    rw [gcRegionNeedsReclaim_exact (hlive p hp).1 (hlive p hp).2]
  have hsame : s = s' := by
    rw [hs, gcReclaimBody_eq, hplan, htests, hs']
    rfl
  rw [hend, hend', hsame]

/-! ## the accounts -/

section
variable (h : ListsOk g.manager lists)
  (hlive : ∀ p ∈ lists .old, (g.manager.region p).liveBytes ≤ (g.manager.region p).allocatedBytes)
  (hs : s = (g.manager.reclaims (lists .old) maxRegions).foldl ReclaimState.take ⟨g, 0, 0⟩)
include h hs

theorem plan_reclaims : ReclaimedAll g.manager s.gc.manager
    (g.manager.reclaims (lists .old) maxRegions) := by
  obtain ⟨hnd, h0⟩ := reclaims_nodup h maxRegions
  rw [hs]
  exact takeFold_reclaims (s := ⟨g, 0, 0⟩) hnd h0

/-- The regions that are not reclaimed have lost nothing. -/
theorem sum_decrease : ((lists .old).map (decrease g.manager s.gc.manager)).sum =
    ((g.manager.reclaims (lists .old) maxRegions).map fun p =>
      (g.manager.region p).allocatedBytes - (g.manager.region p).liveBytes).sum := by
  have hall := plan_reclaims h hs
  have hlost : ∀ p ∈ g.manager.reclaims (lists .old) maxRegions,
      (g.manager.region p).allocatedBytes - (g.manager.region p).liveBytes =
        decrease g.manager s.gc.manager p := fun p hp => by
    rw [← (hall.bytes p hp).1]
    rfl
  rw [List.map_congr_left hlost, ← List.sum_toFinset _ (h.1.typeLists.list_nodup .old),
    ← List.sum_toFinset _ (reclaims_nodup h maxRegions).1]
  refine (Finset.sum_subset (fun p hp => ?_) fun p _ hp => ?_).symm
  · exact List.mem_toFinset.mpr ((reclaims_sublist _ _ _).subset (List.mem_toFinset.mp hp))
  · unfold decrease
    rw [hall.other p (mt List.mem_toFinset.mpr hp), Nat.sub_self]

include hlive

/-- A region of which no byte is live becomes free, and any other has less allocated. -/
theorem plan_changes (hp : p ∈ g.manager.reclaims (lists .old) maxRegions) :
    s.gc.manager.region p ≠ g.manager.region p := by
  obtain ⟨hnd, h0⟩ := reclaims_nodup h maxRegions
  have hold := (reclaims_sublist _ _ _).subset hp
  have hle := hlive p hold
  intro hsame
  rcases (reclaimableBy_of_mem_reclaims hp).2 with halloc | hhalf
  · have htype := takeFold_type (s := ⟨g, 0, 0⟩) hnd h0 hp (by dsimp only; omega)
    rw [← hs, hsame, (h.of_old hold).2] at htype
    exact absurd htype (by decide)
  · have hbytes := ((plan_reclaims h hs).bytes p hp).1
    rw [hsame] at hbytes
    omega

/-- The regions that change are those that are reclaimed. -/
theorem changedRegions_eq : changedRegions g.manager s.gc.manager =
    ((g.manager.reclaims (lists .old) maxRegions).toFinset : Set ℕ) := by
  ext p
  rw [List.coe_toFinset]
  constructor
  · intro hne
    by_contra hp
    exact hne ((plan_reclaims h hs).other p hp)
  · exact plan_changes h hlive hs

theorem ncard_changedRegions : (changedRegions g.manager s.gc.manager).ncard =
    (g.manager.reclaims (lists .old) maxRegions).length := by
  rw [changedRegions_eq h hlive hs, Set.ncard_coe_finset]
  exact List.toFinset_card_of_nodup (reclaims_nodup h maxRegions).1

/-- What a call has done, once the lists are in order again. -/
theorem reclaim_counts (hword : g.stats.regionsReclaimed < wordSize ∧
      ∀ p ∈ lists .old, (g.manager.region p).allocatedBytes < wordSize)
    {lists' : GcRegionType → List ℕ} (h' : ListsOk s.gc.manager lists') :
    ReclaimCounts g s.gc (lists .old) (lists' .empty) maxRegions s.bytesFreed := by
  obtain ⟨hnd, h0⟩ := reclaims_nodup h maxRegions
  have hall := plan_reclaims h hs
  have hsub := (reclaims_sublist g.manager (lists .old) maxRegions).subset
  have hplan : ∀ p ∈ changedRegions g.manager s.gc.manager,
      p ∈ g.manager.reclaims (lists .old) maxRegions := fun p hp => by
    rw [changedRegions_eq h hlive hs, List.coe_toFinset] at hp
    exact hp
  have hsum := sum_decrease h hs
  have hbytes : s.bytesFreed = ((lists .old).map (decrease g.manager s.gc.manager)).sum %
      wordSize := by
    have hmod := takeFold_bytes (s := ⟨g, 0, 0⟩) hnd h0 fun p hp =>
      ⟨hlive p (hsub hp), hword.2 p (hsub hp)⟩
    have hlt := takeFold_bytes_lt (s := ⟨g, 0, 0⟩) (show 0 < wordSize by decide)
      (g.manager.reclaims (lists .old) maxRegions)
    rw [← hs] at hmod hlt
    rw [hsum, ← Nat.mod_eq_of_lt hlt]
    exact hmod.trans (by rw [Nat.zero_add])
  refine ⟨fun p => ?_, hbytes, fun hsize => ?_, ?_, ?_, fun p hp => ?_, fun p hp => ?_⟩
  · by_cases hp : p ∈ g.manager.reclaims (lists .old) maxRegions
    · rw [(hall.bytes p hp).1]
      exact hlive p (hsub hp)
    · rw [hall.other p hp]
  · -- no more than the regions have room for, and they all lie in memory
    have hle : ((lists .old).map (decrease g.manager s.gc.manager)).sum ≤
        ((lists .old).map fun p => (g.manager.region p).size).sum :=
      List.sum_le_sum fun p hp => (Nat.sub_le _ _).trans (hsize p hp)
    rw [h.1.sum_sizes fun p hp => (h.of_old hp).1] at hle
    have hlen := (h.1.length_le .old).trans h.1.created_le
    have hroom : GC_REGION_SIZE_DEFAULT * 1024 < wordSize := by decide
    exact hbytes.trans (Nat.mod_eq_of_lt
      (lt_of_le_of_lt (hle.trans (Nat.mul_le_mul_left _ hlen)) hroom))
  · rw [ncard_changedRegions h hlive hs, changedRegions_eq h hlive hs]
    exact ⟨Finset.finite_toSet _, List.length_take_le _ _⟩
  · have hcounted := takeFold_counted (s := ⟨g, 0, 0⟩) hword.1
      (g.manager.reclaims (lists .old) maxRegions)
    rw [ncard_changedRegions h hlive hs]
    rw [← hs] at hcounted
    exact hcounted
  · obtain ⟨htarget, htest⟩ := reclaimableBy_of_mem_reclaims (hplan p hp)
    exact ⟨htarget, by omega⟩
  · obtain ⟨halloc, hkept⟩ := hall.bytes p (hplan p hp)
    refine ⟨halloc, hkept, fun hzero => (h'.1.mem .empty p).mpr ⟨?_, ?_, by simp⟩⟩
    · rw [hall.created]
      exact (h.of_old (hsub (hplan p hp))).1
    · have htype := takeFold_type (s := ⟨g, 0, 0⟩) hnd h0 (hplan p hp) hzero
      rw [← hs] at htype
      exact htype

end

/-- The loop as the code has it, when no region has more allocated than it has room for. -/
theorem gcReclaimRegions_counts (h : ListsOk g.manager lists) (hr : (lists .old).length < rounds)
    (hlive : ∀ p ∈ lists .old,
      (g.manager.region p).liveBytes ≤ (g.manager.region p).allocatedBytes ∧
        (g.manager.region p).allocatedBytes ≤ (g.manager.region p).size)
    (hword : g.stats.regionsReclaimed < wordSize) (n : ℕ) :
    ∃ g' bytesFreed lists', gcReclaimRegions rounds g n = some (g', bytesFreed) ∧
      ListsOk g'.manager lists' ∧
      ReclaimCounts g g' (lists .old) (lists' .empty) n bytesFreed := by
  have hsize : ∀ p ∈ lists .old, (g.manager.region p).allocatedBytes ≤ GC_REGION_SIZE_DEFAULT :=
    fun p hp => (h.1.created_index (h.of_old hp).1).2 ▸ (hlive p hp).2
  obtain ⟨s, lists', hs, hend, h'⟩ := gcReclaimRegionsExact_eq h hr n
  rw [gcReclaimRegions_exact h hr
    (fun p hp => ⟨(hlive p hp).1, lt_of_le_of_lt (hsize p hp) (by decide)⟩) n]
  exact ⟨s.gc, s.bytesFreed, lists', hend, h', reclaim_counts h (fun p hp => (hlive p hp).1) hs
    ⟨hword, fun p hp => lt_of_le_of_lt (hsize p hp) (by decide)⟩ h'⟩

end

/-- **What `gc_reclaim_regions` returns and counts** is what became of the regions. -/
theorem gc_reclaim_counts (g : Gc) (lists : GcRegionType → List ℕ) (rounds : ℕ) (maxRegions : ℤ)
    (h : ListsOk g.manager lists) (hr : (lists .old).length < rounds)
    (hlive : ∀ p ∈ lists .old,
      (g.manager.region p).liveBytes ≤ (g.manager.region p).allocatedBytes)
    (hword : g.stats.regionsReclaimed < wordSize ∧
      ∀ p ∈ lists .old, (g.manager.region p).allocatedBytes < wordSize) :
    ∃ g' bytesFreed lists', gcReclaimRegionsExact rounds g maxRegions = some (g', bytesFreed) ∧
      ListsOk g'.manager lists' ∧
      ReclaimCounts g g' (lists .old) (lists' .empty) maxRegions bytesFreed := by
  obtain ⟨s, lists', hs, hend, h'⟩ := gcReclaimRegionsExact_eq h hr maxRegions
  exact ⟨s.gc, s.bytesFreed, lists', hend, h', reclaim_counts h hlive hs hword h'⟩

/-- A collector with one old region, of whose 4096 allocated bytes 1024 are live. -/
def oneOldRegion : Gc :=
  let m := (gcRegionAlloc gcRegionManagerInit .old ⟨some 0x100, some 0x200000, true, true⟩).1
  { gcInit Gc.zero with
    manager := m.setRegion 0x100 { m.region 0x100 with allocatedBytes := 4096, liveBytes := 1024 } }

theorem oneOldRegion_lists : ∃ lists, ListsOk oneOldRegion.manager lists := by
  obtain ⟨hinv, hu⟩ := gcRegionManagerInit_inv
  have hfresh : ∀ p, some 0x100 = some p → p ≠ 0 ∧ p ∉ gcRegionManagerInit.created := by
    intro p hp
    rw [← Option.some.inj hp]
    exact ⟨by decide, by decide⟩
  obtain ⟨lists, hinv', hu'⟩ : ∃ lists, ListsOk (gcRegionAlloc gcRegionManagerInit .old
      ⟨some 0x100, some 0x200000, true, true⟩).1 lists := hinv.alloc hu .old hfresh
  exact ⟨lists, hinv'.setRegion rfl rfl (Or.inr rfl), hu'⟩

/-- The region is reclaimed. -/
theorem gc_reclaim_counts_old : ∃ (lists : GcRegionType → List ℕ) (g' : Gc) (bytesFreed : ℕ)
    (lists' : GcRegionType → List ℕ),
    gcReclaimRegionsExact 2000 oneOldRegion 10 = some (g', bytesFreed) ∧ ListsOk g'.manager lists' ∧
      ReclaimCounts oneOldRegion g' (lists .old) (lists' .empty) 10 bytesFreed := by
  obtain ⟨lists, h⟩ := oneOldRegion_lists
  have hlen := (h.1.length_le .old).trans h.1.created_le
  have hregion : ∀ p ∈ lists .old, p = 0x100 := fun p hp =>
    List.mem_singleton.mp ((h.1.mem .old p).mp hp).1
  refine ⟨lists, gc_reclaim_counts oneOldRegion lists 2000 10 h (by omega) (fun p hp => ?_)
    ⟨by decide, fun p hp => ?_⟩⟩
  · rw [hregion p hp]
    decide
  · rw [hregion p hp]
    decide

end Nomalloc
