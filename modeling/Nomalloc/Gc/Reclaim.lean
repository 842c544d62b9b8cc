import Nomalloc.Gc.CollectLoops

/-!
# `gc_reclaim_regions`

The loop over `old_regions`.  A region that is reclaimed loses what it has allocated above its live
bytes, and is freed when nothing is left.  The regions ahead of it keep their successors, so the
loop is a fold over the list.

* `GcRegion.reclaimable`     the test of the loop;
* `GcRegion.reclaimZeroes`   what is zeroed when a region is reclaimed;
* `ReclaimedAll m m' ps`     the regions `ps` are reclaimed, and the others left alone;
* `gcReclaimBodyBy needs`    the body of the loop, for any test `needs` of a region;
* `reclaimFold_plan`         the regions that the loop reclaims can be told before it starts;
* `gcReclaimRegions_spec`    the loop comes to its end, and reclaims the first `max_regions` regions
                             that pass the test.
-/

namespace Nomalloc

/-- The test of the loop of `gc_reclaim_regions`. -/
def GcRegion.reclaimable (r : GcRegion) : Bool := gcRegionNeedsReclaim r && !r.isCompactingTarget

/-- The calls of `memory_zero` when a region is reclaimed, and freed when no byte of it is live. -/
def GcRegion.reclaimZeroes (r : GcRegion) : List (ℕ × ℕ) :=
  (addW r.baseAddr r.liveBytes, subW r.allocatedBytes r.liveBytes) ::
    if r.liveBytes = 0 then [(r.baseAddr, r.size)] else []

/-- What the body of the loop does to a region that passes the test. -/
def ReclaimState.take (s : ReclaimState) (p : ℕ) : ReclaimState :=
  let m := gcRegionReclaim s.gc.manager p
  let bytesFreed := addW s.bytesFreed (m.region p).garbageBytes
  let m := if gcRegionIsEmpty (m.region p) then gcRegionFree m p else m
  { gc := { s.gc with
      manager := m
      stats := { s.gc.stats with
        regionsReclaimed := addW s.gc.stats.regionsReclaimed 1 } }
    reclaimed := s.reclaimed + 1
    bytesFreed := bytesFreed }

/-- The test of the loop, with `needs` for `gc_region_needs_reclaim`. -/
def GcRegion.reclaimableBy (needs : GcRegion → Bool) (r : GcRegion) : Bool :=
  needs r && !r.isCompactingTarget

/-- The body of the loop, with `needs` for `gc_region_needs_reclaim`. -/
def gcReclaimBodyBy (needs : GcRegion → Bool) (s : ReclaimState) (p : ℕ) : ReclaimState :=
  if (s.gc.manager.region p).reclaimableBy needs then s.take p else s

/-- What no collection stores to. -/
structure SameFlags (g g' : Gc) : Prop where
  initialized : g'.initialized = g.initialized
  active : g'.active = g.active
  mixed : g'.mixedGcEnabled = g.mixedGcEnabled

/-- The regions `ps` are reclaimed, and the others left alone. -/
structure ReclaimedAll (m m' : GcRegionManager) (ps : List ℕ) : Prop where
  created : m'.created = m.created
  other : ∀ q, q ∉ ps → m'.region q = m.region q
  place : ∀ q, (m'.region q).baseAddr = (m.region q).baseAddr ∧
    (m'.region q).size = (m.region q).size
  bytes : ∀ p ∈ ps, (m'.region p).allocatedBytes = (m.region p).liveBytes ∧
    (m'.region p).liveBytes = (m.region p).liveBytes
  zeroed : m'.zeroed = m.zeroed ++ ps.flatMap fun p => (m.region p).reclaimZeroes

section
variable {g g' g'' : Gc} {m m' m'' : GcRegionManager} {s : ReclaimState}
  {lists lists' : GcRegionType → List ℕ} {p q : ℕ} {ps kept kept' : List ℕ}
  {needs : GcRegion → Bool}

theorem SameFlags.refl (g : Gc) : SameFlags g g := ⟨rfl, rfl, rfl⟩

theorem SameFlags.trans (h : SameFlags g g') (h' : SameFlags g' g'') : SameFlags g g'' :=
  ⟨h'.initialized.trans h.initialized, h'.active.trans h.active, h'.mixed.trans h.mixed⟩

theorem ReclaimedAll.nil (m : GcRegionManager) : ReclaimedAll m m [] :=
  ⟨rfl, fun _ _ => rfl, fun _ => ⟨rfl, rfl⟩, fun _ hp => absurd hp List.not_mem_nil,
    (List.append_nil _).symm⟩

theorem ReclaimedAll.cons (h : ReclaimedAll m m' [p]) (h' : ReclaimedAll m' m'' ps)
    (hp : p ∉ ps) : ReclaimedAll m m'' (p :: ps) := by
  have hsame : ∀ q ∈ ps, m'.region q = m.region q := fun q hq =>
    h.other q fun hin => hp (List.mem_singleton.mp hin ▸ hq)
  refine ⟨h'.created.trans h.created, fun q hq => ?_, fun q => ?_, fun q hq => ?_, ?_⟩
  · obtain ⟨hqp, hqs⟩ := not_or.mp (mt List.mem_cons.mpr hq)
    exact (h'.other q hqs).trans (h.other q fun hin => hqp (List.mem_singleton.mp hin))
  · exact ⟨(h'.place q).1.trans (h.place q).1, (h'.place q).2.trans (h.place q).2⟩
  · rcases List.mem_cons.mp hq with rfl | hq
    · rw [h'.other q hp]
      exact h.bytes q (List.mem_singleton_self q)
    · rw [← hsame q hq]
      exact h'.bytes q hq
  · have hzeroes : (ps.flatMap fun q => (m'.region q).reclaimZeroes) =
        ps.flatMap fun q => (m.region q).reclaimZeroes :=
      List.flatMap_congr fun q hq => by rw [hsame q hq]
    rw [h'.zeroed, h.zeroed, hzeroes, List.append_assoc, List.flatMap_cons, List.flatMap_cons,
      List.flatMap_nil, List.append_nil]

/-! ## one region -/

theorem gcRegionReclaim_eq (hp : p ≠ 0) : ∃ r : GcRegion,
    gcRegionReclaim m p = { m.setRegion p r with
      zeroed := m.zeroed ++ [(addW (m.region p).baseAddr (m.region p).liveBytes,
        subW (m.region p).allocatedBytes (m.region p).liveBytes)] } ∧
      (r.id = (m.region p).id ∧ r.type = (m.region p).type) ∧
      (r.baseAddr = (m.region p).baseAddr ∧ r.size = (m.region p).size) ∧
      r.allocatedBytes = (m.region p).liveBytes ∧ r.liveBytes = (m.region p).liveBytes := by
  unfold gcRegionReclaim
  rw [if_neg hp]
  exact ⟨_, rfl, ⟨rfl, rfl⟩, ⟨rfl, rfl⟩, rfl, rfl⟩

/-- `gc_region_reclaim`, and `gc_region_free` of what is empty after it. -/
def reclaimRegion (m : GcRegionManager) (p : ℕ) : GcRegionManager :=
  if gcRegionIsEmpty ((gcRegionReclaim m p).region p) then gcRegionFree (gcRegionReclaim m p) p
  else gcRegionReclaim m p

theorem ReclaimedAll.one (hcreated : m'.created = m.created)
    (hother : ∀ q, q ≠ p → m'.region q = m.region q)
    (hplace : (m'.region p).baseAddr = (m.region p).baseAddr ∧
      (m'.region p).size = (m.region p).size)
    (hbytes : (m'.region p).allocatedBytes = (m.region p).liveBytes ∧
      (m'.region p).liveBytes = (m.region p).liveBytes)
    (hzeroed : m'.zeroed = m.zeroed ++ (m.region p).reclaimZeroes) : ReclaimedAll m m' [p] := by
  refine ⟨hcreated, fun q hq => hother q fun he => hq (he ▸ List.mem_singleton_self p),
    fun q => ?_, fun q hq => ?_, ?_⟩
  · by_cases hq : q = p
    · rw [hq]
      exact hplace
    · rw [hother q hq]
      exact ⟨rfl, rfl⟩
  · rw [List.mem_singleton.mp hq]
    exact hbytes
  · rw [hzeroed, List.flatMap_cons, List.flatMap_nil, List.append_nil]

theorem reclaimRegion_spec (hp : p ≠ 0) : ReclaimedAll m (reclaimRegion m p) [p] := by
  obtain ⟨r, hrec, -, ⟨hbase, hsize⟩, halloc, hlive⟩ := gcRegionReclaim_eq (m := m) hp
  have hread : (gcRegionReclaim m p).region p = r := by
    rw [hrec]
    exact Function.update_self ..
  have hother : ∀ q, q ≠ p → (gcRegionReclaim m p).region q = m.region q := by
    intro q hq
    rw [hrec]
    exact Function.update_of_ne hq ..
  have hcreated : (gcRegionReclaim m p).created = m.created := by
    rw [hrec]
    rfl
  have hzeroed : (gcRegionReclaim m p).zeroed = m.zeroed ++ [(addW (m.region p).baseAddr
      (m.region p).liveBytes, subW (m.region p).allocatedBytes (m.region p).liveBytes)] := by
    rw [hrec]
  unfold reclaimRegion gcRegionIsEmpty
  rw [hread, halloc]
  by_cases hempty : (m.region p).liveBytes = 0
  · rw [if_pos (decide_eq_true hempty)]
    obtain ⟨r', hregion, hcreated', -, hzeroed', -, ⟨hbase', hsize'⟩, ⟨halloc', hlive'⟩, -⟩ :=
      gcRegionFree_record (m := gcRegionReclaim m p) hp
    rw [hread] at hbase' hsize' hzeroed'
    have hread' : (gcRegionFree (gcRegionReclaim m p) p).region p = r' := by
      rw [hregion, Function.update_self]
    refine ReclaimedAll.one (hcreated'.trans hcreated) (fun q hq => ?_) ?_ ?_ ?_
    · rw [hregion, Function.update_of_ne hq]
      exact hother q hq
    · rw [hread']
      exact ⟨hbase'.trans hbase, hsize'.trans hsize⟩
    · rw [hread']
      exact ⟨halloc'.trans hempty.symm, hlive'.trans hempty.symm⟩
    · unfold GcRegion.reclaimZeroes
      rw [hzeroed', hzeroed, hbase, hsize, List.append_assoc, if_pos hempty]
      rfl
  · rw [if_neg fun h => hempty (of_decide_eq_true h)]
    refine ReclaimedAll.one hcreated hother (by rw [hread]; exact ⟨hbase, hsize⟩)
      (by rw [hread]; exact ⟨halloc, hlive⟩) ?_
    unfold GcRegion.reclaimZeroes
    rw [if_neg hempty]
    exact hzeroed

theorem ReclaimState.take_spec (s : ReclaimState) (p : ℕ) :
    (s.take p).gc.manager = reclaimRegion s.gc.manager p ∧
      (s.take p).reclaimed = s.reclaimed + 1 ∧ SameFlags s.gc (s.take p).gc :=
  ⟨rfl, rfl, rfl, rfl, rfl⟩

theorem ReclaimState.take_reclaims (s : ReclaimState) (hp : p ≠ 0) :
    ReclaimedAll s.gc.manager (s.take p).gc.manager [p] := by
  rw [(s.take_spec p).1]
  exact reclaimRegion_spec hp

theorem gcReclaimBody_eq : gcReclaimBody = gcReclaimBodyBy gcRegionNeedsReclaim := rfl

/-- The body reclaims the region, or leaves everything as it is. -/
theorem gcReclaimBodyBy_cases (needs : GcRegion → Bool) (s : ReclaimState) (p : ℕ) :
    ((s.gc.manager.region p).reclaimableBy needs = true ∧ gcReclaimBodyBy needs s p = s.take p) ∨
      (s.gc.manager.region p).reclaimableBy needs = false ∧ gcReclaimBodyBy needs s p = s := by
  unfold gcReclaimBodyBy
  cases (s.gc.manager.region p).reclaimableBy needs with
  | true => exact Or.inl ⟨rfl, if_pos rfl⟩
  | false => exact Or.inr ⟨rfl, if_neg Bool.false_ne_true⟩

theorem gcReclaimBodyBy_flags (needs : GcRegion → Bool) (s : ReclaimState) (p : ℕ) :
    SameFlags s.gc (gcReclaimBodyBy needs s p).gc := by
  rcases gcReclaimBodyBy_cases needs s p with ⟨-, he⟩ | ⟨-, he⟩
  · rw [he]
    exact (s.take_spec p).2.2
  · rw [he]
    exact SameFlags.refl _

theorem gcReclaimBodyBy_other (needs : GcRegion → Bool) (hp : p ≠ 0) :
    (gcReclaimBodyBy needs s p).gc.manager.created = s.gc.manager.created ∧
      ∀ q, q ≠ p → (gcReclaimBodyBy needs s p).gc.manager.region q = s.gc.manager.region q := by
  rcases gcReclaimBodyBy_cases needs s p with ⟨-, he⟩ | ⟨-, he⟩
  · have hall := s.take_reclaims hp
    rw [he]
    exact ⟨hall.created, fun q hq => hall.other q fun hin => hq (List.mem_singleton.mp hin)⟩
  · rw [he]
    exact ⟨rfl, fun _ _ => rfl⟩

/-! ## the loop -/

/-- A region that is on `old_regions` is reclaimed: those behind it stay on the list. -/
theorem ListsOk.reclaimRegion (h : ListsOk m lists) (hold : lists .old = kept ++ p :: ps) :
    ∃ lists' kept', ListsOk (reclaimRegion m p) lists' ∧ lists' .old = kept' ++ ps := by
  have hin : p ∈ lists .old := hold ▸ List.mem_append_right _ List.mem_cons_self
  obtain ⟨hp, htype, -⟩ := (h.1.mem .old p).mp hin
  obtain ⟨hp0, -⟩ := h.1.created_index hp
  obtain ⟨r, hrec, ⟨hid, htype'⟩, ⟨-, hsize⟩, -⟩ := gcRegionReclaim_eq (m := m) hp0
  have hinv : ListsOk (gcRegionReclaim m p) lists := by
    rw [hrec]
    exact ⟨(h.1.setRegion hid hsize (Or.inr htype')).withZeroed _, h.2⟩
  unfold Nomalloc.reclaimRegion
  split_ifs
  · have hcreated : p ∈ (gcRegionReclaim m p).created := by
      rw [hrec]
      exact hp
    have hne : ((gcRegionReclaim m p).region p).type ≠ .empty := by
      rw [hrec]
      show (Function.update m.region p r p).type ≠ .empty
      rw [Function.update_self, htype', htype]
      decide
    obtain ⟨lists', hfreed, hlists⟩ := hinv.1.free hinv.2 hcreated hne
    have hnd := h.1.typeLists.list_nodup .old
    rw [hold] at hnd
    have hnot : p ∉ kept := fun hk =>
      (List.nodup_append.mp hnd).2.2 p hk p List.mem_cons_self rfl
    refine ⟨lists', kept, hfreed, ?_⟩
    rw [hlists .old (by decide), hold, List.erase_append_right _ hnot, List.erase_cons_head]
  · refine ⟨lists, kept ++ [p], hinv, ?_⟩
    rw [hold, List.append_assoc, List.singleton_append]

theorem ListsOk.reclaimBody (h : ListsOk s.gc.manager lists) (hold : lists .old = kept ++ p :: ps)
    (needs : GcRegion → Bool) :
    ∃ lists' kept', ListsOk (gcReclaimBodyBy needs s p).gc.manager lists' ∧
      lists' .old = kept' ++ ps := by
  rcases gcReclaimBodyBy_cases needs s p with ⟨-, he⟩ | ⟨-, he⟩
  · rw [he, (s.take_spec p).1]
    exact h.reclaimRegion hold
  · rw [he]
    refine ⟨lists, kept ++ [p], h, ?_⟩
    rw [hold, List.append_assoc, List.singleton_append]

/-- The last regions of `old_regions` have the successors they had. -/
theorem ListsOk.next_eq (h : ListsOk m lists) (h' : ListsOk m' lists') (hold : lists .old = kept ++ ps)
    (hold' : lists' .old = kept' ++ ps) :
    ∀ n ∈ ps.map GcNode.region, m'.links.next n = m.links.next n := by
  have hpath := (h.1.circ.circ .old).next
  have hpath' := (h'.1.circ.circ .old).next
  rw [hold, List.map_append] at hpath
  rw [hold', List.map_append] at hpath'
  obtain ⟨o, hsuffix⟩ := hpath.suffix
  obtain ⟨o', hsuffix'⟩ := hpath'.suffix
  exact hsuffix.agree hsuffix'

/-- The body of the loop as a function of nodes; the heads are never worked on. -/
def reclaimNode (needs : GcRegion → Bool) (s : ReclaimState) : GcNode → ReclaimState
  | .region p => gcReclaimBodyBy needs s p
  | .head _ => s

/-- **The loop** comes to its end: it is a fold over `old_regions` until it breaks off. -/
theorem reclaimLoop_eq (h : ListsOk g.manager lists) {rounds : ℕ}
    (hr : (lists .old).length < rounds) (needs : GcRegion → Bool) (stop : ReclaimState → Bool) :
    forEachSafe (fun s : ReclaimState => s.gc.manager.links) (.head .old) stop
      (fun s n => match n with
        | .region p => some (gcReclaimBodyBy needs s p)
        | .head _ => none)
      rounds (g.manager.links.next (.head .old))
      ((g.manager.links.next (.head .old)).bind g.manager.links.next) ⟨g, 0, 0⟩ =
    some (foldUntil stop (gcReclaimBodyBy needs) ⟨g, 0, 0⟩ (lists .old)) := by
  have hring := h.1.circ.circ .old
  have hrule := forEachSafe_path (fun s : ReclaimState => s.gc.manager.links) stop
    (fun s n => match n with
      | .region p => some (gcReclaimBodyBy needs s p)
      | .head _ => none)
    (reclaimNode needs)
    (fun ns s => ∃ lists kept ps, ns = ps.map GcNode.region ∧ ListsOk s.gc.manager lists ∧
      lists .old = kept ++ ps)
    ?_ (s := ⟨g, 0, 0⟩)
    (n := (g.manager.links.next (.head .old)).bind g.manager.links.next) hring.next
    (fun n ns hns => ?_) (List.nodup_cons.mp hring.nodup).1 ⟨lists, [], lists .old, rfl, h, rfl⟩
    (rounds - ((lists .old).length + 1))
  · rw [List.length_map, show (lists .old).length + 1 + (rounds - ((lists .old).length + 1)) =
      rounds by omega, foldUntil_map] at hrule
    exact hrule
  · rintro n ns s ⟨lists, kept, ps, hns, hlists, hold⟩ -
    obtain ⟨p, ps, rfl, rfl, rfl⟩ := List.map_eq_cons_iff.mp hns.symm
    obtain ⟨lists', kept', hlists', hold'⟩ := hlists.reclaimBody hold needs
    have hold1 : lists .old = (kept ++ [p]) ++ ps := by
      rw [hold, List.append_assoc, List.singleton_append]
    exact ⟨rfl, ⟨lists', kept', ps, rfl, hlists', hold'⟩, hlists.next_eq hlists' hold1 hold'⟩
  · have hpath := hring.next
    rw [hns] at hpath
    rw [hpath.1]
    rfl

theorem gcReclaimRegions_eq (h : ListsOk g.manager lists) {rounds : ℕ}
    (hr : (lists .old).length < rounds) (maxRegions : ℕ) :
    ∃ s, s = foldUntil (fun s => decide (maxRegions ≤ s.reclaimed)) gcReclaimBody ⟨g, 0, 0⟩
        (lists .old) ∧
      gcReclaimRegions rounds g maxRegions = some (s.gc, s.bytesFreed) :=
  ⟨_, rfl, congrArg (Option.map fun s : ReclaimState => (s.gc, s.bytesFreed))
    (reclaimLoop_eq h hr gcRegionNeedsReclaim fun s => decide (maxRegions ≤ s.reclaimed))⟩

/-- The lists are kept to the end, whatever regions the fold goes over: they are old, and none of
them comes twice. -/
theorem reclaimFold_lists (needs : GcRegion → Bool) (stop : ReclaimState → Bool)
    (h : ∃ lists, ListsOk s.gc.manager lists) (hnd : ps.Nodup)
    (hold : ∀ p ∈ ps, p ∈ s.gc.manager.created ∧ (s.gc.manager.region p).type = .old) :
    ∃ lists, ListsOk (foldUntil stop (gcReclaimBodyBy needs) s ps).gc.manager lists := by
  induction ps generalizing s with
  | nil => exact h
  | cons p ps ih =>
    obtain ⟨hp, hnd⟩ := List.nodup_cons.mp hnd
    show ∃ lists', ListsOk (if stop s then s else foldUntil stop (gcReclaimBodyBy needs)
      (gcReclaimBodyBy needs s p) ps).gc.manager lists'
    split_ifs
    · exact h
    · obtain ⟨lists, hlists⟩ := h
      obtain ⟨hcreated, htype⟩ := hold p List.mem_cons_self
      obtain ⟨hsame, hother⟩ :=
        gcReclaimBodyBy_other (s := s) needs (hlists.1.created_index hcreated).1
      obtain ⟨kept, rest, hl⟩ :=
        List.append_of_mem ((hlists.1.mem .old p).mpr ⟨hcreated, htype, by simp⟩)
      obtain ⟨lists', -, hlists', -⟩ := hlists.reclaimBody hl needs
      refine ih ⟨lists', hlists'⟩ hnd fun q hq => ?_
      have hne : q ≠ p := by
        rintro rfl
        exact hp hq
      rw [hsame, hother q hne]
      exact hold q (List.mem_cons_of_mem _ hq)

theorem reclaimFold_flags (needs : GcRegion → Bool) (stop : ReclaimState → Bool) (s : ReclaimState)
    (ps : List ℕ) :
    SameFlags s.gc (foldUntil stop (gcReclaimBodyBy needs) s ps).gc := by
  induction ps generalizing s with
  | nil => exact SameFlags.refl _
  | cons p ps ih =>
    show SameFlags s.gc (if stop s then s else foldUntil stop (gcReclaimBodyBy needs)
      (gcReclaimBodyBy needs s p) ps).gc
    split_ifs
    · exact SameFlags.refl _
    · exact (gcReclaimBodyBy_flags needs s p).trans (ih _)

/-- The regions that the loop reclaims are the first that pass the test before it starts. -/
theorem reclaimFold_plan (needs : GcRegion → Bool) (maxRegions : ℕ) (hnd : ps.Nodup) (h0 : 0 ∉ ps) :
    foldUntil (fun s => decide (maxRegions ≤ s.reclaimed)) (gcReclaimBodyBy needs) s ps =
      ((ps.filter fun p => (s.gc.manager.region p).reclaimableBy needs).take
        (maxRegions - s.reclaimed)).foldl ReclaimState.take s := by
  induction ps generalizing s with
  | nil =>
    rw [List.filter_nil, List.take_nil]
    rfl
  | cons p ps ih =>
    obtain ⟨hp, hnd⟩ := List.nodup_cons.mp hnd
    obtain ⟨hp0, h0⟩ := not_or.mp (mt List.mem_cons.mpr h0)
    show (if decide (maxRegions ≤ s.reclaimed) then s else
      foldUntil _ (gcReclaimBodyBy needs) (gcReclaimBodyBy needs s p) ps) = _
    by_cases hstop : maxRegions ≤ s.reclaimed
    · rw [if_pos (decide_eq_true hstop), Nat.sub_eq_zero_of_le hstop, List.take_zero]
      rfl
    rw [if_neg fun hd => hstop (of_decide_eq_true hd), ih hnd h0]
    rcases gcReclaimBodyBy_cases needs s p with ⟨ht, he⟩ | ⟨ht, he⟩
    · have hone := s.take_reclaims (Ne.symm hp0)
      -- the test of the others is not affected
      have hfilter : (ps.filter fun q => ((s.take p).gc.manager.region q).reclaimableBy needs) =
          ps.filter fun q => (s.gc.manager.region q).reclaimableBy needs := by
        refine List.filter_congr fun q hq => ?_
        rw [hone.other q fun hin => hp (List.mem_singleton.mp hin ▸ hq)]
      rw [he, hfilter, (s.take_spec p).2.1, List.filter_cons_of_pos (by exact ht),
        show maxRegions - s.reclaimed = (maxRegions - (s.reclaimed + 1)) + 1 by omega,
        List.take_succ_cons]
      rfl
    · rw [he, List.filter_cons_of_neg (by rw [ht]; exact Bool.false_ne_true)]

theorem takeFold_reclaims (hnd : ps.Nodup) (h0 : 0 ∉ ps) :
    ReclaimedAll s.gc.manager (ps.foldl ReclaimState.take s).gc.manager ps := by
  induction ps generalizing s with
  | nil => exact ReclaimedAll.nil _
  | cons p ps ih =>
    obtain ⟨hp, hnd⟩ := List.nodup_cons.mp hnd
    obtain ⟨hp0, h0⟩ := not_or.mp (mt List.mem_cons.mpr h0)
    exact (s.take_reclaims (Ne.symm hp0)).cons (ih hnd h0) hp

/-- The fold reclaims the first regions that pass the test. -/
theorem reclaimFold_spec (maxRegions : ℕ) (hnd : ps.Nodup) (h0 : 0 ∉ ps) :
    ReclaimedAll s.gc.manager
      (foldUntil (fun s => decide (maxRegions ≤ s.reclaimed)) gcReclaimBody s ps).gc.manager
      ((ps.filter fun p => (s.gc.manager.region p).reclaimable).take
        (maxRegions - s.reclaimed)) := by
  have hplan := reclaimFold_plan (s := s) gcRegionNeedsReclaim maxRegions hnd h0
  rw [gcReclaimBody_eq, hplan]
  exact takeFold_reclaims ((hnd.filter _).sublist (List.take_sublist _ _))
    fun hin => h0 (List.mem_of_mem_filter (List.mem_of_mem_take hin))

theorem ListsOk.of_old (h : ListsOk m lists) (hp : p ∈ lists .old) :
    p ∈ m.created ∧ (m.region p).type = .old :=
  ⟨((h.1.mem .old p).mp hp).1, ((h.1.mem .old p).mp hp).2.1⟩

theorem ListsOk.old_notNull (h : ListsOk m lists) : 0 ∉ lists .old := fun hin =>
  (h.1.created_index (h.of_old hin).1).1 rfl

/-- **`gc_reclaim_regions`** comes to its end, and reclaims the first `max_regions` regions of
`old_regions` that pass the test. -/
theorem gcReclaimRegions_spec (h : ListsOk g.manager lists) {rounds : ℕ}
    (hr : (lists .old).length < rounds) (maxRegions : ℕ) :
    ∃ g' bytesFreed lists', gcReclaimRegions rounds g maxRegions = some (g', bytesFreed) ∧
      SameFlags g g' ∧ ListsOk g'.manager lists' ∧
      ReclaimedAll g.manager g'.manager (((lists .old).filter fun p =>
        (g.manager.region p).reclaimable).take maxRegions) := by
  obtain ⟨s, hs, hend⟩ := gcReclaimRegions_eq h hr maxRegions
  have hnd := h.1.typeLists.list_nodup .old
  have hlists := reclaimFold_lists (s := ⟨g, 0, 0⟩) gcRegionNeedsReclaim
    (fun s => decide (maxRegions ≤ s.reclaimed)) ⟨lists, h⟩ hnd fun p hp => h.of_old hp
  have hspec := reclaimFold_spec (s := ⟨g, 0, 0⟩) maxRegions hnd h.old_notNull
  have hflags := reclaimFold_flags gcRegionNeedsReclaim
    (fun s => decide (maxRegions ≤ s.reclaimed)) ⟨g, 0, 0⟩ (lists .old)
  rw [← gcReclaimBody_eq, ← hs] at hlists hflags
  rw [← hs] at hspec
  obtain ⟨lists', hlists⟩ := hlists
  exact ⟨s.gc, s.bytesFreed, lists', hend, hflags, hlists, hspec⟩

end

end Nomalloc
