import Nomalloc.Gc.ReclaimBytes
import Nomalloc.Gc.Register
import Mathlib.Data.Rat.Defs

/-!
# The books of the collector

What is registered is booked in the region that has its address; a collection books what it frees in
`bytes_freed`.  The rest of the bytes leave by `gc_unregister_object`, and with the regions that are
freed or handed out again.  The counters are words: the books balance modulo `2^64`.

* `gcEnable`, `gcDisable`, `gcSetMixedGcRatio`, `gcResetStats`, `gcWriteBarrier`
* `GcTally`              the counters that marking, ageing and reclaiming leave alone;
* `Spent m m' n`         the regions have `n` bytes less;
* `gcRun_booked`         what one collection books;
* `GcBooks`              the collector, with what it was told;
* `gc_books_balance`     the books balance in every state of every run.
-/

namespace Nomalloc

/-! ## the other calls -/

/-- `gc_enable` -/
def gcEnable (g : Gc) : Gc × ℤ :=
  if !g.initialized then (g, -1) else ({ g with active := true }, 0)

/-- `gc_disable` -/
def gcDisable (g : Gc) : Gc × ℤ :=
  if !g.initialized then (g, -1) else ({ g with active := false }, 0)

/-- `gc_set_mixed_gc_ratio`, for a ratio that is a number -/
def gcSetMixedGcRatio (g : Gc) (ratio : ℚ) : Gc × ℤ :=
  if ratio < 0 ∨ 1 < ratio then (g, -1) else ({ g with mixedGcEnabled := decide (0 < ratio) }, 0)

/-- `gc_reset_stats`; the sizes of the generations stay. -/
def gcResetStats (g : Gc) : Gc × ℤ :=
  ({ g with
    stats := { g.stats with
      gcCount := 0
      youngGcCount := 0
      mixedGcCount := 0
      fullGcCount := 0
      bytesFreed := 0
      regionsReclaimed := 0 } }, 0)

/-- `gc_write_barrier` -/
def gcWriteBarrier (g : Gc) (ptr : ℕ) : Gc :=
  if !g.initialized || !g.concurrentActive then g
  else
    match gcRegionGetByAddr g.manager ptr with
    | none => g
    | some p => { g with manager := gcRegionMarkObject g.manager p ptr }

/-! ## the books -/

/-- The region that `gc_register_object` and `gc_unregister_object` book in. -/
def Gc.finds (g : Gc) (ptr : ℕ) : Option ℕ :=
  if !g.initialized || decide (ptr = 0) then none else gcRegionGetByAddr g.manager ptr

/-- The region whose bytes are forgotten. -/
def GcRegionOp.emptied (m : GcRegionManager) : GcRegionOp → Option ℕ
  | .alloc type env => (gcRegionAlloc m type env).2.filter (· ∈ m.created)
  | .free p => some p
  | .age _ => none

/-- The bytes that are booked in the regions. -/
def GcRegionManager.allocated (m : GcRegionManager) : ℕ :=
  (m.created.map fun p => (m.region p).allocatedBytes).sum

/-- A collector, with the bytes that were registered, withdrawn by `gc_unregister_object` and dropped
with the regions that were freed or used again, the bytes that `gc_reset_stats` has cleared, and the
collections so far. -/
structure GcBooks where
  gc : Gc
  registered : ℕ
  withdrawn : ℕ
  dropped : ℕ
  cleared : ℕ
  served : ℕ

inductive GcBooksOp where
  | region (op : GcRegionOp)
  | register (ptr size : ℕ)
  | unregister (ptr : ℕ)
  | collect (k : GcKind) (rounds : ℕ)
  | collectAsync
  | barrier (ptr : ℕ)
  | barrierPre (oldValue newValue : ℕ)
  | enable
  | disable
  | mixedGcRatio (ratio : ℚ)
  | resetStats

namespace GcBooks

/-- After `gc_init`. -/
def init : GcBooks := ⟨gcInit Gc.zero, 0, 0, 0, 0, 0⟩

/-- A collection that does not come to its end has no result; the run stays where it is. -/
def step (s : GcBooks) : GcBooksOp → GcBooks
  | .region op =>
    { s with
      gc := { s.gc with manager := s.gc.manager.step op }
      dropped := s.dropped +
        (op.emptied s.gc.manager).elim 0 fun p => (s.gc.manager.region p).allocatedBytes }
  | .register ptr size =>
    { s with
      gc := gcRegisterObject s.gc ptr size
      registered := s.registered + (s.gc.finds ptr).elim 0 fun _ => size }
  | .unregister ptr =>
    { s with
      gc := gcUnregisterObject s.gc ptr
      withdrawn := s.withdrawn +
        (s.gc.finds ptr).elim 0 fun p => (s.gc.manager.region p).size }
  | .collect k rounds =>
    match gcRun k rounds s.gc with
    | some (g, code) => { s with gc := g, served := if code = 0 then s.served + 1 else s.served }
    | none => s
  | .collectAsync => { s with gc := (gcCollectAsync s.gc).1 }
  | .barrier ptr => { s with gc := gcWriteBarrier s.gc ptr }
  | .barrierPre oldValue newValue => { s with gc := gcWriteBarrierPre s.gc oldValue newValue }
  | .enable => { s with gc := (gcEnable s.gc).1 }
  | .disable => { s with gc := (gcDisable s.gc).1 }
  | .mixedGcRatio ratio => { s with gc := (gcSetMixedGcRatio s.gc ratio).1 }
  | .resetStats =>
    { s with
      gc := (gcResetStats s.gc).1
      cleared := s.cleared + s.gc.stats.bytesFreed }

/-- The books of a collector that is between two calls. -/
structure Balanced (s : GcBooks) : Prop where
  bytes : s.gc.manager.allocated +
    (s.gc.stats.bytesFreed + s.cleared + s.withdrawn + s.dropped) ≡ s.registered [MOD wordSize]
  young : s.gc.stats.youngGenSize ≡ s.registered [MOD wordSize]
  kinds : s.gc.stats.gcCount ≡ s.gc.stats.youngGcCount + s.gc.stats.mixedGcCount +
    s.gc.stats.fullGcCount [MOD wordSize]
  epoch : s.gc.currentEpoch ≡ s.served [MOD wordSize]
  idle : s.gc.state = .idle ∧ s.gc.phase = .idle

end GcBooks

/-- Regions are allocated, freed and aged as the manager has it; the loops of a collection are given
more rounds than there are regions. -/
def GcBooksOp.Legal (s : GcBooks) : GcBooksOp → Prop
  | .region op => op.Legal s.gc.manager
  | .collect _ rounds => GC_MAX_REGIONS < rounds
  | _ => True

/-! ## the counters -/

/-- The counters that marking, ageing and reclaiming leave alone. -/
structure GcTally where
  epoch : ℕ
  collections : ℕ
  young : ℕ
  mixed : ℕ
  full : ℕ
  bytesFreed : ℕ
  youngGenSize : ℕ

def Gc.tally (g : Gc) : GcTally where
  epoch := g.currentEpoch
  collections := g.stats.gcCount
  young := g.stats.youngGcCount
  mixed := g.stats.mixedGcCount
  full := g.stats.fullGcCount
  bytesFreed := g.stats.bytesFreed
  youngGenSize := g.stats.youngGenSize

/-- What a collection books that has freed `freed` bytes; `gc_collect` counts as a young one. -/
def GcTally.collected (t : GcTally) (k : GcKind) (freed : ℕ) : GcTally :=
  { t with
    epoch := addW t.epoch 1
    collections := addW t.collections 1
    young := if k = .young ∨ k = .collect then addW t.young 1 else t.young
    mixed := if k = .mixed then addW t.mixed 1 else t.mixed
    full := if k = .full then addW t.full 1 else t.full
    bytesFreed := addW t.bytesFreed freed }

/-- As many collections as there were of the three kinds. -/
def GcTally.Kinds (t : GcTally) : Prop :=
  t.collections ≡ t.young + t.mixed + t.full [MOD wordSize]

/-- A part of a collection, which books nothing. -/
structure Walked (g g' : Gc) : Prop where
  tally : g'.tally = g.tally
  phase : g'.phase = g.phase

section
variable {g g' g'' : Gc} {m m' m'' : GcRegionManager} {lists : GcRegionType → List ℕ} {p q : ℕ}
  {ps : List ℕ} {rounds : ℕ}

theorem Walked.refl (g : Gc) : Walked g g := ⟨rfl, rfl⟩

theorem Walked.trans (h : Walked g g') (h' : Walked g' g'') : Walked g g'' :=
  ⟨h'.tally.trans h.tally, h'.phase.trans h.phase⟩

theorem gcMarkRegion_walked (g : Gc) (p : ℕ) : Walked g (gcMarkRegion g p) := by
  unfold gcMarkRegion
  split_ifs
  · exact Walked.refl g
  · exact ⟨rfl, rfl⟩

theorem gcAge_walked (g : Gc) (p : ℕ) : Walked g (gcAge g p) := ⟨rfl, rfl⟩

theorem gcForEachRegion_walked {t : GcRegionType} {body : Gc → ℕ → Gc}
    (hbody : ∀ g p, Walked g (body g p)) {r : List GcNode × Gc}
    (h : gcForEachRegion t body rounds g = some r) : Walked g r.2 := by
  refine forEach_keeps (P := Walked g) (fun g' n g'' hg hn => ?_) (Walked.refl g) h
  cases n with
  | head t => exact absurd hn (by simp [onRegion])
  | region p =>
    rw [← Option.some.inj hn]
    exact hg.trans (hbody g' p)

theorem gcMarkAllRegions_walked (h : gcMarkAllRegions rounds g = some g') : Walked g g' := by
  obtain ⟨r, hr, h⟩ := Option.bind_eq_some_iff.mp h
  obtain ⟨r', hr', h⟩ := Option.bind_eq_some_iff.mp h
  obtain ⟨r'', hr'', rfl⟩ := Option.map_eq_some_iff.mp h
  exact ((gcForEachRegion_walked gcMarkRegion_walked hr).trans
    (gcForEachRegion_walked gcMarkRegion_walked hr')).trans
      (gcForEachRegion_walked gcMarkRegion_walked hr'')

theorem gcMarkAgeYoung_walked {r : List GcNode × Gc} (h : gcMarkAgeYoung rounds g = some r) :
    Walked g r.2 :=
  gcForEachRegion_walked (fun g p => (gcMarkRegion_walked g p).trans (gcAge_walked _ p)) h

theorem gcAgeYoung_walked {r : List GcNode × Gc} (h : gcAgeYoung rounds g = some r) :
    Walked g r.2 :=
  gcForEachRegion_walked gcAge_walked h

theorem takeFold_walked (s : ReclaimState) (ps : List ℕ) :
    Walked s.gc (ps.foldl ReclaimState.take s).gc := by
  induction ps generalizing s with
  | nil => exact Walked.refl _
  | cons p ps ih =>
    have hone : Walked s.gc (s.take p).gc := ⟨rfl, rfl⟩
    exact hone.trans (ih _)

/-! ## the bytes -/

/-- The counts are words. -/
def GcRegionManager.Words (m : GcRegionManager) : Prop :=
  ∀ p, (m.region p).allocatedBytes < wordSize ∧ (m.region p).liveBytes < wordSize

/-- The regions have `freed` bytes less. -/
structure Spent (m m' : GcRegionManager) (freed : ℕ) : Prop where
  created : m'.created = m.created
  bytes : m'.allocated + freed ≡ m.allocated [MOD wordSize]
  words : m'.Words

/-- One number of a sum changes. -/
theorem sum_map_change {l : List ℕ} (hnd : l.Nodup) (hp : p ∈ l) (f f' : ℕ → ℕ)
    (hother : ∀ q, q ≠ p → f' q = f q) : (l.map f').sum + f p = (l.map f).sum + f' p := by
  obtain ⟨as, bs, rfl⟩ := List.append_of_mem hp
  have hnot := (List.nodup_middle.mp hnd)
  obtain ⟨hp', -⟩ := List.nodup_cons.mp hnot
  have hsame : ∀ l' : List ℕ, (∀ q ∈ l', q ∈ as ++ bs) → l'.map f' = l'.map f := fun l' hl =>
    List.map_congr_left fun q hq => hother q fun he => hp' (he ▸ hl q hq)
  rw [List.map_append, List.map_append, List.map_cons, List.map_cons, List.sum_append,
    List.sum_append, List.sum_cons, List.sum_cons,
    hsame as fun q hq => List.mem_append_left _ hq, hsame bs fun q hq => List.mem_append_right _ hq]
  omega

/-- One region gains `gain` bytes and loses `loss`. -/
theorem allocated_change (gain loss : ℕ) (hnd : m.created.Nodup) (hp : p ∈ m.created)
    (hcreated : m'.created = m.created)
    (hother : ∀ q, q ≠ p → (m'.region q).allocatedBytes = (m.region q).allocatedBytes)
    (hone : (m'.region p).allocatedBytes + loss ≡ (m.region p).allocatedBytes + gain [MOD wordSize]) :
    m'.allocated + loss ≡ m.allocated + gain [MOD wordSize] := by
  have hsum := sum_map_change hnd hp _ _ hother
  refine Nat.ModEq.add_right_cancel' (m.region p).allocatedBytes ?_
  unfold GcRegionManager.allocated
  rw [hcreated]
  calc (m.created.map fun q => (m'.region q).allocatedBytes).sum + loss +
        (m.region p).allocatedBytes
      = (m.created.map fun q => (m.region q).allocatedBytes).sum +
        ((m'.region p).allocatedBytes + loss) := by omega
    _ ≡ (m.created.map fun q => (m.region q).allocatedBytes).sum +
        ((m.region p).allocatedBytes + gain) [MOD wordSize] := hone.add_left _
    _ = _ := by omega

theorem allocated_congr (hcreated : m'.created = m.created)
    (hsame : ∀ q, (m'.region q).allocatedBytes = (m.region q).allocatedBytes) :
    m'.allocated = m.allocated := by
  unfold GcRegionManager.allocated
  rw [hcreated, List.map_congr_left fun q _ => hsame q]

/-! ## what a collection books -/

theorem take_spent {s : ReclaimState} (hnd : s.gc.manager.created.Nodup)
    (hp : p ∈ s.gc.manager.created) (hp0 : p ≠ 0) (hw : s.gc.manager.Words) :
    (s.take p).gc.manager.created = s.gc.manager.created ∧ (s.take p).gc.manager.Words ∧
      (s.take p).gc.manager.allocated + (s.take p).bytesFreed ≡
        s.gc.manager.allocated + s.bytesFreed [MOD wordSize] := by
  have hall := s.take_reclaims hp0
  obtain ⟨halloc, hlive⟩ := hall.bytes p (List.mem_singleton_self p)
  have hother : ∀ q, q ≠ p → (s.take p).gc.manager.region q = s.gc.manager.region q := fun q hq =>
    hall.other q fun hin => hq (List.mem_singleton.mp hin)
  obtain ⟨gone, hgone⟩ : ∃ gone, gone = subW (s.gc.manager.region p).allocatedBytes
    (s.gc.manager.region p).liveBytes := ⟨_, rfl⟩
  have hone : ((s.take p).gc.manager.region p).allocatedBytes + gone ≡
      (s.gc.manager.region p).allocatedBytes + 0 [MOD wordSize] := by
    rw [halloc, hgone, Nat.add_comm]
    exact subW_modEq _ (hw p).2.le
  have hsum := allocated_change _ _ hnd hp hall.created (fun q hq => by rw [hother q hq]) hone
  refine ⟨hall.created, fun q => ?_, ?_⟩
  · by_cases hq : q = p
    · rw [hq, halloc, hlive]
      exact ⟨(hw p).2, (hw p).2⟩
    · rw [hother q hq]
      exact hw q
  · rw [s.take_bytes hp0, ← hgone]
    calc (s.take p).gc.manager.allocated + addW s.bytesFreed gone
        ≡ (s.take p).gc.manager.allocated + (s.bytesFreed + gone) [MOD wordSize] :=
          (addW_modEq _ _).add_left _
      _ = ((s.take p).gc.manager.allocated + gone) + s.bytesFreed := by omega
      _ ≡ s.gc.manager.allocated + s.bytesFreed [MOD wordSize] := hsum.add_right _

theorem takeFold_spent {s : ReclaimState} (hnd : s.gc.manager.created.Nodup)
    (hps : ∀ p ∈ ps, p ∈ s.gc.manager.created) (h0 : 0 ∉ ps) (hw : s.gc.manager.Words) :
    (ps.foldl ReclaimState.take s).gc.manager.created = s.gc.manager.created ∧
      (ps.foldl ReclaimState.take s).gc.manager.Words ∧
      (ps.foldl ReclaimState.take s).gc.manager.allocated +
          (ps.foldl ReclaimState.take s).bytesFreed ≡
        s.gc.manager.allocated + s.bytesFreed [MOD wordSize] := by
  induction ps generalizing s with
  | nil => exact ⟨rfl, hw, Nat.ModEq.refl _⟩
  | cons p ps ih =>
    obtain ⟨hp0, h0⟩ := not_or.mp (mt List.mem_cons.mpr h0)
    obtain ⟨hcreated, hw', hbytes⟩ := take_spent hnd (hps p List.mem_cons_self) (Ne.symm hp0) hw
    obtain ⟨hcreated', hw'', hbytes'⟩ := ih (s := s.take p) (hcreated ▸ hnd)
      (fun q hq => hcreated.symm ▸ hps q (List.mem_cons_of_mem _ hq)) h0 hw'
    exact ⟨hcreated'.trans hcreated, hw'', hbytes'.trans hbytes⟩

/-- **`gc_reclaim_regions`** returns what the regions have less. -/
theorem gcReclaimRegions_spent {maxRegions freed : ℕ} (h : ListsOk g.manager lists)
    (hw : g.manager.Words) (hr : GC_MAX_REGIONS < rounds)
    (hrec : gcReclaimRegions rounds g maxRegions = some (g', freed)) :
    Spent g.manager g'.manager freed ∧ Walked g g' := by
  obtain ⟨s, hs, hend⟩ := gcReclaimRegions_eq h (h.length_lt hr .old) maxRegions
  rw [hrec] at hend
  obtain ⟨rfl, rfl⟩ := Prod.mk.inj (Option.some.inj hend)
  have hplan := reclaimFold_plan (s := ⟨g, 0, 0⟩) gcRegionNeedsReclaim maxRegions
    (h.1.typeLists.list_nodup .old) h.old_notNull
  rw [← gcReclaimBody_eq, ← hs] at hplan
  have hsub : ∀ p ∈ (((lists .old).filter fun p =>
      (g.manager.region p).reclaimableBy gcRegionNeedsReclaim).take (maxRegions - 0)),
      p ∈ lists .old := fun p hp => List.mem_of_mem_filter (List.mem_of_mem_take hp)
  obtain ⟨hcreated, hw', hbytes⟩ := takeFold_spent (s := ⟨g, 0, 0⟩) h.1.nodup
    (fun p hp => (h.of_old (hsub p hp)).1) (fun hin => h.old_notNull (hsub 0 hin)) hw
  have hwalked := takeFold_walked ⟨g, 0, 0⟩ (((lists .old).filter fun p =>
    (g.manager.region p).reclaimableBy gcRegionNeedsReclaim).take (maxRegions - 0))
  rw [← hplan] at hcreated hw' hbytes hwalked
  exact ⟨⟨hcreated, hbytes, hw'⟩, hwalked⟩

theorem Prepared.spent (h : Prepared m m') (hw : m.Words) : Spent m m' 0 := by
  have hcreated : m'.created = m.created := by rw [h.same]
  refine ⟨hcreated, ?_, fun q => ?_⟩
  · rw [Nat.add_zero, allocated_congr hcreated fun q => (h.bytes q).1]
  · obtain ⟨halloc, hlive⟩ := h.bytes q
    rw [halloc]
    refine ⟨(hw q).1, ?_⟩
    rcases hlive with hlive | hlive
    · rw [hlive]
      exact (hw q).2
    · rw [hlive]
      exact (hw q).1

/-- What a collection leaves behind. -/
structure Booked (g g' : Gc) (k : GcKind) (freed : ℕ) : Prop where
  flags : SameFlags g g'
  lists : ∃ lists, ListsOk g'.manager lists
  spent : Spent g.manager g'.manager freed
  tally : g'.tally = g.tally.collected k freed
  idle : g'.state = .idle ∧ g'.phase = .idle

/-- The regions are marked and aged, and then reclaimed. -/
theorem Readied.spent {seen : GcRegion → GcRegion} {maxRegions freed : ℕ}
    (hready : Readied g g' lists seen) (h : ListsOk g.manager lists) (hw : g.manager.Words)
    (hr : GC_MAX_REGIONS < rounds)
    (hrec : gcReclaimRegions rounds g' maxRegions = some (g'', freed)) :
    SameFlags g g'' ∧ (∃ lists, ListsOk g''.manager lists) ∧ Spent g.manager g''.manager freed ∧
      Walked g' g'' := by
  have h' := hready.prepared.listsOk h
  obtain ⟨hcreated, hbytes, hw'⟩ := hready.prepared.spent hw
  obtain ⟨hspent, hwalked⟩ := gcReclaimRegions_spent h' hw' hr hrec
  obtain ⟨g3, freed', lists', hrec', hflags, hlists, -⟩ :=
    gcReclaimRegions_spec h' (h'.length_lt hr .old) maxRegions
  rw [hrec] at hrec'
  obtain ⟨rfl, -⟩ := Prod.mk.inj (Option.some.inj hrec')
  exact ⟨hready.flags.trans hflags, ⟨lists', hlists⟩,
    ⟨hspent.created.trans hcreated, hspent.bytes.trans hbytes, hspent.words⟩, hwalked⟩

section
variable {code : ℤ} (h : ListsOk g.manager lists) (hw : g.manager.Words)
  (hon : (!g.initialized || !g.active) = false) (hphase : g.phase = .idle)
  (hr : GC_MAX_REGIONS < rounds)
include h hw hon hphase hr

theorem gcCollectYoung_booked (hrun : gcCollectYoung rounds g = some (g', code)) :
    code = 0 ∧ ∃ freed, Booked g g' .young freed := by
  unfold gcCollectYoung at hrun
  rw [hon, if_neg Bool.false_ne_true] at hrun
  obtain ⟨r, hloop, hrun⟩ := Option.bind_eq_some_iff.mp hrun
  obtain ⟨⟨g2, freed⟩, hrec, he⟩ := Option.map_eq_some_iff.mp hrun
  obtain ⟨rfl, rfl⟩ := Prod.mk.inj he
  have hready : Readied g r.2 lists id :=
    Readied.of_same (gcMarkAgeYoung_readied hloop h hr) rfl ⟨rfl, rfl, rfl⟩
  obtain ⟨hflags, hlists, hspent, hwalked⟩ := hready.spent h hw hr hrec
  have hall := (gcMarkAgeYoung_walked hloop).trans hwalked
  refine ⟨rfl, freed, ⟨hflags.trans ⟨rfl, rfl, rfl⟩, hlists, hspent, ?_, rfl,
    hall.phase.trans hphase⟩⟩
  have htally : (g2.finish freed).tally =
    { g2.tally with bytesFreed := addW g2.tally.bytesFreed freed } := rfl
  rw [htally, hall.tally]
  rfl

theorem gcCollectMixed_booked (hrun : gcCollectMixed rounds g = some (g', code)) :
    code = 0 ∧ ∃ k freed, Booked g g' k freed := by
  unfold gcCollectMixed at hrun
  rw [hon, if_neg Bool.false_ne_true] at hrun
  cases hmixed : g.mixedGcEnabled with
  | false =>
    rw [hmixed, if_pos (show (!false) = true from rfl)] at hrun
    obtain ⟨hcode, freed, hbooked⟩ := gcCollectYoung_booked h hw hon hphase hr hrun
    exact ⟨hcode, .young, freed, hbooked⟩
  | true =>
    rw [hmixed, Bool.not_true, if_neg Bool.false_ne_true] at hrun
    obtain ⟨r, hloop, hrun⟩ := Option.bind_eq_some_iff.mp hrun
    obtain ⟨⟨g2, freed⟩, hrec, he⟩ := Option.map_eq_some_iff.mp hrun
    obtain ⟨rfl, rfl⟩ := Prod.mk.inj he
    have hmarked : Readied g r.2 lists id :=
      Readied.of_same (gcMarkAgeYoung_readied hloop h hr) rfl ⟨rfl, rfl, hmixed.symm⟩
    have hready : Readied g { r.2 with phase := .mixedReclaim } lists id :=
      hmarked.set rfl ⟨rfl, rfl, rfl⟩
    obtain ⟨hflags, hlists, hspent, hwalked⟩ := hready.spent h hw hr hrec
    refine ⟨rfl, .mixed, freed, ⟨hflags.trans ⟨rfl, rfl, rfl⟩, hlists, hspent, ?_, rfl, rfl⟩⟩
    have htally : ({ g2.finish freed with phase := .idle } : Gc).tally =
      { g2.tally with bytesFreed := addW g2.tally.bytesFreed freed } := rfl
    have hsame : ({ r.2 with phase := .mixedReclaim } : Gc).tally = r.2.tally := rfl
    rw [htally, hwalked.tally, hsame, (gcMarkAgeYoung_walked hloop).tally]
    rfl

theorem gcCollectFull_booked (hrun : gcCollectFull rounds g = some (g', code)) :
    code = 0 ∧ ∃ freed, Booked g g' .full freed := by
  unfold gcCollectFull at hrun
  rw [hon, if_neg Bool.false_ne_true] at hrun
  obtain ⟨g1, hmark, hrun⟩ := Option.bind_eq_some_iff.mp hrun
  obtain ⟨r, hloop, hrun⟩ := Option.bind_eq_some_iff.mp hrun
  obtain ⟨⟨g2, freed⟩, hrec, he⟩ := Option.map_eq_some_iff.mp hrun
  obtain ⟨rfl, rfl⟩ := Prod.mk.inj he
  have hmarked : Readied g g1 lists GcRegion.marked :=
    Readied.of_same (gcMarkAllRegions_readied hmark h hr) rfl ⟨rfl, rfl, rfl⟩
  have haged := gcAgeYoung_readied hloop (hmarked.prepared.listsOk h) hr
  have hready : Readied g r.2 lists GcRegion.marked :=
    ⟨hmarked.flags.trans haged.flags, hmarked.prepared.trans haged.prepared,
      fun q hq => (haged.old q hq).trans (hmarked.old q hq)⟩
  obtain ⟨hflags, hlists, hspent, hwalked⟩ := hready.spent h hw hr hrec
  have hall := ((gcMarkAllRegions_walked hmark).trans (gcAgeYoung_walked hloop)).trans hwalked
  refine ⟨rfl, freed, ⟨hflags.trans ⟨rfl, rfl, rfl⟩, hlists, hspent, ?_, rfl,
    hall.phase.trans hphase⟩⟩
  have htally : (g2.finish freed).tally =
    { g2.tally with bytesFreed := addW g2.tally.bytesFreed freed } := rfl
  rw [htally, hall.tally]
  rfl

omit hphase in
theorem gcCollect_booked (hrun : gcCollect rounds g = some (g', code)) :
    code = 0 ∧ ∃ freed, Booked g g' .collect freed := by
  unfold gcCollect at hrun
  rw [hon, if_neg Bool.false_ne_true] at hrun
  obtain ⟨g1, hmark, hrun⟩ := Option.bind_eq_some_iff.mp hrun
  obtain ⟨⟨g2, freed⟩, hrec, he⟩ := Option.map_eq_some_iff.mp hrun
  obtain ⟨rfl, rfl⟩ := Prod.mk.inj he
  have hmarked : Readied g g1 lists GcRegion.marked :=
    Readied.of_same (gcMarkAllRegions_readied hmark h hr) rfl ⟨rfl, rfl, rfl⟩
  have hready : Readied g { g1 with phase := .cleanup } lists GcRegion.marked :=
    hmarked.set rfl ⟨rfl, rfl, rfl⟩
  obtain ⟨hflags, hlists, hspent, hwalked⟩ := hready.spent h hw hr hrec
  refine ⟨rfl, freed, ⟨hflags.trans ⟨rfl, rfl, rfl⟩, hlists, hspent, ?_, rfl, rfl⟩⟩
  have htally :
      ({ g2.finish freed with phase := .idle, concurrentActive := false } : Gc).tally =
        { g2.tally with bytesFreed := addW g2.tally.bytesFreed freed } := rfl
  have hsame : ({ g1 with phase := .cleanup } : Gc).tally = g1.tally := rfl
  rw [htally, hwalked.tally, hsame, (gcMarkAllRegions_walked hmark).tally]
  rfl

/-- **What a collection books**, if it comes to its end; `gc_collect_mixed` may be a young one. -/
theorem gcRun_booked {k : GcKind} (hrun : gcRun k rounds g = some (g', code)) :
    code = 0 ∧ ∃ k freed, Booked g g' k freed := by
  cases k with
  | young =>
    obtain ⟨hcode, freed, hbooked⟩ := gcCollectYoung_booked h hw hon hphase hr hrun
    exact ⟨hcode, _, freed, hbooked⟩
  | mixed => exact gcCollectMixed_booked h hw hon hphase hr hrun
  | full =>
    obtain ⟨hcode, freed, hbooked⟩ := gcCollectFull_booked h hw hon hphase hr hrun
    exact ⟨hcode, _, freed, hbooked⟩
  | collect =>
    obtain ⟨hcode, freed, hbooked⟩ := gcCollect_booked h hw hon hr hrun
    exact ⟨hcode, _, freed, hbooked⟩

end

/-- When the collector is off, a collection says so. -/
theorem gcRun_off (hoff : (!g.initialized || !g.active) = true) (k : GcKind) (rounds : ℕ) :
    gcRun k rounds g = some (g, -1) := by
  cases k with
  | young => exact if_pos hoff
  | mixed => exact if_pos hoff
  | full => exact if_pos hoff
  | collect => exact if_pos hoff

/-! ## what the other calls book -/

section
variable {α : Type} (f : GcRegion → α)

/-- A record is stored that has the field of the one before. -/
theorem field_update {r : GcRegion} (hr : f r = f (m.region p)) (q : ℕ) :
    f (Function.update m.region p r q) = f (m.region q) := by
  by_cases hq : q = p
  · rw [hq, Function.update_self, hr]
  · rw [Function.update_of_ne hq]

theorem gcRegionPromote_field (htype : ∀ r type, f { r with type := type } = f r)
    (m : GcRegionManager) (p q : ℕ) : f ((gcRegionPromote m p).region q) = f (m.region q) := by
  unfold gcRegionPromote
  split_ifs
  · rfl
  · dsimp only
    split
    · exact field_update f (htype _ _) q
    · exact field_update f (htype _ _) q
    · rfl

/-- A field apart from the type and the age. -/
theorem gcRegionAge_field (htype : ∀ r type, f { r with type := type } = f r)
    (hage : ∀ r age, f { r with age := age } = f r) (m : GcRegionManager) (p q : ℕ) :
    f ((gcRegionAge m p).region q) = f (m.region q) := by
  obtain ⟨m', hm'⟩ : ∃ m', m' = m.setRegion p
    { m.region p with age := ((m.region p).age + 1) % 2 ^ 32 } := ⟨_, rfl⟩
  have haged : f (m'.region q) = f (m.region q) := by
    rw [hm']
    exact field_update f (hage _ _) q
  have hpromoted := (gcRegionPromote_field f htype m' p q).trans haged
  unfold gcRegionAge
  dsimp only
  rw [← hm']
  split_ifs
  · rfl
  · exact hpromoted
  · exact hpromoted
  · exact haged

end

theorem gcRegionAge_bytes (m : GcRegionManager) (p q : ℕ) :
    ((gcRegionAge m p).region q).allocatedBytes = (m.region q).allocatedBytes ∧
      ((gcRegionAge m p).region q).liveBytes = (m.region q).liveBytes :=
  ⟨gcRegionAge_field GcRegion.allocatedBytes (fun _ _ => rfl) (fun _ _ => rfl) m p q,
    gcRegionAge_field GcRegion.liveBytes (fun _ _ => rfl) (fun _ _ => rfl) m p q⟩

theorem Words.update {r : GcRegion} (h : m.Words) (hregion : m'.region = Function.update m.region p r)
    (hr : r.allocatedBytes < wordSize ∧ r.liveBytes < wordSize) : m'.Words := by
  intro q
  rw [hregion]
  by_cases hq : q = p
  · rw [hq, Function.update_self]
    exact hr
  · rw [Function.update_of_ne hq]
    exact h q

/-- A region is emptied. -/
theorem allocated_emptied {r : GcRegion} (hnd : m.created.Nodup) (hp : p ∈ m.created)
    (hcreated : m'.created = m.created) (hregion : m'.region = Function.update m.region p r)
    (hr : r.allocatedBytes = 0) : m'.allocated + (m.region p).allocatedBytes = m.allocated := by
  have hsum := sum_map_change hnd hp (fun q => (m.region q).allocatedBytes)
    (fun q => (m'.region q).allocatedBytes) fun q hq => by
      rw [hregion, Function.update_of_ne hq]
  have hone : (m'.region p).allocatedBytes = 0 := by
    rw [hregion, Function.update_self, hr]
  unfold GcRegionManager.allocated
  rw [hcreated]
  rw [hone, Nat.add_zero] at hsum
  exact hsum

/-- **The calls on regions** drop what a region holds that is freed or used again. -/
theorem region_step_bytes (h : ListsOk m lists) (hw : m.Words) {op : GcRegionOp}
    (hlegal : op.Legal m) : (m.step op).Words ∧ (m.step op).allocated +
      ((op.emptied m).elim 0 fun p => (m.region p).allocatedBytes) = m.allocated := by
  cases op with
  | alloc type env =>
    show (gcRegionAlloc m type env).1.Words ∧ (gcRegionAlloc m type env).1.allocated +
      (((gcRegionAlloc m type env).2.filter (· ∈ m.created)).elim 0 _) = _
    rcases h.1.typeLists.alloc_record type env with
      he | ⟨p, r, hret, hregion, -, -, ⟨halloc, hlive⟩, hre | hnew⟩
    · rw [he]
      exact ⟨hw, rfl⟩
    · have hzero : r.allocatedBytes < wordSize ∧ r.liveBytes < wordSize := by
        rw [halloc, hlive]
        exact ⟨by decide, by decide⟩
      rw [hret, Option.filter_some, if_pos (decide_eq_true hre.free.1)]
      exact ⟨Words.update hw hregion hzero,
        allocated_emptied h.1.nodup hre.free.1 hre.created hregion halloc⟩
    · have hzero : r.allocatedBytes < wordSize ∧ r.liveBytes < wordSize := by
        rw [halloc, hlive]
        exact ⟨by decide, by decide⟩
      have hnot := (hlegal.2 p hnew.addr).2
      rw [hret, Option.filter_some, if_neg fun hd => hnot (of_decide_eq_true hd)]
      refine ⟨Words.update hw hregion hzero, ?_⟩
      have hsame : (m.created.map fun q =>
          ((gcRegionAlloc m type env).1.region q).allocatedBytes) =
            m.created.map fun q => (m.region q).allocatedBytes := by
        refine List.map_congr_left fun q hq => ?_
        have hne : q ≠ p := by
          rintro rfl
          exact hnot hq
        rw [hregion, Function.update_of_ne hne]
      unfold GcRegionManager.allocated
      rw [hnew.created, List.map_append, List.sum_append, hsame, List.map_cons, List.map_nil, hregion,
        Function.update_self, halloc]
      rfl
  | free p =>
    obtain ⟨r, hregion, hcreated, -, -, -, -, ⟨halloc, hlive⟩, -⟩ :=
      gcRegionFree_record (m := m) (h.1.created_index hlegal.1).1
    have hzero : r.allocatedBytes < wordSize ∧ r.liveBytes < wordSize := by
      rw [halloc, hlive]
      exact ⟨by decide, by decide⟩
    exact ⟨Words.update hw hregion hzero,
      allocated_emptied h.1.nodup hlegal.1 hcreated hregion halloc⟩
  | age p =>
    obtain ⟨r, -, hcreated, -⟩ := gcRegionAge_record (m := m) (h.1.created_index hlegal.1).1
    refine ⟨fun q => ?_, ?_⟩
    · show ((gcRegionAge m p).region q).allocatedBytes < _ ∧
        ((gcRegionAge m p).region q).liveBytes < _
      rw [(gcRegionAge_bytes m p q).1, (gcRegionAge_bytes m p q).2]
      exact hw q
    · exact allocated_congr hcreated fun q => (gcRegionAge_bytes m p q).1

/-- `gc_register_object` adds to the bytes of the region it finds. -/
theorem gcRegisterObject_booked (hinit : g.initialized = true) (h : ListsOk g.manager lists)
    (hw : g.manager.Words) (ptr size : ℕ) :
    (gcRegisterObject g ptr size).manager.Words ∧
      (gcRegisterObject g ptr size).manager.allocated ≡
        g.manager.allocated + (g.finds ptr).elim 0 (fun _ => size) [MOD wordSize] ∧
      ((gcRegisterObject g ptr size).stats.youngGenSize ≡
        g.stats.youngGenSize + (g.finds ptr).elim 0 (fun _ => size) [MOD wordSize]) ∧
      (gcRegisterObject g ptr size).tally =
        { g.tally with youngGenSize := (gcRegisterObject g ptr size).stats.youngGenSize } ∧
      (gcRegisterObject g ptr size).state = g.state ∧
      (gcRegisterObject g ptr size).phase = g.phase := by
  obtain ⟨hsame, hbytes⟩ := gcRegisterObject_bytes hinit ptr size
  have hwords : (gcRegisterObject g ptr size).manager.Words := by
    intro q
    rw [hbytes q, hsame.live q]
    refine ⟨?_, (hw q).2⟩
    split_ifs
    · exact addW_lt _ _
    · exact (hw q).1
  refine ⟨hwords, ?_⟩
  unfold Gc.finds
  rw [hinit, Bool.not_true, Bool.false_or]
  by_cases hptr : ptr = 0
  · have hid : gcRegisterObject g ptr size = g := by
      unfold gcRegisterObject
      rw [hinit, Bool.not_true, Bool.false_or, if_pos (decide_eq_true hptr)]
    rw [if_pos (decide_eq_true hptr), hid]
    exact ⟨Nat.ModEq.refl _, Nat.ModEq.refl _, rfl, rfl, rfl⟩
  rw [if_neg fun hd => hptr (of_decide_eq_true hd)]
  cases hget : gcRegionGetByAddr g.manager ptr with
  | none =>
    have hid : gcRegisterObject g ptr size = g := by
      unfold gcRegisterObject
      rw [hinit, Bool.not_true, Bool.false_or, if_neg fun hd => hptr (of_decide_eq_true hd), hget]
    rw [hid]
    exact ⟨Nat.ModEq.refl _, Nat.ModEq.refl _, rfl, rfl, rfl⟩
  | some p =>
    have hone := allocated_change size 0 h.1.nodup (created_of_getByAddr h hget)
      hsame.created (fun q hq => by
        rw [hbytes q, if_neg fun hc => hq (Option.some.inj (hget.symm.trans hc.2)).symm]) (by
        rw [hbytes p, if_pos ⟨hptr, hget⟩]
        exact addW_modEq _ _)
    have hstore : gcRegisterObject g ptr size = { g with
        manager := g.manager.setRegion p { g.manager.region p with
          allocatedBytes := addW (g.manager.region p).allocatedBytes size }
        stats := { g.stats with youngGenSize := addW g.stats.youngGenSize size } } := by
      unfold gcRegisterObject
      rw [hinit, Bool.not_true, Bool.false_or, if_neg fun hd => hptr (of_decide_eq_true hd), hget]
    refine ⟨hone, ?_, ?_, ?_, ?_⟩
    · rw [hstore]
      exact addW_modEq _ _
    · rw [hstore]
      rfl
    · rw [hstore]
    · rw [hstore]

/-- `gc_unregister_object` takes the size of the region it finds off. -/
theorem gcUnregisterObject_booked (hinit : g.initialized = true) (h : ListsOk g.manager lists)
    (hw : g.manager.Words) (ptr : ℕ) :
    (gcUnregisterObject g ptr).manager.Words ∧
      (gcUnregisterObject g ptr).manager.allocated +
        (g.finds ptr).elim 0 (fun p => (g.manager.region p).size) ≡ g.manager.allocated
          [MOD wordSize] ∧
      (gcUnregisterObject g ptr).tally = g.tally ∧
      (gcUnregisterObject g ptr).state = g.state ∧ (gcUnregisterObject g ptr).phase = g.phase := by
  obtain ⟨hsame, hbytes⟩ := gcUnregisterObject_bytes hinit ptr
  have hwords : (gcUnregisterObject g ptr).manager.Words := by
    intro q
    rw [hbytes q, hsame.live q]
    refine ⟨?_, (hw q).2⟩
    split_ifs
    · exact subW_lt _ _
    · exact (hw q).1
  refine ⟨hwords, ?_⟩
  unfold Gc.finds
  rw [hinit, Bool.not_true, Bool.false_or]
  by_cases hptr : ptr = 0
  · have hid : gcUnregisterObject g ptr = g := by
      unfold gcUnregisterObject
      rw [hinit, Bool.not_true, Bool.false_or, if_pos (decide_eq_true hptr)]
    rw [if_pos (decide_eq_true hptr), hid]
    exact ⟨Nat.ModEq.refl _, rfl, rfl, rfl⟩
  rw [if_neg fun hd => hptr (of_decide_eq_true hd)]
  cases hget : gcRegionGetByAddr g.manager ptr with
  | none =>
    have hid : gcUnregisterObject g ptr = g := by
      unfold gcUnregisterObject
      rw [hinit, Bool.not_true, Bool.false_or, if_neg fun hd => hptr (of_decide_eq_true hd), hget]
    rw [hid]
    exact ⟨Nat.ModEq.refl _, rfl, rfl, rfl⟩
  | some p =>
    have hp := created_of_getByAddr h hget
    have hsize : (g.manager.region p).size ≤ wordSize := by
      rw [(h.1.created_index hp).2]
      decide
    have hone := allocated_change 0 (g.manager.region p).size h.1.nodup hp
      hsame.created (fun q hq => by
        rw [hbytes q, if_neg fun hc => hq (Option.some.inj (hget.symm.trans hc.2)).symm]) (by
        rw [hbytes p, if_pos ⟨hptr, hget⟩]
        exact subW_modEq _ hsize)
    have hstore : gcUnregisterObject g ptr = { g with
        manager := g.manager.setRegion p { g.manager.region p with
          allocatedBytes := subW (g.manager.region p).allocatedBytes (g.manager.region p).size } } := by
      unfold gcUnregisterObject
      rw [hinit, Bool.not_true, Bool.false_or, if_neg fun hd => hptr (of_decide_eq_true hd), hget]
    refine ⟨hone, ?_, ?_, ?_⟩
    · rw [hstore]
      rfl
    · rw [hstore]
    · rw [hstore]

/-- A call that neither makes a region nor moves one. -/
structure KeepsRegions (g g' : Gc) : Prop where
  initialized : g'.initialized = g.initialized
  created : g'.manager.created = g.manager.created
  place : ∀ q, (g'.manager.region q).baseAddr = (g.manager.region q).baseAddr ∧
    (g'.manager.region q).size = (g.manager.region q).size
  lists : (∃ lists, ListsOk g.manager lists) → ∃ lists, ListsOk g'.manager lists

theorem KeepsRegions.refl (g : Gc) : KeepsRegions g g := ⟨rfl, rfl, fun _ => ⟨rfl, rfl⟩, fun h => h⟩

/-- A call that books nothing. -/
structure BooksNothing (g g' : Gc) : Prop extends KeepsRegions g g' where
  words : g.manager.Words → g'.manager.Words
  allocated : g'.manager.allocated = g.manager.allocated
  tally : g'.tally = g.tally
  idle : g'.state = g.state ∧ g'.phase = g.phase

theorem BooksNothing.refl (g : Gc) : BooksNothing g g :=
  ⟨KeepsRegions.refl g, fun hw => hw, rfl, rfl, rfl, rfl⟩

theorem gcRegionMarkObject_booksNothing (g : Gc) (p ptr : ℕ) :
    BooksNothing g { g with manager := gcRegionMarkObject g.manager p ptr } := by
  unfold gcRegionMarkObject
  split_ifs with hnull
  · exact BooksNothing.refl g
  · obtain ⟨r, hr, hid, htype, ⟨hbase, hsize⟩, halloc, hlive⟩ : ∃ r : GcRegion,
        r = { g.manager.region p with
          markingBitmap := bitmapSet (g.manager.region p).markingBitmap
            ((g.manager.region p).bitIdx ptr)
          length_marking :=
            (length_bitmapSet _ _).trans (g.manager.region p).length_marking } ∧
          r.id = (g.manager.region p).id ∧ r.type = (g.manager.region p).type ∧
          (r.baseAddr = (g.manager.region p).baseAddr ∧ r.size = (g.manager.region p).size) ∧
          r.allocatedBytes = (g.manager.region p).allocatedBytes ∧
          r.liveBytes = (g.manager.region p).liveBytes :=
      ⟨_, rfl, rfl, rfl, ⟨rfl, rfl⟩, rfl, rfl⟩
    dsimp only
    rw [← hr]
    have hsame : ∀ q, ((g.manager.setRegion p r).region q).allocatedBytes =
        (g.manager.region q).allocatedBytes ∧
        ((g.manager.setRegion p r).region q).liveBytes = (g.manager.region q).liveBytes :=
      fun q => ⟨field_update GcRegion.allocatedBytes halloc q, field_update GcRegion.liveBytes hlive q⟩
    refine ⟨⟨rfl, rfl, fun q => ⟨field_update GcRegion.baseAddr hbase q,
      field_update GcRegion.size hsize q⟩, fun ⟨lists, h⟩ =>
        ⟨lists, h.1.setRegion hid hsize (Or.inr htype), h.2⟩⟩, fun hw q => ?_,
      allocated_congr rfl fun q => (hsame q).1, rfl, rfl, rfl⟩
    dsimp only
    rw [(hsame q).1, (hsame q).2]
    exact hw q

theorem gcWriteBarrier_booksNothing (g : Gc) (ptr : ℕ) : BooksNothing g (gcWriteBarrier g ptr) := by
  unfold gcWriteBarrier
  split_ifs
  · exact BooksNothing.refl g
  · cases gcRegionGetByAddr g.manager ptr with
    | none => exact BooksNothing.refl g
    | some p => exact gcRegionMarkObject_booksNothing g p ptr

theorem gcWriteBarrierPre_booksNothing (g : Gc) (oldValue newValue : ℕ) :
    BooksNothing g (gcWriteBarrierPre g oldValue newValue) := by
  unfold gcWriteBarrierPre
  split_ifs
  · exact BooksNothing.refl g
  · exact BooksNothing.refl g
  · cases gcRegionGetByAddr g.manager oldValue with
    | none => exact BooksNothing.refl g
    | some p =>
      dsimp only
      split_ifs
      · exact gcRegionMarkObject_booksNothing g p oldValue
      · exact BooksNothing.refl g

theorem gcCollectAsync_booksNothing (g : Gc) : BooksNothing g (gcCollectAsync g).1 := by
  unfold gcCollectAsync
  split_ifs
  · exact BooksNothing.refl g
  · exact BooksNothing.refl g
  · exact ⟨⟨rfl, rfl, fun _ => ⟨rfl, rfl⟩, fun h => h⟩, fun hw => hw, rfl, rfl, rfl, rfl⟩

theorem gcEnable_booksNothing (g : Gc) : BooksNothing g (gcEnable g).1 := by
  unfold gcEnable
  split_ifs
  · exact BooksNothing.refl g
  · exact ⟨⟨rfl, rfl, fun _ => ⟨rfl, rfl⟩, fun h => h⟩, fun hw => hw, rfl, rfl, rfl, rfl⟩

theorem gcDisable_booksNothing (g : Gc) : BooksNothing g (gcDisable g).1 := by
  unfold gcDisable
  split_ifs
  · exact BooksNothing.refl g
  · exact ⟨⟨rfl, rfl, fun _ => ⟨rfl, rfl⟩, fun h => h⟩, fun hw => hw, rfl, rfl, rfl, rfl⟩

theorem gcSetMixedGcRatio_booksNothing (g : Gc) (ratio : ℚ) :
    BooksNothing g (gcSetMixedGcRatio g ratio).1 := by
  unfold gcSetMixedGcRatio
  split_ifs
  · exact BooksNothing.refl g
  · exact ⟨⟨rfl, rfl, fun _ => ⟨rfl, rfl⟩, fun h => h⟩, fun hw => hw, rfl, rfl, rfl, rfl⟩

end

/-! ## runs -/

namespace GcBooks

/-- What every run keeps. -/
structure Inv (s : GcBooks) : Prop where
  initialized : s.gc.initialized = true
  lists : ∃ lists, ListsOk s.gc.manager lists
  words : s.gc.manager.Words
  balanced : s.Balanced

section
variable {s : GcBooks} {g' : Gc}

theorem inv_init : init.Inv := by
  refine ⟨rfl, ⟨_, gcRegionManagerInit_inv⟩, fun p => ⟨?_, ?_⟩, ⟨?_, ?_, ?_, ?_, rfl, rfl⟩⟩
  · show 0 < wordSize
    decide
  · show 0 < wordSize
    decide
  all_goals exact Nat.ModEq.refl _

theorem Inv.nothing (h : s.Inv) (hg : BooksNothing s.gc g') : Inv { s with gc := g' } := by
  obtain ⟨hbytes, hyoung, hkinds, hepoch, hidle⟩ := h.balanced
  refine ⟨hg.initialized.trans h.initialized, hg.lists h.lists, hg.words h.words,
    ⟨?_, ?_, ?_, ?_, hg.idle.1.trans hidle.1, hg.idle.2.trans hidle.2⟩⟩
  · show g'.manager.allocated + (g'.tally.bytesFreed + _ + _ + _) ≡ _ [MOD wordSize]
    rw [hg.allocated, hg.tally]
    exact hbytes
  · show g'.tally.youngGenSize ≡ _ [MOD wordSize]
    rw [hg.tally]
    exact hyoung
  · show g'.tally.Kinds
    rw [hg.tally]
    exact hkinds
  · show g'.tally.epoch ≡ _ [MOD wordSize]
    rw [hg.tally]
    exact hepoch

/-- What the regions lose is booked elsewhere, and what they gain was registered. -/
theorem balance_shift {a a' x x' r : ℕ} (gain loss : ℕ) (h : a + x ≡ r [MOD wordSize])
    (ha : a' + loss ≡ a + gain [MOD wordSize]) (hx : x' ≡ x + loss [MOD wordSize]) :
    a' + x' ≡ r + gain [MOD wordSize] :=
  calc a' + x' ≡ a' + (x + loss) [MOD wordSize] := hx.add_left _
    _ = (a' + loss) + x := by omega
    _ ≡ (a + gain) + x [MOD wordSize] := ha.add_right _
    _ = (a + x) + gain := by omega
    _ ≡ r + gain [MOD wordSize] := h.add_right _

theorem Inv.region (h : s.Inv) {op : GcRegionOp} (hlegal : op.Legal s.gc.manager) :
    (s.step (.region op)).Inv := by
  obtain ⟨lists, hlists⟩ := h.lists
  obtain ⟨hbytes, hyoung, hkinds, hepoch, hidle⟩ := h.balanced
  obtain ⟨hwords, hdropped⟩ := region_step_bytes hlists h.words hlegal
  refine ⟨h.initialized, region_inv_step s.gc.manager op h.lists hlegal, hwords,
    ⟨?_, hyoung, hkinds, hepoch, hidle⟩⟩
  have hloss : (s.gc.manager.step op).allocated + ((op.emptied s.gc.manager).elim 0 fun p =>
      (s.gc.manager.region p).allocatedBytes) ≡ s.gc.manager.allocated + 0 [MOD wordSize] := by
    rw [hdropped]
    exact Nat.ModEq.refl _
  refine balance_shift _ _ hbytes hloss ?_
  rw [Nat.add_assoc _ s.dropped]
  exact Nat.ModEq.refl _

theorem Inv.register (h : s.Inv) (ptr size : ℕ) : (s.step (.register ptr size)).Inv := by
  obtain ⟨lists, hlists⟩ := h.lists
  obtain ⟨hbytes, hyoung, hkinds, hepoch, hidle⟩ := h.balanced
  obtain ⟨hsame, -⟩ := gcRegisterObject_bytes h.initialized ptr size
  obtain ⟨hwords, halloc, hsize, htally, hstate, hphase⟩ :=
    gcRegisterObject_booked h.initialized hlists h.words ptr size
  refine ⟨hsame.flags.initialized.trans h.initialized, ⟨lists, hsame.lists lists hlists⟩, hwords,
    ⟨?_, hsize.trans (hyoung.add_right _), ?_, ?_, hstate.trans hidle.1, hphase.trans hidle.2⟩⟩
  · show _ + ((gcRegisterObject s.gc ptr size).tally.bytesFreed + _ + _ + _) ≡ _ [MOD wordSize]
    rw [htally]
    exact balance_shift _ 0 hbytes halloc (Nat.ModEq.refl _)
  · show (gcRegisterObject s.gc ptr size).tally.Kinds
    rw [htally]
    exact hkinds
  · show (gcRegisterObject s.gc ptr size).tally.epoch ≡ _ [MOD wordSize]
    rw [htally]
    exact hepoch

theorem Inv.unregister (h : s.Inv) (ptr : ℕ) : (s.step (.unregister ptr)).Inv := by
  obtain ⟨lists, hlists⟩ := h.lists
  obtain ⟨hbytes, hyoung, hkinds, hepoch, hidle⟩ := h.balanced
  obtain ⟨hsame, -⟩ := gcUnregisterObject_bytes h.initialized ptr
  obtain ⟨hwords, halloc, htally, hstate, hphase⟩ :=
    gcUnregisterObject_booked h.initialized hlists h.words ptr
  refine ⟨hsame.flags.initialized.trans h.initialized, ⟨lists, hsame.lists lists hlists⟩, hwords,
    ⟨?_, ?_, ?_, ?_, hstate.trans hidle.1, hphase.trans hidle.2⟩⟩
  · show _ + ((gcUnregisterObject s.gc ptr).tally.bytesFreed + _ + (_ + _) + _) ≡ _ [MOD wordSize]
    rw [htally]
    refine balance_shift 0 _ hbytes halloc ?_
    rw [← Nat.add_assoc, Nat.add_right_comm]
    exact Nat.ModEq.refl _
  · show (gcUnregisterObject s.gc ptr).tally.youngGenSize ≡ _ [MOD wordSize]
    rw [htally]
    exact hyoung
  · show (gcUnregisterObject s.gc ptr).tally.Kinds
    rw [htally]
    exact hkinds
  · show (gcUnregisterObject s.gc ptr).tally.epoch ≡ _ [MOD wordSize]
    rw [htally]
    exact hepoch

/-- The statistics are cleared, and what they had of the bytes is remembered. -/
theorem Inv.resetStats (h : s.Inv) : (s.step .resetStats).Inv := by
  obtain ⟨hbytes, hyoung, -, hepoch, hidle⟩ := h.balanced
  refine ⟨h.initialized, h.lists, h.words, ⟨?_, hyoung, Nat.ModEq.refl _, hepoch, hidle⟩⟩
  show s.gc.manager.allocated + (0 + (s.cleared + s.gc.stats.bytesFreed) + _ + _) ≡ _ [MOD wordSize]
  rw [Nat.zero_add, Nat.add_comm s.cleared]
  exact hbytes

theorem step_collect (s : GcBooks) (k : GcKind) (rounds : ℕ) :
    s.step (.collect k rounds) = s ∨ ∃ g' code, gcRun k rounds s.gc = some (g', code) ∧
      s.step (.collect k rounds) =
        { s with gc := g', served := if code = 0 then s.served + 1 else s.served } := by
  cases hrun : gcRun k rounds s.gc with
  | none =>
    left
    unfold step
    dsimp only
    rw [hrun]
  | some r =>
    refine Or.inr ⟨r.1, r.2, rfl, ?_⟩
    unfold step
    dsimp only
    rw [hrun]

theorem collected_kinds {t : GcTally} (h : t.Kinds) (k : GcKind) (freed : ℕ) :
    (t.collected k freed).Kinds := by
  unfold GcTally.Kinds at h
  have hall : addW t.collections 1 ≡ t.young + t.mixed + t.full + 1 [MOD wordSize] :=
    (addW_modEq _ _).trans (h.add_right 1)
  have hone := addW_modEq t.young 1
  have htwo := addW_modEq t.mixed 1
  have hthree := addW_modEq t.full 1
  cases k with
  | young | collect =>
    refine hall.trans ?_
    show _ ≡ addW t.young 1 + t.mixed + t.full [MOD wordSize]
    rw [show t.young + t.mixed + t.full + 1 = t.young + 1 + t.mixed + t.full by omega]
    exact ((hone.symm.add_right _).add_right _)
  | mixed =>
    refine hall.trans ?_
    show _ ≡ t.young + addW t.mixed 1 + t.full [MOD wordSize]
    rw [show t.young + t.mixed + t.full + 1 = t.young + (t.mixed + 1) + t.full by omega]
    exact ((htwo.symm.add_left _).add_right _)
  | full =>
    refine hall.trans ?_
    show _ ≡ t.young + t.mixed + addW t.full 1 [MOD wordSize]
    exact (hthree.symm.add_left _)

theorem Inv.collected (h : s.Inv) {k : GcKind} {freed : ℕ} (hg : Booked s.gc g' k freed) :
    Inv { s with gc := g', served := s.served + 1 } := by
  obtain ⟨hbytes, hyoung, hkinds, hepoch, -⟩ := h.balanced
  refine ⟨hg.flags.initialized.trans h.initialized, hg.lists, hg.spent.words,
    ⟨?_, ?_, ?_, ?_, hg.idle⟩⟩
  · show g'.manager.allocated + (g'.tally.bytesFreed + _ + _ + _) ≡ _ [MOD wordSize]
    rw [hg.tally]
    refine balance_shift 0 _ hbytes hg.spent.bytes ?_
    show addW s.gc.stats.bytesFreed freed + _ + _ + _ ≡ _ [MOD wordSize]
    rw [show s.gc.stats.bytesFreed + s.cleared + s.withdrawn + s.dropped + freed =
      s.gc.stats.bytesFreed + freed + s.cleared + s.withdrawn + s.dropped by omega]
    exact (((addW_modEq _ _).add_right _).add_right _).add_right _
  · show g'.tally.youngGenSize ≡ _ [MOD wordSize]
    rw [hg.tally]
    exact hyoung
  · show g'.tally.Kinds
    rw [hg.tally]
    exact collected_kinds (t := s.gc.tally) hkinds k freed
  · show g'.tally.epoch ≡ _ [MOD wordSize]
    rw [hg.tally]
    exact (addW_modEq _ _).trans (hepoch.add_right 1)

theorem Inv.collect (h : s.Inv) (k : GcKind) {rounds : ℕ} (hr : GC_MAX_REGIONS < rounds) :
    (s.step (.collect k rounds)).Inv := by
  rcases step_collect s k rounds with he | ⟨g', code, hrun, he⟩
  · rw [he]
    exact h
  · rw [he]
    obtain ⟨lists, hlists⟩ := h.lists
    cases hon : !s.gc.initialized || !s.gc.active with
    | true =>
      rw [gcRun_off hon] at hrun
      obtain ⟨rfl, rfl⟩ := Prod.mk.inj (Option.some.inj hrun)
      rw [if_neg (by decide)]
      exact h
    | false =>
      obtain ⟨hcode, k', freed, hbooked⟩ :=
        gcRun_booked hlists h.words hon h.balanced.idle.2 hr hrun
      rw [if_pos hcode]
      exact h.collected hbooked

/-- **Step lemma.** -/
theorem Inv.step (h : s.Inv) {op : GcBooksOp} (hlegal : op.Legal s) : (s.step op).Inv := by
  cases op with
  | region op => exact h.region hlegal
  | register ptr size => exact h.register ptr size
  | unregister ptr => exact h.unregister ptr
  | collect k rounds => exact h.collect k hlegal
  | collectAsync => exact h.nothing (gcCollectAsync_booksNothing _)
  | barrier ptr => exact h.nothing (gcWriteBarrier_booksNothing _ ptr)
  | barrierPre oldValue newValue => exact h.nothing (gcWriteBarrierPre_booksNothing _ oldValue newValue)
  | enable => exact h.nothing (gcEnable_booksNothing _)
  | disable => exact h.nothing (gcDisable_booksNothing _)
  | mixedGcRatio ratio => exact h.nothing (gcSetMixedGcRatio_booksNothing _ ratio)
  | resetStats => exact h.resetStats

end

end GcBooks

end Nomalloc
