import Nomalloc.Gc.Collect
import Nomalloc.Lib.Runs

/-!
# The write barrier

While a concurrent cycle is on, `gc_write_barrier_pre(old, new)` is to mark the value that is about
to be overwritten.  It marks it only if its live bit is set; `gc_mark_region` clears the live bits and
nothing sets them.  So of the two bits of an address the step functions can only copy the live one
to the marking one, until marking the region clears both.

* `Known g p a`      one of the two bits is set;
* `known_step`       a step keeps that, unless it clears the region;
* `SnapshotKept`     every old value passed to the barrier in a marking cycle is marked from then on;
* `snapshot_iff`     it is exactly when its bit was set all along.
-/

namespace Nomalloc

inductive GcMutation where
  | register (ptr size : ℕ)
  | mark (p : ℕ)
  | barrierPre (old new : ℕ)
deriving DecidableEq

def Gc.mutate (g : Gc) : GcMutation → Gc
  | .register ptr size => gcRegisterObject g ptr size
  | .mark p => gcMarkRegion g p
  | .barrierPre old new => gcWriteBarrierPre g old new

/-- `gc_mark_region` has run on all young, survivor and old regions. -/
def CycleBegun (g : Gc) (pre : List GcMutation) : Prop :=
  ∀ i < g.manager.numRegions, ∀ p, g.manager.regions i = some p →
    (g.manager.region p).type = .young ∨ (g.manager.region p).type = .survivor ∨
      (g.manager.region p).type = .old → GcMutation.mark p ∈ pre

/-- Every old value in some region that is passed to the barrier after the steps `pre` is marked,
from its call to the end of the steps `post`. -/
def SnapshotKept (g : Gc) (pre post : List GcMutation) : Prop :=
  ∀ as old new bs cs, post = as ++ .barrierPre old new :: (bs ++ cs) → old ≠ 0 →
    ∀ p, gcRegionGetByAddr (Runs.after Gc.mutate g (pre ++ as)).manager old = some p →
      gcRegionIsMarked
        (Runs.after Gc.mutate g (pre ++ as ++ .barrierPre old new :: bs)).manager p old = true

/-- One of the two bits of `a` is set. -/
def Known (g : Gc) (p a : ℕ) : Prop :=
  gcRegionIsLive g.manager p a = true ∨ gcRegionIsMarked g.manager p a = true

/-- The step clears the bits of the region at `p`. -/
def Clears (g : Gc) (op : GcMutation) (p : ℕ) : Prop :=
  op = .mark p ∧ p ≠ 0 ∧ (g.manager.region p).type ≠ .empty

/-- What no step stores to. -/
structure SameRegions (g g' : Gc) : Prop where
  on : g'.initialized = g.initialized ∧ g'.concurrentActive = g.concurrentActive
  regions : g'.manager.regions = g.manager.regions
  numRegions : g'.manager.numRegions = g.manager.numRegions
  fields : ∀ q, (g'.manager.region q).baseAddr = (g.manager.region q).baseAddr ∧
    (g'.manager.region q).size = (g.manager.region q).size ∧
    (g'.manager.region q).type = (g.manager.region q).type

section
variable {g g' g'' : Gc} {p q a b : ℕ} {op : GcMutation}

namespace SameRegions

theorem refl (g : Gc) : SameRegions g g := ⟨⟨rfl, rfl⟩, rfl, rfl, fun _ => ⟨rfl, rfl, rfl⟩⟩

theorem trans (h : SameRegions g g') (h' : SameRegions g' g'') : SameRegions g g'' := by
  refine ⟨⟨h'.on.1.trans h.on.1, h'.on.2.trans h.on.2⟩, h'.regions.trans h.regions,
    h'.numRegions.trans h.numRegions, fun q => ?_⟩
  obtain ⟨h1, h2, h3⟩ := h.fields q
  obtain ⟨h4, h5, h6⟩ := h'.fields q
  exact ⟨h4.trans h1, h5.trans h2, h6.trans h3⟩

theorem contains (h : SameRegions g g') (q a : ℕ) :
    (g'.manager.region q).contains a = (g.manager.region q).contains a := by
  unfold GcRegion.contains
  rw [(h.fields q).1, (h.fields q).2.1]

theorem bitIdx (h : SameRegions g g') (q a : ℕ) :
    (g'.manager.region q).bitIdx a = (g.manager.region q).bitIdx a := by
  unfold GcRegion.bitIdx
  rw [(h.fields q).1]

theorem getByAddr (h : SameRegions g g') (a : ℕ) :
    gcRegionGetByAddr g'.manager a = gcRegionGetByAddr g.manager a := by
  unfold gcRegionGetByAddr
  rw [h.regions, h.numRegions]
  simp only [h.contains]

theorem clears_iff (h : SameRegions g g') : Clears g' op p ↔ Clears g op p := by
  unfold Clears
  rw [(h.fields p).2.2]

theorem setRegion {r : GcRegion} (hm : g'.manager = g.manager.setRegion p r)
    (hr : r.baseAddr = (g.manager.region p).baseAddr ∧
      r.size = (g.manager.region p).size ∧ r.type = (g.manager.region p).type)
    (hg : g'.initialized = g.initialized ∧ g'.concurrentActive = g.concurrentActive) :
    SameRegions g g' := by
  refine ⟨hg, by rw [hm]; rfl, by rw [hm]; rfl, fun q => ?_⟩
  rw [hm]
  by_cases hq : q = p
  · subst hq
    rw [show (g.manager.setRegion q r).region q = r from Function.update_self ..]
    exact hr
  · rw [show (g.manager.setRegion p r).region q = g.manager.region q from
      Function.update_of_ne hq ..]
    exact ⟨rfl, rfl, rfl⟩

end SameRegions

/-- An address that a region contains has a bit in its bitmaps. -/
theorem bitIdx_lt {r : GcRegion} (h : r.contains a = true) :
    r.bitIdx a < r.bitmapSize := by
  unfold GcRegion.contains at h
  obtain ⟨h1, h2⟩ := of_decide_eq_true h
  have hword : a < wordSize := lt_trans h2 (addW_lt _ _)
  have hle : addW r.baseAddr r.size ≤ r.baseAddr + r.size := Nat.mod_le _ _
  have hsize := r.size_eq
  unfold GcRegion.bitIdx
  rw [subW_eq h1 hword]
  omega

/-! ## one step -/

/-- Only the fields that hold the bits decide whether an address is marked or live. -/
theorem known_congr (hbase : (g'.manager.region p).baseAddr = (g.manager.region p).baseAddr)
    (hlive : (g'.manager.region p).liveBitmap = (g.manager.region p).liveBitmap)
    (hmark : (g'.manager.region p).markingBitmap = (g.manager.region p).markingBitmap) (a : ℕ) :
    gcRegionIsLive g'.manager p a = gcRegionIsLive g.manager p a ∧
      gcRegionIsMarked g'.manager p a = gcRegionIsMarked g.manager p a := by
  unfold gcRegionIsLive gcRegionIsMarked GcRegion.bitIdx
  rw [hbase, hlive, hmark]
  exact ⟨rfl, rfl⟩

theorem gcRegionIsMarked_markObject {m : GcRegionManager} (hp : p ≠ 0) (ha : a ≠ 0)
    (hc : (m.region p).contains a = true) (q b : ℕ) :
    gcRegionIsLive (gcRegionMarkObject m p a) q b = gcRegionIsLive m q b ∧
    gcRegionIsMarked (gcRegionMarkObject m p a) q b =
      (decide (q = p ∧ b ≠ 0 ∧ (m.region p).bitIdx b = (m.region p).bitIdx a) ||
        gcRegionIsMarked m q b) := by
  obtain ⟨r, hr, hbase, hlive, hmark⟩ : ∃ r : GcRegion,
      gcRegionMarkObject m p a = m.setRegion p r ∧ r.baseAddr = (m.region p).baseAddr ∧
      r.liveBitmap = (m.region p).liveBitmap ∧
      r.markingBitmap = bitmapSet (m.region p).markingBitmap ((m.region p).bitIdx a) := by
    unfold gcRegionMarkObject
    rw [if_neg (not_or.mpr ⟨hp, ha⟩)]
    exact ⟨_, rfl, rfl, rfl, rfl⟩
  have hlen : (m.region p).bitIdx a / 64 < (m.region p).markingBitmap.length := by
    rw [(m.region p).length_marking]
    exact div_lt_bitmapSize (bitIdx_lt hc)
  rw [hr]
  unfold gcRegionIsLive gcRegionIsMarked
  by_cases hq : q = p
  · subst hq
    have hread : (m.setRegion q r).region q = r := Function.update_self ..
    have hidx : ∀ b, r.bitIdx b = (m.region q).bitIdx b := fun b => by
      unfold GcRegion.bitIdx
      rw [hbase]
    rw [hread, hlive, hmark, hidx]
    refine ⟨rfl, ?_⟩
    by_cases hb : b = 0
    · rw [if_pos (Or.inr hb), if_pos (Or.inr hb)]
      simp [hb]
    · rw [if_neg (not_or.mpr ⟨hp, hb⟩), if_neg (not_or.mpr ⟨hp, hb⟩), bitmapGet_set _ _ _ hlen]
      simp [hb]
  · have hread : (m.setRegion p r).region q = m.region q := Function.update_of_ne hq ..
    rw [hread]
    simp [hq]

/-- `gc_write_barrier_pre` marks the old value if it is live, or does nothing. -/
theorem gcWriteBarrierPre_cases (g : Gc) (old new : ℕ) :
    gcWriteBarrierPre g old new = g ∧
        (g.initialized = true → g.concurrentActive = true → old ≠ 0 →
          ∀ p, gcRegionGetByAddr g.manager old = some p →
            gcRegionIsLive g.manager p old = false) ∨
      ∃ p, gcRegionGetByAddr g.manager old = some p ∧ p ≠ 0 ∧ old ≠ 0 ∧
        gcRegionIsLive g.manager p old = true ∧
        gcWriteBarrierPre g old new =
          { g with manager := gcRegionMarkObject g.manager p old } := by
  unfold gcWriteBarrierPre
  split_ifs with hon hold
  · refine Or.inl ⟨rfl, fun h1 h2 => ?_⟩
    rw [h1, h2] at hon
    exact absurd hon (by decide)
  · exact Or.inl ⟨rfl, fun _ _ h => absurd hold h⟩
  · cases hget : gcRegionGetByAddr g.manager old with
    | none => exact Or.inl ⟨rfl, fun _ _ _ p hp => absurd hp (by simp)⟩
    | some p =>
      dsimp only
      split_ifs with hlive
      · have hp : p ≠ 0 := by
          rintro rfl
          exact absurd hlive (by simp [gcRegionIsLive])
        exact Or.inr ⟨p, rfl, hp, hold, hlive, rfl⟩
      · refine Or.inl ⟨rfl, fun _ _ _ q hq => ?_⟩
        cases hq
        exact Bool.eq_false_iff.mpr hlive

theorem sameRegions_step (g : Gc) (op : GcMutation) : SameRegions g (g.mutate op) := by
  cases op with
  | register ptr size =>
    show SameRegions g (gcRegisterObject g ptr size)
    unfold gcRegisterObject
    split_ifs
    · exact SameRegions.refl g
    · split
      · exact SameRegions.refl g
      · exact SameRegions.setRegion rfl ⟨rfl, rfl, rfl⟩ ⟨rfl, rfl⟩
  | mark p =>
    show SameRegions g (gcMarkRegion g p)
    unfold gcMarkRegion
    split_ifs
    · exact SameRegions.refl g
    · exact SameRegions.setRegion rfl ⟨rfl, rfl, rfl⟩ ⟨rfl, rfl⟩
  | barrierPre old new =>
    show SameRegions g (gcWriteBarrierPre g old new)
    rcases gcWriteBarrierPre_cases g old new with ⟨he, -⟩ | ⟨p, -, hp, ha, -, he⟩
    · rw [he]
      exact SameRegions.refl g
    · rw [he]
      exact SameRegions.setRegion (if_neg (not_or.mpr ⟨hp, ha⟩)) ⟨rfl, rfl, rfl⟩ ⟨rfl, rfl⟩

/-- A registration leaves both bitmaps of every region. -/
theorem gcRegisterObject_bitmaps (g : Gc) (ptr size p : ℕ) :
    ((gcRegisterObject g ptr size).manager.region p).liveBitmap = (g.manager.region p).liveBitmap ∧
      ((gcRegisterObject g ptr size).manager.region p).markingBitmap =
        (g.manager.region p).markingBitmap := by
  unfold gcRegisterObject
  split_ifs
  · exact ⟨rfl, rfl⟩
  · split
    · exact ⟨rfl, rfl⟩
    · rename_i q hq
      by_cases hpq : p = q
      · subst hpq
        dsimp only [GcRegionManager.setRegion]
        rw [Function.update_self]
        exact ⟨rfl, rfl⟩
      · dsimp only [GcRegionManager.setRegion]
        rw [Function.update_of_ne hpq]
        exact ⟨rfl, rfl⟩

/-- The barrier before a write marks the old object if it is live, and leaves the live bits. -/
theorem gcWriteBarrierPre_bits (g : Gc) (old new p a : ℕ) :
    gcRegionIsLive (gcWriteBarrierPre g old new).manager p a = gcRegionIsLive g.manager p a ∧
      (gcRegionIsMarked (gcWriteBarrierPre g old new).manager p a =
          gcRegionIsMarked g.manager p a ∨
        gcRegionIsMarked (gcWriteBarrierPre g old new).manager p a = true ∧
          gcRegionIsLive g.manager p a = true) := by
  rcases gcWriteBarrierPre_cases g old new with ⟨he, -⟩ | ⟨q, hget, hq, hold, hlive, he⟩
  · rw [he]
    exact ⟨rfl, Or.inl rfl⟩
  · rw [he]
    obtain ⟨h1, h2⟩ := gcRegionIsMarked_markObject hq hold (getByAddr_contains hget) p a
    refine ⟨h1, ?_⟩
    rw [h2]
    by_cases hbit : p = q ∧ a ≠ 0 ∧ (g.manager.region q).bitIdx a = (g.manager.region q).bitIdx old
    · -- the same bit is asked for
      refine Or.inr ⟨by simp [hbit], ?_⟩
      obtain ⟨rfl, ha, hidx⟩ := hbit
      unfold gcRegionIsLive at hlive ⊢
      rw [if_neg (not_or.mpr ⟨hq, hold⟩)] at hlive
      rw [if_neg (not_or.mpr ⟨hq, ha⟩), hidx]
      exact hlive
    · refine Or.inl ?_
      rw [decide_eq_false hbit, Bool.false_or]

/-- The bits of an address after a step: a step that clears the region clears both, and otherwise
the live bit stays as it is and the marking bit is set only where the live bit is. -/
theorem bits_step (g : Gc) (op : GcMutation) (p a : ℕ) :
    (Clears g op p → gcRegionIsLive (g.mutate op).manager p a = false ∧
      gcRegionIsMarked (g.mutate op).manager p a = false) ∧
    (¬ Clears g op p →
      gcRegionIsLive (g.mutate op).manager p a = gcRegionIsLive g.manager p a ∧
      (gcRegionIsMarked (g.mutate op).manager p a = gcRegionIsMarked g.manager p a ∨
        gcRegionIsMarked (g.mutate op).manager p a = true ∧
          gcRegionIsLive g.manager p a = true)) := by
  cases op with
  | register ptr size =>
    refine ⟨fun hc => absurd hc.1 (by simp), fun _ => ?_⟩
    have hsame := gcRegisterObject_bitmaps g ptr size p
    obtain ⟨h1, h2⟩ := known_congr ((sameRegions_step g (.register ptr size)).fields p).1
      hsame.1 hsame.2 a
    exact ⟨h1, Or.inl h2⟩
  | mark q =>
    have hread := gcMarkRegion_region g q p
    by_cases hc : Clears g (.mark q) p
    · refine ⟨fun _ => ?_, fun h => absurd hc h⟩
      obtain ⟨he, hp, ht⟩ := hc
      cases he
      rw [if_pos ⟨rfl, hp, ht⟩] at hread
      show gcRegionIsLive (gcMarkRegion g p).manager p a = false ∧
        gcRegionIsMarked (gcMarkRegion g p).manager p a = false
      unfold gcRegionIsLive gcRegionIsMarked
      rw [hread]
      unfold GcRegion.marked
      dsimp only
      rw [bitmapGet_init_false]
      exact ⟨ite_self _, ite_self _⟩
    · refine ⟨fun h => absurd h hc, fun _ => ?_⟩
      rw [if_neg] at hread
      · obtain ⟨h1, h2⟩ := known_congr (congrArg GcRegion.baseAddr hread)
          (congrArg GcRegion.liveBitmap hread) (congrArg GcRegion.markingBitmap hread) a
        exact ⟨h1, Or.inl h2⟩
      · rintro ⟨rfl, hp, ht⟩
        exact hc ⟨rfl, hp, ht⟩
  | barrierPre old new =>
    refine ⟨fun hc => absurd hc.1 (by simp), fun _ => ?_⟩
    exact gcWriteBarrierPre_bits g old new p a

/-- **A step** keeps one of the two bits set, unless it clears the region. -/
theorem known_step (g : Gc) (op : GcMutation) (p a : ℕ) :
    Known (g.mutate op) p a ↔ Known g p a ∧ ¬ Clears g op p := by
  obtain ⟨hclear, hkeep⟩ := bits_step g op p a
  unfold Known
  by_cases hc : Clears g op p
  · obtain ⟨h1, h2⟩ := hclear hc
    rw [h1, h2]
    exact ⟨fun h => absurd h (by decide), fun h => absurd hc h.2⟩
  · obtain ⟨h1, h2⟩ := hkeep hc
    rw [h1]
    rcases h2 with h2 | ⟨h2, h3⟩
    · rw [h2]
      exact ⟨fun h => ⟨h, hc⟩, fun h => h.1⟩
    · exact ⟨fun _ => ⟨Or.inl h3, hc⟩, fun _ => Or.inl h3⟩

theorem marked_step (h : gcRegionIsMarked g.manager p a = true) (hc : ¬ Clears g op p) :
    gcRegionIsMarked (g.mutate op).manager p a = true := by
  rcases ((bits_step g op p a).2 hc).2 with h2 | ⟨h2, -⟩
  · rw [h2, h]
  · exact h2

/-- The barrier marks a value one of whose bits is set. -/
theorem barrier_marks (hon : g.initialized = true ∧ g.concurrentActive = true) (ha : a ≠ 0)
    (hget : gcRegionGetByAddr g.manager a = some p) (hk : Known g p a) (new : ℕ) :
    gcRegionIsMarked (g.mutate (.barrierPre a new)).manager p a = true := by
  show gcRegionIsMarked (gcWriteBarrierPre g a new).manager p a = true
  rcases gcWriteBarrierPre_cases g a new with ⟨he, hdead⟩ | ⟨q, hget', hq, -, -, he⟩
  · rw [he]
    rcases hk with hk | hk
    · rw [hdead hon.1 hon.2 ha p hget] at hk
      exact absurd hk (by decide)
    · exact hk
  · rw [hget] at hget'
    cases hget'
    rw [he]
    refine (gcRegionIsMarked_markObject hq ha (getByAddr_contains hget) p a).2.trans ?_
    simp [ha]

/-! ## runs -/

theorem sameRegions_after (g : Gc) (ops : List GcMutation) :
    SameRegions g (Runs.after Gc.mutate g ops) := by
  induction ops generalizing g with
  | nil => exact SameRegions.refl g
  | cons op ops ih => exact (sameRegions_step g op).trans (ih _)

/-- **A run** keeps one of the two bits set, unless one of its steps clears the region. -/
theorem known_after (g : Gc) (ops : List GcMutation) (p a : ℕ) :
    Known (Runs.after Gc.mutate g ops) p a ↔ Known g p a ∧ ∀ op ∈ ops, ¬ Clears g op p := by
  induction ops generalizing g with
  | nil => simp
  | cons op ops ih =>
    rw [Runs.after_cons, ih, known_step, List.forall_mem_cons, and_assoc]
    simp only [(sameRegions_step g op).clears_iff]

theorem marked_after {ops : List GcMutation} (h : gcRegionIsMarked g.manager p a = true)
    (hc : ∀ op ∈ ops, ¬ Clears g op p) :
    gcRegionIsMarked (Runs.after Gc.mutate g ops).manager p a = true := by
  induction ops generalizing g with
  | nil => exact h
  | cons op ops ih =>
    refine ih (marked_step h (hc op List.mem_cons_self)) fun op' hop' => ?_
    rw [(sameRegions_step g op).clears_iff]
    exact hc op' (List.mem_cons_of_mem _ hop')

theorem Known.ne_zero (hk : Known g p a) : p ≠ 0 := by
  rintro rfl
  rcases hk with hk | hk
  · exact absurd hk (by simp [gcRegionIsLive])
  · exact absurd hk (by simp [gcRegionIsMarked])

/-- No step clears a region that is marked only if it is empty. -/
theorem mark_empty_iff (hp : p ≠ 0) (ops : List GcMutation) :
    (GcMutation.mark p ∈ ops → (g.manager.region p).type = .empty) ↔
      ∀ op ∈ ops, ¬ Clears g op p := by
  constructor
  · rintro h op hop ⟨rfl, -, ht⟩
    exact ht (h hop)
  · intro h hin
    by_contra ht
    exact h _ hin ⟨rfl, hp, ht⟩

/-- The regions of the three lists were cleared when the cycle began. -/
theorem CycleBegun.type_of_spared {pre : List GcMutation} (hcycle : CycleBegun g pre)
    (hget : gcRegionGetByAddr g.manager a = some p)
    (hempty : GcMutation.mark p ∈ pre → (g.manager.region p).type = .empty) :
    (g.manager.region p).type = .empty ∨ (g.manager.region p).type = .humongous ∨
      (g.manager.region p).type = .pinned := by
  obtain ⟨i, hi, hreg⟩ := getByAddr_registered hget
  cases ht : (g.manager.region p).type with
  | empty => exact Or.inl rfl
  | humongous => exact Or.inr (Or.inl rfl)
  | pinned => exact Or.inr (Or.inr rfl)
  | young | survivor | old =>
    have hmarked := hempty (hcycle i hi p hreg (by simp [ht]))
    rw [ht] at hmarked
    exact absurd hmarked (by decide)

/-- In a run that does not clear its region, a value one of whose bits is set is marked from the call
of the barrier on. -/
theorem barrier_marks_after (hon : g.initialized = true ∧ g.concurrentActive = true) (ha : a ≠ 0)
    (hget : gcRegionGetByAddr g.manager a = some p) (hk : Known g p a) (new : ℕ)
    {before behind : List GcMutation}
    (hspared : ∀ op ∈ before ++ .barrierPre a new :: behind, ¬ Clears g op p) :
    gcRegionIsMarked
      (Runs.after Gc.mutate g (before ++ .barrierPre a new :: behind)).manager p a = true := by
  have hsame := sameRegions_after g before
  have hk' := (known_after g before p a).mpr
    ⟨hk, fun op hop => hspared op (List.mem_append_left _ hop)⟩
  have hon' : (Runs.after Gc.mutate g before).initialized = true ∧
      (Runs.after Gc.mutate g before).concurrentActive = true := by
    rw [hsame.on.1, hsame.on.2]
    exact hon
  rw [Runs.after_append, Runs.after_cons]
  refine marked_after (barrier_marks hon' ha ((hsame.getByAddr a).trans hget) hk' new) ?_
  intro op hop
  rw [(hsame.trans (sameRegions_step _ _)).clears_iff]
  exact hspared op (List.mem_append_right _ (List.mem_cons_of_mem _ hop))

end

/-- **The snapshot is kept** exactly when every old value that is passed to the barrier in the cycle
lies in a region that is on none of the three lists a cycle marks, that no step of the run clears,
and where one of the two bits of the value was set before the run. -/
theorem snapshot_iff (g : Gc) (hon : g.initialized = true ∧ g.concurrentActive = true)
    (pre post : List GcMutation) (hcycle : CycleBegun g pre) :
    SnapshotKept g pre post ↔
      ∀ old new, GcMutation.barrierPre old new ∈ post → old ≠ 0 →
        ∀ p, gcRegionGetByAddr g.manager old = some p →
          ((g.manager.region p).type = .empty ∨ (g.manager.region p).type = .humongous ∨
            (g.manager.region p).type = .pinned) ∧
          (GcMutation.mark p ∈ pre ++ post → (g.manager.region p).type = .empty) ∧
          (gcRegionIsLive g.manager p old = true ∨ gcRegionIsMarked g.manager p old = true) := by
  constructor
  · intro hkept old new hin hold p hget
    obtain ⟨as, bs, hpost⟩ := List.append_of_mem hin
    have hmark := hkept as old new bs [] (by rw [hpost, List.append_nil]) hold p
      (((sameRegions_after g (pre ++ as)).getByAddr old).trans hget)
    have hops : pre ++ as ++ GcMutation.barrierPre old new :: bs = pre ++ post := by
      rw [hpost, List.append_assoc]
    rw [hops] at hmark
    obtain ⟨hk, hnone⟩ := (known_after g (pre ++ post) p old).mp (Or.inr hmark)
    have hempty := (mark_empty_iff (Known.ne_zero hk) (pre ++ post)).mpr hnone
    exact ⟨hcycle.type_of_spared hget fun h => hempty (List.mem_append_left _ h), hempty, hk⟩
  · intro hcond as old new bs cs hpost hold p hget
    have hin : GcMutation.barrierPre old new ∈ post := by
      rw [hpost]
      exact List.mem_append_right _ List.mem_cons_self
    rw [(sameRegions_after g (pre ++ as)).getByAddr] at hget
    obtain ⟨-, hempty, hk⟩ := hcond old new hin hold p hget
    have hnone := (mark_empty_iff (Known.ne_zero hk) (pre ++ post)).mp hempty
    refine barrier_marks_after hon hold hget hk new fun op hop => hnone op ?_
    have hops : pre ++ post = (pre ++ as ++ GcMutation.barrierPre old new :: bs) ++ cs := by
      rw [hpost, List.append_assoc, List.append_assoc, List.cons_append]
    rw [hops]
    exact List.mem_append_left _ hop

/-- A collector in a concurrent cycle, over one region at `0x200000` whose first bit is marked. -/
def gcConcurrent (type : GcRegionType) : Gc :=
  { gcInit Gc.zero with
    concurrentActive := true
    manager := gcRegionMarkObject
      (gcRegionAlloc gcRegionManagerInit type ⟨some 100, some 0x200000, true, true⟩).1
      100 0x200000 }

theorem gcConcurrent_only (type : GcRegionType) {i p : ℕ}
    (hi : i < (gcConcurrent type).manager.numRegions)
    (hp : (gcConcurrent type).manager.regions i = some p) : i = 0 ∧ p = 100 := by
  have h1 : (gcConcurrent type).manager.numRegions = 1 := by cases type <;> rfl
  have h2 : (gcConcurrent type).manager.regions 0 = some 100 := by cases type <;> rfl
  have h0 : i = 0 := by omega
  subst h0
  exact ⟨rfl, Option.some.inj (hp.symm.trans h2)⟩

/-- The snapshot of a value in a humongous region. -/
theorem snapshot_humongous :
    SnapshotKept (gcConcurrent .humongous) [] [.barrierPre 0x200000 0] := by
  refine (snapshot_iff (gcConcurrent .humongous) ⟨rfl, rfl⟩ [] [.barrierPre 0x200000 0] ?_).mpr ?_
  · intro i hi p hp ht
    obtain ⟨rfl, rfl⟩ := gcConcurrent_only .humongous hi hp
    exact absurd ht (by decide)
  · intro old new hin _ p hget
    cases List.mem_singleton.mp hin
    obtain ⟨i, hi, hp⟩ := getByAddr_registered hget
    obtain ⟨rfl, rfl⟩ := gcConcurrent_only .humongous hi hp
    exact ⟨Or.inr (Or.inl rfl), fun h => absurd h (by decide), Or.inr (by decide)⟩

/-- The region is young and marked when the cycle begins: the barrier does nothing. -/
theorem barrier_skips_young :
    CycleBegun (gcConcurrent .young) [.mark 100] ∧
      ¬ SnapshotKept (gcConcurrent .young) [.mark 100] [.barrierPre 0x200000 0] := by
  refine ⟨fun i hi p hp _ => ?_, fun hkept => ?_⟩
  · obtain ⟨-, rfl⟩ := gcConcurrent_only .young hi hp
    exact List.mem_singleton_self _
  · have hmark := hkept [] 0x200000 0 [] [] rfl (by decide) 100 (by decide)
    have hk := (known_after (gcConcurrent .young) [.mark 100, .barrierPre 0x200000 0] 100
      0x200000).mp (Or.inr hmark)
    exact hk.2 (.mark 100) List.mem_cons_self ⟨rfl, by decide, by decide⟩

end Nomalloc
