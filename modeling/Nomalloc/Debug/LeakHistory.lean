import Nomalloc.Debug.LeakRecords

/-!
# The leak detector and the heap it watches

A program that allocates a pointer only when it is not live and frees it only when it is
(`WellBehaved`) reports every event; the detector drops those that come while tracking is off.  A
free that is dropped leaves a record behind, and `leak_detector_record_alloc` does not look for a
record of the pointer before it adds one.

* `recorded`            the pointers that have a record;
* `leak_truthful_iff`   no pointer has two records, and none is left after a free that is heard,
                        exactly as long as no allocation is heard of a pointer that has a record.
-/

namespace Nomalloc

/-- The pointers that have a record, one for each record. -/
def LeakDetector.recorded (d : LeakDetector) : List ℕ :=
  d.allocationList.map fun a => (d.record a).ptr

/-- The detector says about the heap what it has heard. -/
structure LeakSys.Truthful (s : LeakSys) : Prop where
  /-- no pointer has two records -/
  single : s.detector.recorded.Nodup
  /-- a pointer whose free has just been heard has none -/
  freed : ∀ ptr, s.lastFreed = some ptr → ptr ∉ s.detector.recorded

/-- The program allocates only what is not live and frees only what is. -/
def LeakSys.WellBehaved (s : LeakSys) (op : LeakOp) : Prop :=
  s.Legal op ∧
    match op with
    | .alloc ptr _ _ _ _ => ptr ∉ s.live
    | .dealloc ptr => ptr ∈ s.live
    | _ => True

/-- An allocation that is heard, and gets a record, is of a pointer that has none. -/
def LeakSys.NoStaleRecord (s : LeakSys) : LeakOp → Prop
  | .alloc ptr _ _ _ env =>
    s.detector.Listens ptr → s.detector.HasRecord env → ptr ∉ s.detector.recorded
  | _ => True

section
variable {d : LeakDetector} {created : List ℕ} {a ptr : ℕ}

/-- Retiring the record of a pointer leaves no other record of it, when no pointer has two. -/
theorem recorded_retire (h : LeakLists d created) (hnd : d.recorded.Nodup)
    (ha : a ∈ d.allocationList) (hptr : (d.record a).ptr = ptr) (n m : ℕ) :
    ((((d.unhash a).blank a).retire a).setCounts n m).recorded.Nodup ∧
      ptr ∉ ((((d.unhash a).blank a).retire a).setCounts n m).recorded := by
  have hmem : ∀ b, b ∈ d.allocationList.erase a ↔ b ≠ a ∧ b ∈ d.allocationList :=
    fun b => h.once.of_append_left.mem_erase_iff
  have he : ((((d.unhash a).blank a).retire a).setCounts n m).recorded =
      (d.allocationList.erase a).map fun b => (d.record b).ptr :=
    map_record_retire AllocationRecord.ptr h n m
  rw [he]
  refine ⟨hnd.sublist (List.erase_sublist.map _), fun hin => ?_⟩
  obtain ⟨b, hb, hbp⟩ := List.mem_map.mp hin
  obtain ⟨hne, hball⟩ := (hmem b).mp hb
  exact hne (List.inj_on_of_nodup_map hnd hball ha (hbp.trans hptr.symm))

end

namespace LeakInv

variable {s : LeakSys}

/-- **What a report of an allocation records.** -/
theorem recorded_alloc (h : LeakInv s) {ptr size classIdx : ℕ} {arenaId : Int} {env : LeakEnv}
    (hlegal : s.Legal (.alloc ptr size classIdx arenaId env)) :
    (leakDetectorRecordAlloc s.detector ptr size classIdx arenaId env).recorded =
      if s.detector.Listens ptr ∧ s.detector.HasRecord env then s.detector.recorded ++ [ptr]
      else s.detector.recorded := by
  rcases h.alloc_adds hlegal with ⟨hno, hd⟩ | ⟨hyes, rest, a, r, ha, ⟨hr, -⟩, hd⟩
  · rw [hd, if_neg hno]
  · rw [hd, if_pos hyes, ← hr]
    exact map_record_add (d := { s.detector with freeList := rest }) AllocationRecord.ptr ha r

/-- The detector is set up or switched on: no record is added. -/
theorem recorded_enable (h : LeakInv s) (ok : Bool) :
    (leakDetectorEnable s.detector ok).1.recorded = s.detector.recorded := by
  unfold leakDetectorEnable
  cases hon : s.detector.enabled with
  | true => rfl
  | false =>
    have hnone : s.detector.recorded = [] := by
      have hperm := h.lists.shared
      rw [h.off hon] at hperm
      unfold LeakDetector.recorded
      rw [(List.append_eq_nil_iff.mp hperm.eq_nil).1]
      rfl
    rw [hnone]
    unfold leakDetectorInit
    rw [hon]
    cases ok <;> rfl

theorem recorded_disable : (leakDetectorDisable s.detector).1.recorded = s.detector.recorded := by
  unfold leakDetectorDisable
  split_ifs <;> rfl

theorem recorded_clear (h : LeakInv s) : (leakDetectorClear s.detector).recorded = [] := by
  obtain ⟨-, hnil, -⟩ := clear_loop h.lists rfl
  exact congrArg (List.map _) hnil

end LeakInv

/-- The invariant of the histories in which no allocation is heard of a pointer with a record. -/
def LeakSys.Holds (s : LeakSys) : Prop := LeakInv s ∧ s.Truthful

section
variable {s : LeakSys}

/-- **Step lemma.** -/
theorem leak_truthful_step (h : s.Holds) {op : LeakOp} (hop : s.WellBehaved op)
    (hfresh : s.NoStaleRecord op) : (s.step op).Holds := by
  refine ⟨h.1.step hop.1, ?_⟩
  cases op with
  | enable ok =>
    refine ⟨?_, fun ptr hp => absurd hp (by simp [LeakSys.step])⟩
    show (leakDetectorEnable s.detector ok).1.recorded.Nodup
    rw [h.1.recorded_enable]
    exact h.2.single
  | disable =>
    refine ⟨?_, fun ptr hp => absurd hp (by simp [LeakSys.step])⟩
    show (leakDetectorDisable s.detector).1.recorded.Nodup
    rw [LeakInv.recorded_disable]
    exact h.2.single
  | clear =>
    refine ⟨?_, fun ptr hp => absurd hp (by simp [LeakSys.step])⟩
    show (leakDetectorClear s.detector).recorded.Nodup
    rw [h.1.recorded_clear]
    exact List.nodup_nil
  | alloc ptr size classIdx arenaId env =>
    refine ⟨?_, fun p hp => absurd hp (by simp [LeakSys.step])⟩
    show (leakDetectorRecordAlloc s.detector ptr size classIdx arenaId env).recorded.Nodup
    rw [h.1.recorded_alloc hop.1]
    split_ifs with hl
    · exact (List.perm_append_singleton ptr _).nodup_iff.mpr
        (List.nodup_cons.mpr ⟨hfresh hl.1 hl.2, h.2.single⟩)
    · exact h.2.single
  | dealloc ptr =>
    have hdet : (s.step (.dealloc ptr)).detector = leakDetectorRecordDealloc s.detector ptr := rfl
    have hlast : (s.step (.dealloc ptr)).lastFreed =
      if s.detector.Listens ptr then some ptr else none := rfl
    rcases h.1.dealloc_retires ptr with ⟨hd, hnone⟩ | ⟨a, ha, hap, hd⟩
    · refine ⟨by rw [hdet, hd]; exact h.2.single, fun p hp hin => ?_⟩
      rw [hdet, hd] at hin
      rw [hlast] at hp
      split_ifs at hp with hl
      obtain ⟨b, hb, hbp⟩ := List.mem_map.mp hin
      exact hnone hl b hb (hbp.trans (Option.some.inj hp).symm)
    · obtain ⟨hnd, hnot⟩ := recorded_retire h.1.lists h.2.single ha hap
        (subW s.detector.numRecords 1) (addW s.detector.stats.totalDeallocations 1)
      refine ⟨by rw [hdet, hd]; exact hnd, fun p hp => ?_⟩
      rw [hlast] at hp
      split_ifs at hp
      rw [hdet, hd, ← Option.some.inj hp]
      exact hnot

/-- An allocation that is heard of a pointer with a record gives it a second one. -/
theorem stale_record_doubles (h : s.Holds) {op : LeakOp} (hop : s.WellBehaved op)
    (hstale : ¬ s.NoStaleRecord op) : ¬ (s.step op).Truthful := by
  cases op with
  | alloc ptr size classIdx arenaId env =>
    intro htrue
    refine hstale fun hl hhas hin => ?_
    have hnd : (leakDetectorRecordAlloc s.detector ptr size classIdx arenaId env).recorded.Nodup :=
      htrue.single
    rw [h.1.recorded_alloc hop.1, if_pos ⟨hl, hhas⟩] at hnd
    exact (List.nodup_append.mp hnd).2.2 ptr hin ptr (List.mem_singleton_self ptr) rfl
  | enable ok => exact absurd trivial hstale
  | disable => exact absurd trivial hstale
  | clear => exact absurd trivial hstale
  | dealloc ptr => exact absurd trivial hstale

end

theorem leak_holds_init : LeakSys.init.Holds :=
  ⟨leakInv_init, List.nodup_nil, fun ptr hp => absurd hp (by simp [LeakSys.init])⟩

/-- **One record for a pointer.**  For every history of a well-behaved program, with tracking switched
on and off at any time: no pointer ever has two records and none is left after a free that is heard,
exactly when no allocation is heard, and given a record, of a pointer that still has one. -/
theorem leak_truthful_iff (ops : List LeakOp)
    (hops : Runs.Each LeakSys.step LeakSys.WellBehaved LeakSys.init ops) :
    Runs.Always LeakSys.step LeakSys.Truthful LeakSys.init ops ↔
      Runs.Each LeakSys.step LeakSys.NoStaleRecord LeakSys.init ops :=
  Runs.always_iff_each_of (fun _ _ h hop hfresh => leak_truthful_step h hop hfresh)
    (fun _ h => h.2) (fun _ _ h hop hstale => stale_record_doubles h hop hstale) leak_holds_init hops

/-- A pointer is allocated while tracking is on, freed while it is off, and allocated again. -/
def missedFree : List LeakOp :=
  [.enable true, .enable true, .alloc 0x1000 16 1 0 (leakEnvAt 0x500000), .disable,
    .dealloc 0x1000, .enable true, .alloc 0x1000 16 1 0 (leakEnvAt 0x500100)]

theorem missedFree_wellBehaved :
    Runs.Each LeakSys.step LeakSys.WellBehaved LeakSys.init missedFree := by
  refine ⟨⟨trivial, trivial⟩, ⟨trivial, trivial⟩, ⟨?_, ?_⟩, ⟨trivial, trivial⟩, ⟨trivial, ?_⟩,
    ⟨trivial, trivial⟩, ⟨?_, ?_⟩, trivial⟩
  · intro a ha
    exact List.not_mem_nil
  · exact List.not_mem_nil
  · show 0x1000 ∈ [0x1000]
    decide
  · intro a ha
    cases ha
    show 0x500100 ∉ [0x500000]
    decide
  · show 0x1000 ∉ ([0x1000] : List ℕ).erase 0x1000
    decide

theorem leak_truthful_missedFree :
    Runs.Always LeakSys.step LeakSys.Truthful LeakSys.init missedFree ↔
      Runs.Each LeakSys.step LeakSys.NoStaleRecord LeakSys.init missedFree :=
  leak_truthful_iff missedFree missedFree_wellBehaved

/-- The pointer has two records then. -/
theorem missed_free_doubles : ¬ ∀ ops, Runs.Each LeakSys.step LeakSys.WellBehaved LeakSys.init ops →
    Runs.Always LeakSys.step LeakSys.Truthful LeakSys.init ops := by
  intro hall
  have hlast := (hall missedFree missedFree_wellBehaved).last.single
  exact absurd hlast (by decide +kernel)

end Nomalloc
