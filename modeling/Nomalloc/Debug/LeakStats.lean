import Nomalloc.Debug.LeakRecords

/-!
# What the leak detector reports

* `leakDetectorUpdateStats`, `leakDetectorGetStats`
* `LeakChange`        what a call does to the records in use and to the counters;
* `leak_stats_iff`    the report agrees with the list of records in every state of a history
                      exactly when a clear finds no record, and the bytes in use stay below `2^64`;
* `leak_peaks_iff`    the peaks are the running maxima exactly when the number of records and their
                      bytes reach their maxima together.
-/

namespace Nomalloc

/-- `struct nomalloc_leak_stats` -/
structure NomallocLeakStats where
  leakedObjects : ℕ
  leakedBytes : ℕ
  totalAllocated : ℕ
  totalFreed : ℕ
  activeAllocations : ℕ
deriving DecidableEq, Repr

/-- `leak_detector_update_stats` -/
def leakDetectorUpdateStats (d : LeakDetector) : LeakDetector :=
  { d with
    stats := { d.stats with
      leakedAllocations := d.numRecords
      leakedBytes := d.allocationList.foldl (fun bytes a => addW bytes (d.record a).size) 0 } }

/-- `leak_detector_get_stats`; the pointer to the result is not NULL. -/
def leakDetectorGetStats (d : LeakDetector) : LeakDetector × NomallocLeakStats :=
  let d := leakDetectorUpdateStats d
  (d,
    { leakedObjects := d.stats.leakedAllocations
      leakedBytes := d.stats.leakedBytes
      totalAllocated := d.stats.totalAllocations
      totalFreed := d.stats.totalDeallocations
      activeAllocations := subW d.stats.totalAllocations d.stats.totalDeallocations })

/-- The number of records in use. -/
def LeakDetector.tracked (d : LeakDetector) : ℕ := d.allocationList.length

/-- The bytes of the records in use. -/
def LeakDetector.trackedBytes (d : LeakDetector) : ℕ :=
  (d.allocationList.map fun a => (d.record a).size).sum

/-! ## what a call changes -/

/-- The records in use, and what has been counted. -/
structure LeakCounts where
  enabled : Bool
  tracked : ℕ
  trackedBytes : ℕ
  totalAllocations : ℕ
  totalDeallocations : ℕ
  peakAllocations : ℕ
  peakBytes : ℕ

def LeakDetector.counts (d : LeakDetector) : LeakCounts where
  enabled := d.enabled
  tracked := d.tracked
  trackedBytes := d.trackedBytes
  totalAllocations := d.stats.totalAllocations
  totalDeallocations := d.stats.totalDeallocations
  peakAllocations := d.stats.peakAllocations
  peakBytes := d.stats.peakBytes

/-- A record of `size` bytes is put to use. -/
def LeakCounts.record (c : LeakCounts) (size : ℕ) : LeakCounts :=
  { c with
    tracked := c.tracked + 1
    trackedBytes := c.trackedBytes + size
    totalAllocations := addW c.totalAllocations 1
    peakAllocations :=
      if c.peakAllocations < c.tracked + 1 then c.tracked + 1 else c.peakAllocations
    peakBytes :=
      if c.peakAllocations < c.tracked + 1 then addW c.peakBytes size else c.peakBytes }

/-- The calls that are sure to change something: a report that gets a record, and a clear. -/
def LeakSys.Heard (s : LeakSys) : LeakOp → Prop
  | .alloc ptr _ _ _ env => s.detector.Listens ptr ∧ s.detector.HasRecord env
  | .clear => True
  | _ => False

/-- What a call does to them. -/
inductive LeakChange (s : LeakSys) (c : LeakCounts) : LeakOp → LeakCounts → Prop
  | same {op : LeakOp} (hno : ¬ s.Heard op) : LeakChange s c op c
  /-- `leak_detector_enable` before the detector is set up -/
  | setUp (ok enabled : Bool) (hoff : c.enabled = false) :
      LeakChange s c (.enable ok) ⟨enabled, 0, 0, 0, 0, 0, 0⟩
  | cleared : LeakChange s c .clear { c with tracked := 0, trackedBytes := 0 }
  | recorded {ptr size classIdx : ℕ} {arenaId : Int} {env : LeakEnv}
      (hheard : s.detector.Listens ptr ∧ s.detector.HasRecord env) :
      LeakChange s c (.alloc ptr size classIdx arenaId env) (c.record size)
  | retired {ptr tracked trackedBytes : ℕ} (htracked : c.tracked = tracked + 1)
      (hbytes : trackedBytes ≤ c.trackedBytes) :
      LeakChange s c (.dealloc ptr)
        { c with
          tracked := tracked
          trackedBytes := trackedBytes
          totalDeallocations := addW c.totalDeallocations 1 }

section
variable {d : LeakDetector} {created : List ℕ} {a : ℕ}

theorem counts_add (ha : a ∉ d.allocationList) (hcount : d.numRecords = d.tracked)
    (hword : d.tracked + 1 < wordSize) (r : AllocationRecord) :
    (leakAddRecord d a r).counts = d.counts.record r.size := by
  have htracked : (leakAddRecord d a r).tracked = d.tracked + 1 := by
    show (d.allocationList ++ [a]).length = _
    rw [List.length_append, List.length_singleton]
    rfl
  have hbytes : (leakAddRecord d a r).trackedBytes = d.trackedBytes + r.size := by
    unfold LeakDetector.trackedBytes
    rw [map_record_add AllocationRecord.size ha, List.sum_append, List.sum_singleton]
  have hcurrent : addW d.numRecords 1 = d.tracked + 1 := by rw [hcount, addW_eq hword]
  unfold LeakDetector.counts LeakCounts.record
  rw [htracked, hbytes]
  unfold leakAddRecord
  rw [hcurrent]

theorem counts_retire (h : LeakLists d created) (ha : a ∈ d.allocationList) :
    ∃ tracked trackedBytes, d.tracked = tracked + 1 ∧ trackedBytes ≤ d.trackedBytes ∧
      (((d.unhash a).blank a).retire a).countDealloc.counts =
        { d.counts with
          tracked := tracked
          trackedBytes := trackedBytes
          totalDeallocations := addW d.stats.totalDeallocations 1 } := by
  have hperm := List.perm_cons_erase ha
  refine ⟨(d.allocationList.erase a).length,
    ((d.allocationList.erase a).map fun b => (d.record b).size).sum, hperm.length_eq, ?_, ?_⟩
  · unfold LeakDetector.trackedBytes
    rw [(hperm.map _).sum_eq, List.map_cons, List.sum_cons]
    exact Nat.le_add_left _ _
  · rw [← map_record_retire AllocationRecord.size h (subW d.numRecords 1)
      (addW d.stats.totalDeallocations 1)]
    rfl

/-- The loop of `leak_detector_clear` counts nothing. -/
theorem clear_counts (as : List ℕ) :
    let d' := as.foldl (fun d a => (d.unhash a).retire a) d
    d'.enabled = d.enabled ∧ d'.stats = d.stats := by
  induction as generalizing d with
  | nil => exact ⟨rfl, rfl⟩
  | cons a as ih => exact ih

end

namespace LeakInv

variable {s : LeakSys}

/-- **What a call changes.** -/
theorem change (h : LeakInv s) {op : LeakOp} (hlegal : s.Legal op) :
    LeakChange s s.detector.counts op (s.step op).detector.counts := by
  have hle := h.length_le
  have hmax : LEAK_DETECTOR_MAX_ALLOCATIONS = 100000 := rfl
  cases op with
  | enable ok =>
    show LeakChange s _ _ (leakDetectorEnable s.detector ok).1.counts
    unfold leakDetectorEnable
    by_cases hon : s.detector.enabled = true
    · rw [if_neg (by rw [hon]; decide)]
      exact .same not_false
    · have hoff := Bool.eq_false_iff.mpr hon
      unfold leakDetectorInit
      rw [hoff]
      cases ok
      · exact .setUp false false hoff
      · exact .setUp true true hoff
  | disable =>
    show LeakChange s _ _ (leakDetectorDisable s.detector).1.counts
    unfold leakDetectorDisable
    split_ifs
    · exact .same not_false
    · exact .same not_false
  | clear =>
    show LeakChange s _ _ (leakDetectorClear s.detector).counts
    obtain ⟨-, hnil, -⟩ := clear_loop h.lists rfl
    obtain ⟨hon, hstats⟩ := clear_counts (d := s.detector) s.detector.allocationList
    have he : (leakDetectorClear s.detector).counts =
        { s.detector.counts with tracked := 0, trackedBytes := 0 } := by
      unfold leakDetectorClear LeakDetector.counts LeakDetector.tracked LeakDetector.trackedBytes
      dsimp only
      rw [hnil, hon, hstats]
      rfl
    rw [he]
    exact .cleared
  | alloc ptr size classIdx arenaId env =>
    show LeakChange s _ _ (leakDetectorRecordAlloc s.detector ptr size classIdx arenaId env).counts
    rcases h.alloc_adds hlegal with ⟨hno, hd⟩ | ⟨hheard, rest, a, r, ha, ⟨-, hr⟩, hd⟩
    · rw [hd]
      exact .same hno
    · have hword : s.detector.tracked + 1 < wordSize := by
        unfold LeakDetector.tracked
        rw [wordSize_eq]
        omega
      rw [hd, counts_add (d := { s.detector with freeList := rest }) ha h.count hword, hr]
      exact .recorded hheard
  | dealloc ptr =>
    show LeakChange s _ _ (leakDetectorRecordDealloc s.detector ptr).counts
    rcases h.dealloc_retires ptr with ⟨hd, -⟩ | ⟨a, ha, -, hd⟩
    · rw [hd]
      exact .same not_false
    · obtain ⟨tracked, bytes, htracked, hbytes, hcounts⟩ := counts_retire h.lists ha
      rw [hd, hcounts]
      exact .retired htracked hbytes

end LeakInv

/-! ## the report -/

/-- The sum that `leak_detector_update_stats` makes wraps. -/
theorem foldl_addW_sizes (f : ℕ → ℕ) (as : List ℕ) (bytes : ℕ) (hbytes : bytes < wordSize) :
    as.foldl (fun bytes a => addW bytes (f a)) bytes = (bytes + (as.map f).sum) % wordSize := by
  induction as generalizing bytes with
  | nil => exact (Nat.mod_eq_of_lt hbytes).symm
  | cons a as ih =>
    rw [List.foldl_cons, ih _ (addW_lt _ _), List.map_cons, List.sum_cons, ← Nat.add_assoc]
    exact Nat.mod_add_mod _ _ _

/-- The report of a detector agrees with its list. -/
def LeakSys.Reported (s : LeakSys) : Prop :=
  let stats := (leakDetectorGetStats s.detector).2
  stats.activeAllocations = stats.leakedObjects ∧ stats.leakedObjects = s.detector.tracked ∧
    stats.leakedBytes = s.detector.trackedBytes

/-- A clear finds no record, and the bytes in use stay in a word. -/
def LeakSys.Counted (s : LeakSys) : LeakOp → Prop
  | .clear => s.detector.allocationList = []
  | .alloc ptr size _ _ env => s.detector.Listens ptr → s.detector.HasRecord env →
      s.detector.trackedBytes + size < wordSize
  | _ => True

/-- What has been counted is in use. -/
structure LeakCounts.Agree (c : LeakCounts) : Prop where
  counted : c.totalDeallocations + c.tracked ≡ c.totalAllocations [MOD wordSize]
  deallocs : c.totalDeallocations < wordSize
  bytes : c.trackedBytes < wordSize

section
variable {s : LeakSys}

theorem LeakInv.reported_iff (h : LeakInv s) :
    s.Reported ↔ subW s.detector.counts.totalAllocations s.detector.counts.totalDeallocations =
        s.detector.counts.tracked ∧
      s.detector.counts.trackedBytes < wordSize := by
  have hbytes : (leakDetectorGetStats s.detector).2.leakedBytes =
      s.detector.trackedBytes % wordSize := by
    have hfold := foldl_addW_sizes (fun a => (s.detector.record a).size) s.detector.allocationList 0
      (by decide)
    rw [Nat.zero_add] at hfold
    exact hfold
  unfold LeakSys.Reported
  dsimp only
  rw [hbytes, Nat.mod_eq_iff_lt (by decide)]
  constructor
  · rintro ⟨hactive, -, hlt⟩
    exact ⟨hactive.trans h.count, hlt⟩
  · rintro ⟨hactive, hlt⟩
    exact ⟨hactive.trans h.count.symm, h.count, hlt⟩

theorem LeakInv.tracked_lt (h : LeakInv s) : s.detector.counts.tracked < wordSize := by
  have hle := h.length_le
  have hmax : LEAK_DETECTOR_MAX_ALLOCATIONS = 100000 := rfl
  show s.detector.allocationList.length < wordSize
  rw [wordSize_eq]
  omega

theorem subW_of_modEq {a b n : ℕ} (h : b + n ≡ a [MOD wordSize]) (hb : b < wordSize)
    (hn : n < wordSize) : subW a b = n := by
  have hsub := (subW_modEq a hb.le).trans h.symm
  rw [Nat.add_comm b n] at hsub
  exact (Nat.ModEq.add_right_cancel' b hsub).eq_of_lt_of_lt (subW_lt a b) hn

/-- The invariant: what has been counted is in use. -/
def LeakSys.Agree (s : LeakSys) : Prop := LeakInv s ∧ s.detector.counts.Agree

theorem LeakSys.Agree.reported (h : s.Agree) : s.Reported :=
  h.1.reported_iff.mpr ⟨subW_of_modEq h.2.counted h.2.deallocs h.1.tracked_lt, h.2.bytes⟩

theorem leak_agree_step (h : s.Agree) {op : LeakOp} (hlegal : s.Legal op) (hc : s.Counted op) :
    (s.step op).Agree := by
  refine ⟨h.1.step hlegal, ?_⟩
  obtain ⟨hcounted, hdeallocs, hbytes⟩ := h.2
  have hchange := h.1.change hlegal
  generalize (s.step op).detector.counts = c' at hchange ⊢
  cases hchange with
  | same => exact h.2
  | setUp ok enabled hoff => exact ⟨rfl, (by decide : 0 < wordSize), (by decide : 0 < wordSize)⟩
  | cleared =>
    -- there is no record
    have hnone : s.detector.tracked = 0 ∧ s.detector.trackedBytes = 0 := by
      unfold LeakDetector.tracked LeakDetector.trackedBytes
      rw [show s.detector.allocationList = [] from hc]
      exact ⟨rfl, rfl⟩
    refine ⟨?_, hdeallocs, (by decide : 0 < wordSize)⟩
    rw [← hnone.1]
    exact hcounted
  | recorded hheard =>
    refine ⟨?_, hdeallocs, hc hheard.1 hheard.2⟩
    exact (hcounted.add_right 1).trans (addW_modEq _ 1).symm
  | @retired _ tracked trackedBytes htracked hle =>
    refine ⟨?_, addW_lt _ _, hle.trans_lt hbytes⟩
    have hone := (addW_modEq s.detector.counts.totalDeallocations 1).add_right tracked
    refine hone.trans ?_
    rw [Nat.add_assoc, Nat.add_comm 1, ← htracked]
    exact hcounted

theorem LeakSys.counted_of_not_heard {op : LeakOp} (hno : ¬ s.Heard op) : s.Counted op := by
  cases op with
  | clear => exact absurd trivial hno
  | alloc ptr size classIdx arenaId env => exact fun hl hhas => absurd ⟨hl, hhas⟩ hno
  | enable ok => trivial
  | disable => trivial
  | dealloc ptr => trivial

/-- A clear that finds records, and bytes that wrap, show at once. -/
theorem leak_agree_bad (h : s.Agree) {op : LeakOp} (hlegal : s.Legal op) (hc : ¬ s.Counted op) :
    ¬ (s.step op).Reported := by
  obtain ⟨hcounted, hdeallocs, hbytes⟩ := h.2
  rw [(h.1.step hlegal).reported_iff]
  have hchange := h.1.change hlegal
  generalize (s.step op).detector.counts = c' at hchange ⊢
  rintro ⟨hactive, hlt⟩
  cases hchange with
  | same hno => exact hc (LeakSys.counted_of_not_heard hno)
  | setUp => exact hc trivial
  | cleared =>
    have hsub := subW_of_modEq hcounted hdeallocs h.1.tracked_lt
    exact hc (List.length_eq_zero_iff.mp (hsub.symm.trans hactive))
  | recorded hheard => exact hc fun _ _ => hlt
  | retired => exact hc trivial

theorem leak_agree_init : LeakSys.init.Agree :=
  ⟨leakInv_init, rfl, (by decide : 0 < wordSize), (by decide : 0 < wordSize)⟩

end

/-- **The report and the list**: they agree in every state of a history exactly when a clear finds
no record, and the bytes of the records in use stay in a word. -/
theorem leak_stats_iff (ops : List LeakOp)
    (hops : Runs.Each LeakSys.step LeakSys.Legal LeakSys.init ops) :
    Runs.Always LeakSys.step LeakSys.Reported LeakSys.init ops ↔
      Runs.Each LeakSys.step LeakSys.Counted LeakSys.init ops :=
  Runs.always_iff_each_of (fun _ _ h hl hc => leak_agree_step h hl hc) (fun _ h => h.reported)
    (fun _ _ h hl hc => leak_agree_bad h hl hc) leak_agree_init hops

/-- Two allocations are recorded and one of them freed, and the other too before the clear. -/
theorem leak_stats_two : Runs.Always LeakSys.step LeakSys.Reported LeakSys.init
    [.enable true, .enable true, .alloc 0x1000 16 1 0 (leakEnvAt 0x500000),
      .alloc 0x2000 32 2 0 (leakEnvAt 0x500100), .dealloc 0x1000, .dealloc 0x2000, .clear] := by
  have hlegal : Runs.Each LeakSys.step LeakSys.Legal LeakSys.init
      [.enable true, .enable true, .alloc 0x1000 16 1 0 (leakEnvAt 0x500000),
        .alloc 0x2000 32 2 0 (leakEnvAt 0x500100), .dealloc 0x1000, .dealloc 0x2000, .clear] := by
    refine ⟨trivial, trivial, fun a ha => List.not_mem_nil, fun a ha => ?_, trivial, trivial,
      trivial, trivial⟩
    cases ha
    show 0x500100 ∉ [0x500000]
    decide
  refine (leak_stats_iff _ hlegal).mpr ⟨trivial, trivial, fun _ _ => ?_, fun _ _ => ?_, trivial,
    trivial, ?_, trivial⟩
  · decide +kernel
  · decide +kernel
  · show LeakDetector.allocationList _ = []
    decide +kernel

/-- A clear finds a record: it stays active in the report. -/
theorem leak_stats_clear : ¬ ∀ ops, Runs.Each LeakSys.step LeakSys.Legal LeakSys.init ops →
    Runs.Always LeakSys.step LeakSys.Reported LeakSys.init ops := by
  intro hall
  have hlegal : Runs.Each LeakSys.step LeakSys.Legal LeakSys.init
      [.enable true, .enable true, .alloc 0x1000 16 1 0 (leakEnvAt 0x500000), .clear] :=
    ⟨trivial, trivial, fun a ha => List.not_mem_nil, trivial, trivial⟩
  have hlast := (hall _ hlegal).last
  revert hlast
  unfold LeakSys.Reported
  decide +kernel

/-! ## the peaks -/

/-- A history with the running maxima of the number of records and of their bytes. -/
structure PeakSys where
  sys : LeakSys
  maxTracked : ℕ
  maxBytes : ℕ

namespace PeakSys

def step (p : PeakSys) (op : LeakOp) : PeakSys where
  sys := p.sys.step op
  maxTracked := max p.maxTracked (p.sys.step op).detector.tracked
  maxBytes := max p.maxBytes (p.sys.step op).detector.trackedBytes

def init : PeakSys := ⟨LeakSys.init, 0, 0⟩

/-- The peaks of the detector are the maxima. -/
def Peaks (p : PeakSys) : Prop :=
  p.sys.detector.stats.peakAllocations = p.maxTracked ∧
    p.sys.detector.stats.peakBytes = p.maxBytes

def Legal (p : PeakSys) (op : LeakOp) : Prop := p.sys.Legal op

/-- A record that makes a new maximum of records is put to use when the bytes are at their maximum,
or is of no bytes; any other keeps the bytes below it. -/
def Together (p : PeakSys) : LeakOp → Prop
  | .alloc ptr size _ _ env => p.sys.detector.Listens ptr → p.sys.detector.HasRecord env →
      if p.sys.detector.tracked = p.maxTracked then
        (p.sys.detector.trackedBytes = p.maxBytes ∨ size = 0) ∧ p.maxBytes + size < wordSize
      else p.sys.detector.trackedBytes + size ≤ p.maxBytes
  | _ => True

/-- The invariant: what is in use is below the maxima, which are zero before the set-up. -/
structure Inv (p : PeakSys) : Prop where
  records : LeakInv p.sys
  peaks : p.Peaks
  tracked : p.sys.detector.tracked ≤ p.maxTracked
  bytes : p.sys.detector.trackedBytes ≤ p.maxBytes
  word : p.maxBytes < wordSize
  off : p.sys.detector.enabled = false → p.maxTracked = 0 ∧ p.maxBytes = 0

variable {p : PeakSys}

theorem together_of_not_heard {op : LeakOp} (hno : ¬ p.sys.Heard op) : p.Together op := by
  cases op with
  | alloc ptr size classIdx arenaId env => exact fun hl hhas => absurd ⟨hl, hhas⟩ hno
  | enable ok => trivial
  | disable => trivial
  | clear => trivial
  | dealloc ptr => trivial

/-- The peaks after a record of `size` bytes is put to use. -/
theorem record_peaks_iff {c : LeakCounts} {size maxTracked maxBytes : ℕ}
    (hpeaks : c.peakAllocations = maxTracked ∧ c.peakBytes = maxBytes)
    (htracked : c.tracked ≤ maxTracked) (hbytes : c.trackedBytes ≤ maxBytes)
    (hword : maxBytes < wordSize) :
    (c.record size).peakAllocations = max maxTracked (c.record size).tracked ∧
        ((c.record size).peakBytes = max maxBytes (c.record size).trackedBytes ↔
          if c.tracked = maxTracked then
            (c.trackedBytes = maxBytes ∨ size = 0) ∧ maxBytes + size < wordSize
          else c.trackedBytes + size ≤ maxBytes) := by
  obtain ⟨hp, hb⟩ := hpeaks
  have hlt := addW_lt maxBytes size
  show (if c.peakAllocations < c.tracked + 1 then c.tracked + 1 else c.peakAllocations) =
      max maxTracked (c.tracked + 1) ∧
    ((if c.peakAllocations < c.tracked + 1 then addW c.peakBytes size else c.peakBytes) =
      max maxBytes (c.trackedBytes + size) ↔ _)
  rw [hp, hb]
  by_cases hnew : c.tracked = maxTracked
  · -- a new maximum of records: the size is added to the peak
    rw [if_pos (by omega), if_pos (by omega), if_pos hnew]
    refine ⟨(max_eq_right (by omega)).symm, ?_⟩
    by_cases hfit : maxBytes + size < wordSize
    · rw [addW_eq hfit]
      omega
    · refine iff_of_false (fun heq => ?_) fun hand => hfit hand.2
      -- the sum wraps to less than it was
      by_cases hsize : size < wordSize
      · have hwrap := addW_wrap (Nat.le_of_not_lt hfit) (by omega)
        omega
      · omega
  · rw [if_neg (by omega), if_neg (by omega), if_neg hnew]
    exact ⟨(max_eq_left (by omega)).symm, by omega⟩

/-- **Step lemma.**  The peaks are the maxima after a step that the condition allows, and only
then. -/
theorem Inv.peaks_iff (h : p.Inv) {op : LeakOp} (hlegal : p.Legal op) :
    (p.step op).Peaks ↔ p.Together op := by
  have hchange := h.records.change hlegal
  show (p.sys.step op).detector.counts.peakAllocations =
      max p.maxTracked (p.sys.step op).detector.counts.tracked ∧
    (p.sys.step op).detector.counts.peakBytes =
      max p.maxBytes (p.sys.step op).detector.counts.trackedBytes ↔ _
  generalize (p.sys.step op).detector.counts = c' at hchange ⊢
  have hkeep : ∀ tracked trackedBytes, tracked ≤ p.sys.detector.tracked →
      trackedBytes ≤ p.sys.detector.trackedBytes →
      p.sys.detector.stats.peakAllocations = max p.maxTracked tracked ∧
        p.sys.detector.stats.peakBytes = max p.maxBytes trackedBytes := fun n m hn hm =>
    ⟨h.peaks.1.trans (max_eq_left (hn.trans h.tracked)).symm,
      h.peaks.2.trans (max_eq_left (hm.trans h.bytes)).symm⟩
  cases hchange with
  | same hno => exact iff_of_true (hkeep _ _ le_rfl le_rfl) (together_of_not_heard hno)
  | setUp ok enabled hoff =>
    obtain ⟨ht, hb⟩ := h.off hoff
    rw [ht, hb]
    exact iff_of_true ⟨rfl, rfl⟩ trivial
  | cleared => exact iff_of_true (hkeep 0 0 (Nat.zero_le _) (Nat.zero_le _)) trivial
  | recorded hheard =>
    obtain ⟨hpeak, hbytes⟩ := record_peaks_iff (c := p.sys.detector.counts) h.peaks h.tracked
      h.bytes h.word
    rw [and_iff_right hpeak, hbytes]
    exact ⟨fun hcond _ _ => hcond, fun hcond => hcond hheard.1 hheard.2⟩
  | @retired _ tracked trackedBytes htracked hle =>
    have hn : p.sys.detector.tracked = tracked + 1 := htracked
    exact iff_of_true (hkeep tracked trackedBytes (by omega) hle) trivial

theorem Inv.step (h : p.Inv) {op : LeakOp} (hlegal : p.Legal op) (hc : p.Together op) :
    (p.step op).Inv := by
  have hpeaks := (h.peaks_iff hlegal).mpr hc
  refine ⟨h.records.step hlegal, hpeaks, le_max_right _ _, le_max_right _ _, ?_, ?_⟩
  · -- the bytes in use stay in a word
    have hword := h.word
    have hbytes := h.bytes
    refine max_lt hword ?_
    show (p.sys.step op).detector.counts.trackedBytes < wordSize
    have hchange := h.records.change hlegal
    generalize (p.sys.step op).detector.counts = c' at hchange ⊢
    cases hchange with
    | same => exact hbytes.trans_lt hword
    | setUp => exact (by decide : 0 < wordSize)
    | cleared => exact (by decide : 0 < wordSize)
    | @recorded _ size _ _ _ hheard =>
      have hcond := hc hheard.1 hheard.2
      show p.sys.detector.trackedBytes + size < wordSize
      split_ifs at hcond
      · omega
      · omega
    | retired htracked hle => exact (hle.trans hbytes).trans_lt hword
  · intro hoff
    -- nothing has been in use before the detector is set up
    have hchange := h.records.change hlegal
    have hoff' : (p.sys.step op).detector.counts.enabled = false := hoff
    show max p.maxTracked (p.sys.step op).detector.counts.tracked = 0 ∧
      max p.maxBytes (p.sys.step op).detector.counts.trackedBytes = 0
    have htracked := h.tracked
    have hbytes := h.bytes
    generalize (p.sys.step op).detector.counts = c' at hchange hoff' ⊢
    cases hchange with
    | same =>
      obtain ⟨ht, hb⟩ := h.off hoff'
      exact ⟨(max_eq_left htracked).trans ht, (max_eq_left hbytes).trans hb⟩
    | setUp ok enabled hnone =>
      obtain ⟨ht, hb⟩ := h.off hnone
      exact ⟨(max_eq_left (Nat.zero_le _)).trans ht, (max_eq_left (Nat.zero_le _)).trans hb⟩
    | cleared =>
      obtain ⟨ht, hb⟩ := h.off hoff'
      exact ⟨(max_eq_left (Nat.zero_le _)).trans ht, (max_eq_left (Nat.zero_le _)).trans hb⟩
    | recorded hheard => exact absurd (hoff'.symm.trans hheard.1.1) Bool.false_ne_true
    | @retired _ tracked trackedBytes hone hle =>
      obtain ⟨ht, hb⟩ := h.off hoff'
      have hn : p.sys.detector.tracked = tracked + 1 := hone
      omega

theorem inv_init : init.Inv :=
  ⟨leakInv_init, ⟨rfl, rfl⟩, Nat.le_refl 0, Nat.le_refl 0, (by decide : 0 < wordSize),
    fun _ => ⟨rfl, rfl⟩⟩

/-- **The peaks** are the running maxima in every state of a history exactly when every record that
is put to use raises both maxima, or neither. -/
theorem leak_peaks_iff (ops : List LeakOp)
    (hops : Runs.Each PeakSys.step PeakSys.Legal PeakSys.init ops) :
    Runs.Always PeakSys.step PeakSys.Peaks PeakSys.init ops ↔
      Runs.Each PeakSys.step PeakSys.Together PeakSys.init ops :=
  Runs.always_iff_each_of (fun _ _ h hl hc => h.step hl hc) (fun _ h => h.peaks)
    (fun _ _ h hl hc hpeaks => hc ((h.peaks_iff hl).mp hpeaks)) inv_init hops

/-- Two records are put to use, and one is retired. -/
theorem leak_peaks_two : Runs.Always PeakSys.step PeakSys.Peaks PeakSys.init
    [.enable true, .enable true, .alloc 0x1000 16 1 0 (leakEnvAt 0x500000),
      .alloc 0x2000 32 2 0 (leakEnvAt 0x500100), .dealloc 0x1000] := by
  have hlegal : Runs.Each PeakSys.step PeakSys.Legal PeakSys.init
      [.enable true, .enable true, .alloc 0x1000 16 1 0 (leakEnvAt 0x500000),
        .alloc 0x2000 32 2 0 (leakEnvAt 0x500100), .dealloc 0x1000] := by
    refine ⟨trivial, trivial, fun a ha => List.not_mem_nil, fun a ha => ?_, trivial, trivial⟩
    cases ha
    show 0x500100 ∉ [0x500000]
    decide
  refine (leak_peaks_iff _ hlegal).mpr
    ⟨trivial, trivial, fun _ _ => ?_, fun _ _ => ?_, trivial, trivial⟩
  · decide +kernel
  · decide +kernel

/-- Ten bytes are in use, none, and then twenty: the peak is still ten. -/
theorem leak_peaks_larger : ¬ ∀ ops, Runs.Each PeakSys.step PeakSys.Legal PeakSys.init ops →
    Runs.Always PeakSys.step PeakSys.Peaks PeakSys.init ops := by
  intro hall
  have hlegal : Runs.Each PeakSys.step PeakSys.Legal PeakSys.init
      [.enable true, .enable true, .alloc 0x1000 10 1 0 (leakEnvAt 0x500000), .dealloc 0x1000,
        .alloc 0x1000 20 1 0 ⟨none, 1, 0, []⟩] :=
    ⟨trivial, trivial, fun a ha => List.not_mem_nil, trivial, fun a ha => (by cases ha), trivial⟩
  have hlast := (hall _ hlegal).last.2
  revert hlast
  decide +kernel

end PeakSys

end Nomalloc
