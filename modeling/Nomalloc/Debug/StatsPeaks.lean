import Nomalloc.Debug.StatsCollector
import Nomalloc.Lib.Runs

/-!
# The peaks of the size classes

`stats_collector_record_alloc` takes the difference of the two counters of a class for its objects in
use.  `stats_collector_reset` sets both to zero, and objects from before it are still counted when
they are freed: with more of these than allocations since, the difference wraps.

* `ClassPeakSys`        a collector with the allocations recorded since the last reset;
* `ClassChange`         what a call does to a class;
* `recordAlloc_peak`    the peak stays below the allocations exactly when the difference does not wrap;
* `stats_peaks_iff`     all peaks stay below all along a run exactly when no class has counted more
                        deallocations than allocations when it records one.
-/

namespace Nomalloc

/-- What is reported of an object. -/
structure ReportedObject where
  size : ℕ
  classIdx : ℕ
  arenaId : ℤ
deriving DecidableEq

/-- A collector, with the number of allocations of each class that were recorded since it was set up
or reset, and the objects reported but not yet freed. -/
structure ClassPeakSys where
  collector : StatsCollector
  allocs : ℕ → ℕ
  live : List ReportedObject

namespace ClassPeakSys

def step (cap : ℕ) (s : ClassPeakSys) (op : StatsOp) : ClassPeakSys where
  collector := s.collector.step cap op
  allocs := match op with
    | .init _ _ | .enable _ _ => if s.collector.initialized then s.allocs else 0
    | .reset _ _ => 0
    | .recordAlloc _ classIdx _ _ =>
      if s.collector.enabled then Function.update s.allocs classIdx (s.allocs classIdx + 1)
      else s.allocs
    | _ => s.allocs
  live := match op with
    | .recordAlloc size classIdx arenaId _ => ⟨size, classIdx, arenaId⟩ :: s.live
    | .recordDealloc size classIdx arenaId _ => s.live.erase ⟨size, classIdx, arenaId⟩
    | _ => s.live

def fresh (cap start lastUpdate : ℕ) : ClassPeakSys := ⟨.fresh cap start lastUpdate, 0, []⟩

/-- Calls of an enabled collector, where what is freed was reported. -/
def Legal (s : ClassPeakSys) : StatsOp → Prop
  | .recordAlloc _ _ _ _ | .reset _ _ => s.collector.enabled
  | .recordDealloc size classIdx arenaId _ =>
    s.collector.enabled ∧ ⟨size, classIdx, arenaId⟩ ∈ s.live
  | _ => False

/-- No peak is above the allocations recorded. -/
def PeaksBounded (s : ClassPeakSys) : Prop :=
  ∀ c < STATS_PER_CLASS_ENTRIES, (s.collector.sizeClasses c).peakObjects ≤ s.allocs c

/-- The call records an allocation of class `c`. -/
def Allocates (s : ClassPeakSys) (c : ℕ) : StatsOp → Prop
  | .recordAlloc _ classIdx _ _ => s.collector.enabled ∧ classIdx = c
  | _ => False

/-- A class that records an allocation has not counted more deallocations than allocations, this one
among them. -/
def InStep (s : ClassPeakSys) (op : StatsOp) : Prop :=
  ∀ c < STATS_PER_CLASS_ENTRIES, s.Allocates c op →
    (s.collector.sizeClasses c).deallocations ≤ s.allocs c + 1

end ClassPeakSys

/-! ## one class -/

/-- What a call does to a class and to the number of its allocations; `heard` says whether it records
one. -/
inductive ClassChange (heard : Prop) (st : SizeClassStats) (n : ℕ) : SizeClassStats → ℕ → Prop
  | same (hno : ¬ heard) : ClassChange heard st n st n
  | cleared (hno : ¬ heard) : ClassChange heard st n sizeClassStatsInit 0
  | retired (hno : ¬ heard) (size latency : ℕ) :
      ClassChange heard st n (st.recordDealloc size latency) n
  | recorded (hyes : heard) (size latency : ℕ) :
      ClassChange heard st n (st.recordAlloc size latency) (n + 1)

/-- The counters of a class with `n` allocations. -/
structure ClassCounts (st : SizeClassStats) (n : ℕ) : Prop where
  allocations : st.allocations = n % wordSize
  deallocations : st.deallocations < wordSize
  peak : st.peakObjects ≤ n

section
variable {st st' : SizeClassStats} {n n' : ℕ} {heard : Prop}

theorem recordAlloc_counters (st : SizeClassStats) (size latency : ℕ) :
    (st.recordAlloc size latency).allocations = addW st.allocations 1 ∧
      (st.recordAlloc size latency).deallocations = st.deallocations ∧
      (st.recordAlloc size latency).peakObjects =
        max st.peakObjects (subW (addW st.allocations 1) st.deallocations) := by
  unfold SizeClassStats.recordAlloc
  dsimp only
  split_ifs with h
  · exact ⟨rfl, rfl, (max_eq_right h.le).symm⟩
  · exact ⟨rfl, rfl, (max_eq_left (Nat.le_of_not_lt h)).symm⟩

/-- The wrapped difference of two counters is at most the first number exactly when the second is. -/
theorem subW_mod_le_iff {m d : ℕ} (hd : d < wordSize) : subW (m % wordSize) d ≤ m ↔ d ≤ m := by
  rcases Nat.lt_or_ge m wordSize with hm | hm
  · rw [Nat.mod_eq_of_lt hm]
    rcases Nat.lt_or_ge m d with h | h
    · rw [subW_wrap h hd.le]
      omega
    · rw [subW_eq h hm]
      omega
  · exact iff_of_true ((subW_lt _ _).le.trans hm) (hd.le.trans hm)

theorem recordAlloc_peak (h : ClassCounts st n) (size latency : ℕ) :
    (st.recordAlloc size latency).peakObjects ≤ n + 1 ↔ st.deallocations ≤ n + 1 := by
  have hadd : addW st.allocations 1 = (n + 1) % wordSize := by
    rw [h.allocations, addW, Nat.mod_add_mod]
  rw [(recordAlloc_counters st size latency).2.2, max_le_iff, hadd, subW_mod_le_iff h.deallocations]
  exact and_iff_right (h.peak.trans (Nat.le_succ n))

/-- **Step lemma.**  The counts of a class stay right after a call that the condition allows, and the
peak only then. -/
theorem ClassChange.counts (hchange : ClassChange heard st n st' n') (h : ClassCounts st n)
    (hcond : heard → st.deallocations ≤ n + 1) : ClassCounts st' n' := by
  cases hchange with
  | same => exact h
  | cleared => exact ⟨rfl, by decide, le_rfl⟩
  | retired => exact ⟨h.allocations, addW_lt _ _, h.peak⟩
  | recorded hyes size latency =>
    obtain ⟨ha, hd, -⟩ := recordAlloc_counters st size latency
    refine ⟨?_, hd.trans_lt h.deallocations, (recordAlloc_peak h size latency).mpr (hcond hyes)⟩
    rw [ha, h.allocations, addW, Nat.mod_add_mod]

theorem ClassChange.peak (hchange : ClassChange heard st n st' n') (h : ClassCounts st n)
    (hheard : heard) (hpeak : st'.peakObjects ≤ n') : st.deallocations ≤ n + 1 := by
  cases hchange with
  | same hno | cleared hno | retired hno => exact absurd hheard hno
  | recorded _ size latency => exact (recordAlloc_peak h size latency).mp hpeak

end

/-! ## all classes -/

namespace ClassPeakSys

variable {cap c : ℕ} {s : ClassPeakSys} {op : StatsOp}

theorem change (cap : ℕ) (s : ClassPeakSys) (op : StatsOp) (hc : c < STATS_PER_CLASS_ENTRIES) :
    ClassChange (s.Allocates c op) (s.collector.sizeClasses c) (s.allocs c)
      ((s.step cap op).collector.sizeClasses c) ((s.step cap op).allocs c) := by
  have hsame : ∀ {op} (f : ℕ → SizeClassStats), f = s.collector.sizeClasses → ¬ s.Allocates c op →
      ClassChange (s.Allocates c op) (s.collector.sizeClasses c) (s.allocs c) (f c) (s.allocs c) :=
    fun f he hno => he ▸ .same hno
  cases op with
  | init start lastUpdate =>
    show ClassChange False _ _ ((s.collector.init cap start lastUpdate).sizeClasses c)
      ((if _ then _ else _ : ℕ → ℕ) c)
    unfold StatsCollector.init
    by_cases h : s.collector.initialized
    · rw [if_pos h, if_pos h]
      exact .same id
    · rw [if_neg h, if_neg h]
      exact .cleared id
  | enable start lastUpdate =>
    show ClassChange False _ _ ((s.collector.enable cap start lastUpdate).sizeClasses c)
      ((if _ then _ else _ : ℕ → ℕ) c)
    rw [StatsCollector.enable_eq]
    by_cases h : s.collector.initialized
    · rw [if_pos h, if_pos h]
      exact .same id
    · rw [if_neg h, if_neg h]
      exact .cleared id
  | shutdown => exact hsame _ s.collector.shutdown_keeps.2 id
  | disable => exact hsame _ s.collector.disable_keeps.2 id
  | recordAlloc size classIdx arenaId latency =>
    show ClassChange (_ ∧ classIdx = c) _ _
      ((s.collector.recordAlloc size classIdx arenaId latency).sizeClasses c)
      ((if _ then _ else _ : ℕ → ℕ) c)
    rw [StatsCollector.recordAlloc_sizeClasses _ _ _ _ _ hc]
    by_cases h : s.collector.enabled ∧ classIdx = c
    · obtain ⟨hon, rfl⟩ := h
      rw [if_pos ⟨hon, rfl⟩, if_pos hon, Function.update_self]
      exact .recorded ⟨hon, rfl⟩ size latency
    · rw [if_neg h]
      have hcount : (if s.collector.enabled then
          Function.update s.allocs classIdx (s.allocs classIdx + 1) else s.allocs) c =
          s.allocs c := by
        split_ifs with hon
        · exact Function.update_of_ne (fun he => h ⟨hon, he.symm⟩) _ _
        · rfl
      rw [hcount]
      exact .same h
  | recordDealloc size classIdx arenaId latency =>
    show ClassChange False _ _
      ((s.collector.recordDealloc size classIdx arenaId latency).sizeClasses c) (s.allocs c)
    rw [StatsCollector.recordDealloc_sizeClasses _ _ _ _ _ hc]
    split_ifs with h
    · exact .retired id size latency
    · exact .same id
  | recordTcacheHit => exact hsame _ s.collector.recordTcacheHit_keeps.2 id
  | recordTcacheMiss => exact hsame _ s.collector.recordTcacheMiss_keeps.2 id
  | recordGc timeNs => exact hsame _ (s.collector.recordGc_keeps timeNs).2 id
  | updateGlobal now => exact .same id
  | updateHistory now later => exact .same id
  | reset start lastUpdate => exact .cleared id

/-- The invariant: the counts of every class are right. -/
def Inv (s : ClassPeakSys) : Prop :=
  ∀ c < STATS_PER_CLASS_ENTRIES, ClassCounts (s.collector.sizeClasses c) (s.allocs c)

theorem Inv.step (hs : s.Inv) (hop : s.InStep op) : (s.step cap op).Inv := fun c hc =>
  (change cap s op hc).counts (hs c hc) (hop c hc)

theorem Inv.inStep (hs : s.Inv) (hpeaks : (s.step cap op).PeaksBounded) : s.InStep op :=
  fun c hc hheard => (change cap s op hc).peak (hs c hc) hheard (hpeaks c hc)

end ClassPeakSys

/-- **The peaks** of the classes stay below the allocations recorded since the last reset exactly when
no class records an allocation with more deallocations counted. -/
theorem stats_peaks_iff (cap start lastUpdate : ℕ) (ops : List StatsOp) :
    Runs.Always (ClassPeakSys.step cap) ClassPeakSys.PeaksBounded
        (ClassPeakSys.fresh cap start lastUpdate) ops ↔
      Runs.Each (ClassPeakSys.step cap) ClassPeakSys.InStep
        (ClassPeakSys.fresh cap start lastUpdate) ops :=
  Runs.always_iff_each (fun _ _ hs hop => ClassPeakSys.Inv.step hs hop)
    (fun _ hs c hc => (hs c hc).peak)
    (fun _ _ hs hno hpeaks => hno (ClassPeakSys.Inv.inStep hs hpeaks))
    fun _ _ => ⟨rfl, (by decide : 0 < wordSize), le_rfl⟩

/-- Two objects are allocated before a reset and freed after it; the next allocation wraps. -/
theorem stats_peaks_wrap :
    Runs.Each (ClassPeakSys.step 8) ClassPeakSys.Legal (ClassPeakSys.fresh 8 0 0)
        [.recordAlloc 64 7 0 20, .recordAlloc 64 7 0 20, .reset 1 1, .recordDealloc 64 7 0 20,
          .recordDealloc 64 7 0 20, .recordAlloc 64 7 0 20] ∧
      ¬ Runs.Always (ClassPeakSys.step 8) ClassPeakSys.PeaksBounded (ClassPeakSys.fresh 8 0 0)
        [.recordAlloc 64 7 0 20, .recordAlloc 64 7 0 20, .reset 1 1, .recordDealloc 64 7 0 20,
          .recordDealloc 64 7 0 20, .recordAlloc 64 7 0 20] := by
  refine ⟨⟨rfl, rfl, rfl, ⟨rfl, by decide⟩, ⟨rfl, by decide⟩, rfl, trivial⟩, fun h => ?_⟩
  have hpeak := h.last 7 (by decide)
  exact absurd hpeak (by decide)

end Nomalloc
