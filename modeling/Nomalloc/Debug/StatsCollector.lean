import Nomalloc.Core.SizeClass
import Nomalloc.Debug.LatencyHistogram

/-!
# `debug/stats_collector.c`

The collector counts allocations and deallocations, for the whole process, for each size class and for
each arena, and on request puts the totals into a history of bounded length.

* `StatsCollector`       `g_stats_collector`;
* `StatsOp`, `step`      the calls, and what they do;
* `StatsHistory.update`  `stats_collector_update_history`.

The length of the history is a parameter.  `get_time_ns` is read from the arguments.  Throughput and
fragmentation, which are floating-point numbers, and the statistics of threads, which are never
written, are left out; so are the return values of the calls that return 0 whatever they do.
-/

namespace Nomalloc

def STATS_PER_CLASS_ENTRIES : ℕ := NUM_SIZE_CLASSES

def STATS_PER_ARENA_ENTRIES : ℕ := 64

def STATS_LATENCY_BUCKET_SIZE : ℕ := 16

/-- `latency_histogram_init` -/
def latencyHistogramInit : LatencyHistogram :=
  LatencyHistogram.fresh STATS_LATENCY_BUCKET_SIZE STATS_LATENCY_MAX_BUCKETS

/-- `struct size_class_stats` -/
structure SizeClassStats where
  allocations : ℕ
  deallocations : ℕ
  allocatedBytes : ℕ
  freedBytes : ℕ
  allocLatency : LatencyHistogram
  freeLatency : LatencyHistogram
  peakObjects : ℕ
  peakBytes : ℕ

/-- `struct arena_stats` -/
structure ArenaStats where
  allocations : ℕ
  deallocations : ℕ
  allocatedBytes : ℕ
  freedBytes : ℕ
  chunks : ℕ
  runs : ℕ
  tcacheHits : ℕ
  tcacheMisses : ℕ
  allocLatency : LatencyHistogram

/-- `struct global_stats` -/
structure GlobalStats where
  totalAllocations : ℕ
  totalDeallocations : ℕ
  totalAllocatedBytes : ℕ
  totalFreedBytes : ℕ
  totalTcacheHits : ℕ
  totalTcacheMisses : ℕ
  totalGcCollections : ℕ
  totalGcTimeNs : ℕ
  globalAllocLatency : LatencyHistogram
  globalFreeLatency : LatencyHistogram
  startTimeNs : ℕ
  lastUpdateNs : ℕ

/-- `struct stats_history_entry` -/
structure StatsHistoryEntry where
  timestamp : ℕ
  totalAllocated : ℕ
  totalFreed : ℕ
  activeAllocations : ℕ
deriving DecidableEq, Inhabited

/-- `struct stats_history` -/
structure StatsHistory where
  entries : List StatsHistoryEntry
  count : ℕ
  capacity : ℕ

/-- `struct stats_collector` -/
structure StatsCollector where
  enabled : Bool
  initialized : Bool
  global : GlobalStats
  sizeClasses : ℕ → SizeClassStats
  arenas : ℕ → ArenaStats
  history : StatsHistory

/-- `size_class_stats_init` -/
def sizeClassStatsInit : SizeClassStats where
  allocations := 0
  deallocations := 0
  allocatedBytes := 0
  freedBytes := 0
  allocLatency := latencyHistogramInit
  freeLatency := latencyHistogramInit
  peakObjects := 0
  peakBytes := 0

/-- `arena_stats_init` -/
def arenaStatsInit : ArenaStats where
  allocations := 0
  deallocations := 0
  allocatedBytes := 0
  freedBytes := 0
  chunks := 0
  runs := 0
  tcacheHits := 0
  tcacheMisses := 0
  allocLatency := latencyHistogramInit

/-- `global_stats_init`, at the two times it reads. -/
def globalStatsInit (start lastUpdate : ℕ) : GlobalStats where
  totalAllocations := 0
  totalDeallocations := 0
  totalAllocatedBytes := 0
  totalFreedBytes := 0
  totalTcacheHits := 0
  totalTcacheMisses := 0
  totalGcCollections := 0
  totalGcTimeNs := 0
  globalAllocLatency := latencyHistogramInit
  globalFreeLatency := latencyHistogramInit
  startTimeNs := start
  lastUpdateNs := lastUpdate

/-- What a recorded allocation changes in its class. -/
def SizeClassStats.recordAlloc (s : SizeClassStats) (size latency : ℕ) : SizeClassStats :=
  let s := { s with
    allocations := addW s.allocations 1
    allocatedBytes := addW s.allocatedBytes size
    allocLatency := s.allocLatency.add latency }
  let active := subW s.allocations s.deallocations
  if s.peakObjects < active then { s with peakObjects := active } else s

/-- What a recorded deallocation changes in its class. -/
def SizeClassStats.recordDealloc (s : SizeClassStats) (size latency : ℕ) : SizeClassStats :=
  { s with
    deallocations := addW s.deallocations 1
    freedBytes := addW s.freedBytes size
    freeLatency := s.freeLatency.add latency }

/-- The body of `stats_collector_update_history` but for the global statistics: a full history is
moved down by one entry first. -/
def StatsHistory.update (h : StatsHistory) (entry : StatsHistoryEntry) : StatsHistory :=
  let h :=
    if h.capacity ≤ h.count then { h with
      entries := (List.range (subW h.capacity 1)).foldl
        (fun entries i => entries.set i (entries.getD (i + 1) default)) h.entries
      count := subW h.capacity 1 }
    else h
  { h with entries := h.entries.set h.count entry, count := addW h.count 1 }

namespace StatsCollector

/-- What `stats_collector_init` sets up. -/
def fresh (maxHistoryEntries start lastUpdate : ℕ) : StatsCollector where
  enabled := true
  initialized := true
  global := globalStatsInit start lastUpdate
  sizeClasses := fun _ => sizeClassStatsInit
  arenas := fun _ => arenaStatsInit
  history := ⟨List.replicate maxHistoryEntries default, 0, maxHistoryEntries⟩

/-- `stats_collector_init`; a collector that is set up already stays. -/
def init (maxHistoryEntries : ℕ) (g : StatsCollector) (start lastUpdate : ℕ) : StatsCollector :=
  if g.initialized then g else fresh maxHistoryEntries start lastUpdate

/-- `stats_collector_shutdown` -/
def shutdown (g : StatsCollector) : StatsCollector :=
  if g.initialized then { g with enabled := false, initialized := false } else g

/-- `stats_collector_enable` -/
def enable (maxHistoryEntries : ℕ) (g : StatsCollector) (start lastUpdate : ℕ) : StatsCollector :=
  if g.initialized then { g with enabled := true } else g.init maxHistoryEntries start lastUpdate

/-- `stats_collector_disable`, with its return value. -/
def disable (g : StatsCollector) : ℤ × StatsCollector :=
  if g.initialized then (0, { g with enabled := false }) else (-1, g)

/-- `stats_collector_record_alloc` -/
def recordAlloc (g : StatsCollector) (size classIdx : ℕ) (arenaId : ℤ) (latency : ℕ) :
    StatsCollector :=
  if g.enabled then
    { g with
      global := { g.global with
        totalAllocations := addW g.global.totalAllocations 1
        totalAllocatedBytes := addW g.global.totalAllocatedBytes size
        globalAllocLatency := g.global.globalAllocLatency.add latency }
      sizeClasses := if classIdx < STATS_PER_CLASS_ENTRIES then
          Function.update g.sizeClasses classIdx
            ((g.sizeClasses classIdx).recordAlloc size latency)
        else g.sizeClasses
      arenas := if 0 ≤ arenaId ∧ arenaId < STATS_PER_ARENA_ENTRIES then
          Function.update g.arenas arenaId.toNat
            { g.arenas arenaId.toNat with
              allocations := addW (g.arenas arenaId.toNat).allocations 1
              allocatedBytes := addW (g.arenas arenaId.toNat).allocatedBytes size
              allocLatency := (g.arenas arenaId.toNat).allocLatency.add latency }
        else g.arenas }
  else g

/-- `stats_collector_record_dealloc` -/
def recordDealloc (g : StatsCollector) (size classIdx : ℕ) (arenaId : ℤ) (latency : ℕ) :
    StatsCollector :=
  if g.enabled then
    { g with
      global := { g.global with
        totalDeallocations := addW g.global.totalDeallocations 1
        totalFreedBytes := addW g.global.totalFreedBytes size
        globalFreeLatency := g.global.globalFreeLatency.add latency }
      sizeClasses := if classIdx < STATS_PER_CLASS_ENTRIES then
          Function.update g.sizeClasses classIdx
            ((g.sizeClasses classIdx).recordDealloc size latency)
        else g.sizeClasses
      arenas := if 0 ≤ arenaId ∧ arenaId < STATS_PER_ARENA_ENTRIES then
          Function.update g.arenas arenaId.toNat
            { g.arenas arenaId.toNat with
              deallocations := addW (g.arenas arenaId.toNat).deallocations 1
              freedBytes := addW (g.arenas arenaId.toNat).freedBytes size }
        else g.arenas }
  else g

/-- `stats_collector_record_tcache_hit` -/
def recordTcacheHit (g : StatsCollector) : StatsCollector :=
  if g.enabled then
    { g with global := { g.global with totalTcacheHits := addW g.global.totalTcacheHits 1 } }
  else g

/-- `stats_collector_record_tcache_miss` -/
def recordTcacheMiss (g : StatsCollector) : StatsCollector :=
  if g.enabled then
    { g with global := { g.global with totalTcacheMisses := addW g.global.totalTcacheMisses 1 } }
  else g

/-- `stats_collector_record_gc` -/
def recordGc (g : StatsCollector) (timeNs : ℕ) : StatsCollector :=
  if g.enabled then
    { g with global := { g.global with
        totalGcCollections := addW g.global.totalGcCollections 1
        totalGcTimeNs := addW g.global.totalGcTimeNs timeNs } }
  else g

/-- `stats_collector_update_global` -/
def updateGlobal (g : StatsCollector) (now : ℕ) : StatsCollector :=
  { g with global := { g.global with lastUpdateNs := now } }

/-- What `stats_collector_update_history` writes at the time `now`. -/
def snapshot (g : StatsCollector) (now : ℕ) : StatsHistoryEntry where
  timestamp := now
  totalAllocated := g.global.totalAllocatedBytes
  totalFreed := g.global.totalFreedBytes
  activeAllocations := subW g.global.totalAllocatedBytes g.global.totalFreedBytes

/-- `stats_collector_update_history`; `later` is the time of the update of the global statistics. -/
def updateHistory (g : StatsCollector) (now later : ℕ) : StatsCollector :=
  ({ g with history := g.history.update (g.snapshot now) } : StatsCollector).updateGlobal later

/-- `stats_collector_reset` -/
def reset (g : StatsCollector) (start lastUpdate : ℕ) : StatsCollector :=
  { g with
    global := globalStatsInit start lastUpdate
    sizeClasses := fun _ => sizeClassStatsInit
    arenas := fun _ => arenaStatsInit
    history := { g.history with count := 0 } }

/-! ### what the calls leave as it is -/

section
variable (g : StatsCollector)

theorem shutdown_keeps :
    g.shutdown.history = g.history ∧ g.shutdown.sizeClasses = g.sizeClasses := by
  unfold shutdown
  split_ifs <;> exact ⟨rfl, rfl⟩

theorem disable_keeps :
    g.disable.2.history = g.history ∧ g.disable.2.sizeClasses = g.sizeClasses := by
  unfold disable
  split_ifs <;> exact ⟨rfl, rfl⟩

theorem recordTcacheHit_keeps :
    g.recordTcacheHit.history = g.history ∧ g.recordTcacheHit.sizeClasses = g.sizeClasses := by
  unfold recordTcacheHit
  split_ifs <;> exact ⟨rfl, rfl⟩

theorem recordTcacheMiss_keeps :
    g.recordTcacheMiss.history = g.history ∧ g.recordTcacheMiss.sizeClasses = g.sizeClasses := by
  unfold recordTcacheMiss
  split_ifs <;> exact ⟨rfl, rfl⟩

theorem recordGc_keeps (timeNs : ℕ) :
    (g.recordGc timeNs).history = g.history ∧ (g.recordGc timeNs).sizeClasses = g.sizeClasses := by
  unfold recordGc
  split_ifs <;> exact ⟨rfl, rfl⟩

theorem recordAlloc_history (size classIdx : ℕ) (arenaId : ℤ) (latency : ℕ) :
    (g.recordAlloc size classIdx arenaId latency).history = g.history := by
  unfold recordAlloc
  split_ifs <;> rfl

theorem recordDealloc_history (size classIdx : ℕ) (arenaId : ℤ) (latency : ℕ) :
    (g.recordDealloc size classIdx arenaId latency).history = g.history := by
  unfold recordDealloc
  split_ifs <;> rfl

theorem update_class (f : ℕ → SizeClassStats) (st : SizeClassStats) (i : ℕ) {c : ℕ}
    (hc : c < STATS_PER_CLASS_ENTRIES) :
    (if i < STATS_PER_CLASS_ENTRIES then Function.update f i st else f) c =
      if i = c then st else f c := by
  by_cases he : i = c
  · subst he
    rw [if_pos hc, if_pos rfl, Function.update_self]
  · rw [if_neg he]
    split_ifs
    · exact Function.update_of_ne (Ne.symm he) ..
    · rfl

theorem recordAlloc_sizeClasses (size classIdx : ℕ) (arenaId : ℤ) (latency : ℕ) {c : ℕ}
    (hc : c < STATS_PER_CLASS_ENTRIES) :
    (g.recordAlloc size classIdx arenaId latency).sizeClasses c =
      if g.enabled ∧ classIdx = c then (g.sizeClasses c).recordAlloc size latency
      else g.sizeClasses c := by
  unfold recordAlloc
  by_cases hon : g.enabled
  · rw [if_pos hon]
    dsimp only
    rw [update_class _ _ _ hc]
    by_cases he : classIdx = c
    · subst he
      rw [if_pos rfl, if_pos ⟨hon, rfl⟩]
    · rw [if_neg he, if_neg fun h => he h.2]
  · rw [if_neg hon, if_neg fun h => hon h.1]

theorem recordDealloc_sizeClasses (size classIdx : ℕ) (arenaId : ℤ) (latency : ℕ) {c : ℕ}
    (hc : c < STATS_PER_CLASS_ENTRIES) :
    (g.recordDealloc size classIdx arenaId latency).sizeClasses c =
      if g.enabled ∧ classIdx = c then (g.sizeClasses c).recordDealloc size latency
      else g.sizeClasses c := by
  unfold recordDealloc
  by_cases hon : g.enabled
  · rw [if_pos hon]
    dsimp only
    rw [update_class _ _ _ hc]
    by_cases he : classIdx = c
    · subst he
      rw [if_pos rfl, if_pos ⟨hon, rfl⟩]
    · rw [if_neg he, if_neg fun h => he h.2]
  · rw [if_neg hon, if_neg fun h => hon h.1]

theorem enable_eq (cap start lastUpdate : ℕ) : g.enable cap start lastUpdate =
    if g.initialized then { g with enabled := true } else fresh cap start lastUpdate := by
  unfold enable init
  split_ifs <;> rfl

end

end StatsCollector

/-! ## calls -/

/-- The calls, with the times they read. -/
inductive StatsOp where
  | init (start lastUpdate : ℕ)
  | shutdown
  | enable (start lastUpdate : ℕ)
  | disable
  | recordAlloc (size classIdx : ℕ) (arenaId : ℤ) (latency : ℕ)
  | recordDealloc (size classIdx : ℕ) (arenaId : ℤ) (latency : ℕ)
  | recordTcacheHit
  | recordTcacheMiss
  | recordGc (timeNs : ℕ)
  | updateGlobal (now : ℕ)
  | updateHistory (now later : ℕ)
  | reset (start lastUpdate : ℕ)

/-- One call, with histories of `cap` entries. -/
def StatsCollector.step (cap : ℕ) (g : StatsCollector) : StatsOp → StatsCollector
  | .init start lastUpdate => g.init cap start lastUpdate
  | .shutdown => g.shutdown
  | .enable start lastUpdate => g.enable cap start lastUpdate
  | .disable => g.disable.2
  | .recordAlloc size classIdx arenaId latency => g.recordAlloc size classIdx arenaId latency
  | .recordDealloc size classIdx arenaId latency => g.recordDealloc size classIdx arenaId latency
  | .recordTcacheHit => g.recordTcacheHit
  | .recordTcacheMiss => g.recordTcacheMiss
  | .recordGc timeNs => g.recordGc timeNs
  | .updateGlobal now => g.updateGlobal now
  | .updateHistory now later => g.updateHistory now later
  | .reset start lastUpdate => g.reset start lastUpdate

end Nomalloc
