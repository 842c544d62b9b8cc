import Nomalloc.Debug.StatsCollector
import Nomalloc.Lib.Adders

/-!
# The recorders of `debug/stats_collector.c` in many threads

The recorders take no lock: every counter is updated by an atomic addition of its own, and
`peak_objects` by two loads, a comparison and a store.  Here a recorder is the list of its atomic
instructions, and the threads take them one at a time in any order.  The latency histograms are plain
memory, not atomic, and are left out; the collector stays enabled.

* `StatsCall.instructions`     the recorders;
* `StatsThreads.step`          a thread takes its next instruction;
* `StatsCollector.counters_record`   what a recorder of the sequential collector adds;
* `stats_threads_sequential`   when all calls have returned the counters are those of the sequential
                               collector after the same calls, in whatever order;
* `stats_threads_split`        and the counters of the size classes add up to the totals;
* `stats_peak_races`           `peak_objects` can end at `2^64 - 1`.
-/

namespace Nomalloc

/-- The atomic counters that are only ever added to. -/
inductive StatsCounter where
  | totalAllocations
  | totalAllocatedBytes
  | totalDeallocations
  | totalFreedBytes
  | totalTcacheHits
  | totalTcacheMisses
  | totalGcCollections
  | totalGcTimeNs
  | classAllocations (c : ℕ)
  | classAllocatedBytes (c : ℕ)
  | classDeallocations (c : ℕ)
  | classFreedBytes (c : ℕ)
  | arenaAllocations (a : ℕ)
  | arenaAllocatedBytes (a : ℕ)
  | arenaDeallocations (a : ℕ)
  | arenaFreedBytes (a : ℕ)
deriving DecidableEq, Repr

/-- An atomic instruction; the two loads of a subtraction are taken in the order in which they are written. -/
inductive StatsInstr where
  | add (c : StatsCounter) (n : ℕ)
  | loadAllocations (c : ℕ)
  | subDeallocations (c : ℕ)
  | loadPeak (c : ℕ)
  | storePeak (c : ℕ)
deriving DecidableEq, Repr

inductive StatsCall where
  | recordAlloc (size classIdx : ℕ) (arenaId : ℤ)
  | recordDealloc (size classIdx : ℕ) (arenaId : ℤ)
  | recordTcacheHit
  | recordTcacheMiss
  | recordGc (timeNs : ℕ)
deriving DecidableEq, Repr

namespace StatsCall
open StatsInstr

/-- `if (class_idx < STATS_PER_CLASS_ENTRIES)` -/
def onClass (classIdx : ℕ) (is : List StatsInstr) : List StatsInstr :=
  if classIdx < STATS_PER_CLASS_ENTRIES then is else []

/-- `if (arena_id >= 0 && arena_id < STATS_PER_ARENA_ENTRIES)` -/
def onArena (arenaId : ℤ) (is : List StatsInstr) : List StatsInstr :=
  if 0 ≤ arenaId ∧ arenaId < STATS_PER_ARENA_ENTRIES then is else []

/-- The atomic instructions of a recorder; its stores to the histograms, which are not atomic, are left
out. -/
def instructions : StatsCall → List StatsInstr
  | .recordAlloc size c a =>
    [add .totalAllocations 1, add .totalAllocatedBytes size] ++
      onClass c [add (.classAllocations c) 1, add (.classAllocatedBytes c) size, loadAllocations c,
        subDeallocations c, loadPeak c, storePeak c] ++
      onArena a [add (.arenaAllocations a.toNat) 1, add (.arenaAllocatedBytes a.toNat) size]
  | .recordDealloc size c a =>
    [add .totalDeallocations 1, add .totalFreedBytes size] ++
      onClass c [add (.classDeallocations c) 1, add (.classFreedBytes c) size] ++
      onArena a [add (.arenaDeallocations a.toNat) 1, add (.arenaFreedBytes a.toNat) size]
  | .recordTcacheHit => [add .totalTcacheHits 1]
  | .recordTcacheMiss => [add .totalTcacheMisses 1]
  | .recordGc timeNs => [add .totalGcCollections 1, add .totalGcTimeNs timeNs]

end StatsCall

/-- The counters and peaks, and for every thread its two registers and what it has left to do. -/
structure StatsThreads (T : Type) where
  counter : StatsCounter → ℕ
  peakObjects : ℕ → ℕ
  active : T → ℕ
  peak : T → ℕ
  todo : T → List StatsInstr

namespace StatsThreads
variable {T : Type} [DecidableEq T]

/-- The threads are about to make their calls. -/
def start (calls : T → List StatsCall) : StatsThreads T where
  counter := fun _ => 0
  peakObjects := fun _ => 0
  active := fun _ => 0
  peak := fun _ => 0
  todo := fun t => (calls t).flatMap StatsCall.instructions

/-- The effect of an instruction of the thread `t`. -/
def exec (s : StatsThreads T) (t : T) : StatsInstr → StatsThreads T
  | .add c n => { s with counter := Function.update s.counter c (addW (s.counter c) n) }
  | .loadAllocations c => { s with active := Function.update s.active t (s.counter (.classAllocations c)) }
  | .subDeallocations c =>
    { s with active := Function.update s.active t (subW (s.active t) (s.counter (.classDeallocations c))) }
  | .loadPeak c => { s with peak := Function.update s.peak t (s.peakObjects c) }
  | .storePeak c =>
    { s with
      peakObjects := if s.peak t < s.active t then Function.update s.peakObjects c (s.active t)
        else s.peakObjects }

def step (s : StatsThreads T) (t : T) : StatsThreads T :=
  match s.todo t with
  | [] => s
  | i :: rest => { s.exec t i with todo := Function.update s.todo t rest }

/-- What an instruction adds to a counter. -/
def amount : StatsInstr → StatsCounter → ℕ
  | .add c n, c' => if c' = c then n else 0
  | _, _ => 0

/-- What a call adds to a counter. -/
def callAmount (call : StatsCall) (c : StatsCounter) : ℕ :=
  (call.instructions.map fun i => amount i c).sum

variable {s : StatsThreads T} {t : T}

theorem exec_counter (i : StatsInstr) (c : StatsCounter) :
    (s.exec t i).counter c % wordSize = (s.counter c + amount i c) % wordSize := by
  cases i with
  | add c' n =>
    show Function.update s.counter c' (addW (s.counter c') n) c % wordSize =
      (s.counter c + if c = c' then n else 0) % wordSize
    by_cases hc : c = c'
    · subst hc
      rw [Function.update_self, if_pos rfl]
      exact Nat.mod_mod _ _
    · rw [Function.update_of_ne hc, if_neg hc]
      rfl
  | _ => rfl

theorem exec_lt (i : StatsInstr) {c : StatsCounter} (hc : s.counter c < wordSize) :
    (s.exec t i).counter c < wordSize := by
  cases i with
  | add c' n =>
    show Function.update s.counter c' (addW (s.counter c') n) c < wordSize
    by_cases he : c = c'
    · rw [he, Function.update_self]
      exact Nat.mod_lt _ (by decide)
    · rwa [Function.update_of_ne he]
  | _ => exact hc

theorem step_cons {i : StatsInstr} {rest : List StatsInstr} (ht : s.todo t = i :: rest) :
    s.step t = { s.exec t i with todo := Function.update s.todo t rest } := by
  unfold step
  rw [ht]

theorem step_nil (ht : s.todo t = []) : s.step t = s := by
  unfold step
  rw [ht]

theorem step_adds (s : StatsThreads T) (t : T) :
    Adders.Adds amount wordSize s.counter (s.step t).counter s.todo (s.step t).todo t where
  idle ht := by
    rw [step_nil ht]
    exact ⟨rfl, rfl⟩
  adds i rest ht := by
    rw [step_cons ht]
    exact ⟨rfl, exec_counter i⟩

theorem counter_lt (schedule : List T) (hs : ∀ c, s.counter c < wordSize) (c : StatsCounter) :
    (Runs.after step s schedule).counter c < wordSize := by
  have hkeep : ∀ (s : StatsThreads T) (t : T), (∀ c, s.counter c < wordSize) → True →
      ∀ c, (s.step t).counter c < wordSize := fun s t hs _ c => by
    cases ht : s.todo t with
    | nil =>
      rw [step_nil ht]
      exact hs c
    | cons i rest =>
      rw [step_cons ht]
      exact exec_lt i (hs c)
  exact Runs.inv_after hkeep hs (Runs.each_of_forall (fun _ _ => trivial) s schedule) c

section
variable [Fintype T]

/-- What all the calls add to a counter. -/
def total (calls : T → List StatsCall) (c : StatsCounter) : ℕ :=
  ∑ t, ((calls t).map fun call => callAmount call c).sum

omit [DecidableEq T] in
theorem left_start (calls : T → List StatsCall) (c : StatsCounter) :
    Adders.left amount (start calls).todo c = total calls c := by
  refine Finset.sum_congr rfl fun t _ => ?_
  show (((calls t).flatMap StatsCall.instructions).map _).sum = _
  induction calls t with
  | nil => rfl
  | cons call rest ih =>
    rw [List.flatMap_cons, List.map_append, List.sum_append, List.map_cons, List.sum_cons, ih]
    rfl

end

theorem counter_done [Fintype T] (calls : T → List StatsCall) (schedule : List T)
    (hdone : ∀ t, (Runs.after step (start calls) schedule).todo t = []) (c : StatsCounter) :
    (Runs.after step (start calls) schedule).counter c = total calls c % wordSize := by
  have hadded := Adders.done step_adds (start calls) schedule hdone c
  rw [left_start] at hadded
  have hlt := counter_lt (s := start calls) schedule (fun _ => Nat.two_pow_pos 64) c
  rw [Nat.mod_eq_of_lt hlt] at hadded
  rw [hadded]
  exact congrArg (· % wordSize) (Nat.zero_add _)

end StatsThreads

/-! ## The sequential collector -/

namespace StatsCollector

def counters (g : StatsCollector) : StatsCounter → ℕ
  | .totalAllocations => g.global.totalAllocations
  | .totalAllocatedBytes => g.global.totalAllocatedBytes
  | .totalDeallocations => g.global.totalDeallocations
  | .totalFreedBytes => g.global.totalFreedBytes
  | .totalTcacheHits => g.global.totalTcacheHits
  | .totalTcacheMisses => g.global.totalTcacheMisses
  | .totalGcCollections => g.global.totalGcCollections
  | .totalGcTimeNs => g.global.totalGcTimeNs
  | .classAllocations c => (g.sizeClasses c).allocations
  | .classAllocatedBytes c => (g.sizeClasses c).allocatedBytes
  | .classDeallocations c => (g.sizeClasses c).deallocations
  | .classFreedBytes c => (g.sizeClasses c).freedBytes
  | .arenaAllocations a => (g.arenas a).allocations
  | .arenaAllocatedBytes a => (g.arenas a).allocatedBytes
  | .arenaDeallocations a => (g.arenas a).deallocations
  | .arenaFreedBytes a => (g.arenas a).freedBytes

/-- A call of a recorder, with the latency it reports. -/
def record (g : StatsCollector) (latency : ℕ) : StatsCall → StatsCollector
  | .recordAlloc size c a => g.recordAlloc size c a latency
  | .recordDealloc size c a => g.recordDealloc size c a latency
  | .recordTcacheHit => g.recordTcacheHit
  | .recordTcacheMiss => g.recordTcacheMiss
  | .recordGc timeNs => g.recordGc timeNs

section
variable {g : StatsCollector}

theorem record_enabled (hg : g.enabled = true) (latency : ℕ) (call : StatsCall) :
    (g.record latency call).enabled = true := by
  cases call <;>
    simp [record, recordAlloc, recordDealloc, recordTcacheHit, recordTcacheMiss, recordGc, hg]

/-- What `stats_record_alloc` adds to a counter. -/
def allocAmount (size c : ℕ) (a : ℤ) : StatsCounter → ℕ
  | .totalAllocations => 1
  | .totalAllocatedBytes => size
  | .classAllocations j => if c < STATS_PER_CLASS_ENTRIES ∧ j = c then 1 else 0
  | .classAllocatedBytes j => if c < STATS_PER_CLASS_ENTRIES ∧ j = c then size else 0
  | .arenaAllocations j => if (0 ≤ a ∧ a < STATS_PER_ARENA_ENTRIES) ∧ j = a.toNat then 1 else 0
  | .arenaAllocatedBytes j =>
    if (0 ≤ a ∧ a < STATS_PER_ARENA_ENTRIES) ∧ j = a.toNat then size else 0
  | _ => 0

def deallocAmount (size c : ℕ) (a : ℤ) : StatsCounter → ℕ
  | .totalDeallocations => 1
  | .totalFreedBytes => size
  | .classDeallocations j => if c < STATS_PER_CLASS_ENTRIES ∧ j = c then 1 else 0
  | .classFreedBytes j => if c < STATS_PER_CLASS_ENTRIES ∧ j = c then size else 0
  | .arenaDeallocations j => if (0 ≤ a ∧ a < STATS_PER_ARENA_ENTRIES) ∧ j = a.toNat then 1 else 0
  | .arenaFreedBytes j =>
    if (0 ≤ a ∧ a < STATS_PER_ARENA_ENTRIES) ∧ j = a.toNat then size else 0
  | _ => 0

theorem callAmount_recordAlloc (size c : ℕ) (a : ℤ) (k : StatsCounter) :
    StatsThreads.callAmount (.recordAlloc size c a) k = allocAmount size c a k := by
  by_cases hc : c < STATS_PER_CLASS_ENTRIES <;> by_cases ha : 0 ≤ a ∧ a < STATS_PER_ARENA_ENTRIES <;>
    cases k <;>
    simp [StatsThreads.callAmount, StatsCall.instructions, StatsCall.onClass, StatsCall.onArena, hc, ha,
      StatsThreads.amount, allocAmount]

theorem callAmount_recordDealloc (size c : ℕ) (a : ℤ) (k : StatsCounter) :
    StatsThreads.callAmount (.recordDealloc size c a) k = deallocAmount size c a k := by
  by_cases hc : c < STATS_PER_CLASS_ENTRIES <;> by_cases ha : 0 ≤ a ∧ a < STATS_PER_ARENA_ENTRIES <;>
    cases k <;>
    simp [StatsThreads.callAmount, StatsCall.instructions, StatsCall.onClass, StatsCall.onArena, hc, ha,
      StatsThreads.amount, deallocAmount]

/-- One entry of a table is written, if at all. -/
theorem update_booked {α : Type} (f : α → ℕ) (table : ℕ → α) (p : Prop) [Decidable p] {i : ℕ} {x : α}
    {n : ℕ} (hx : f x % wordSize = (f (table i) + n) % wordSize) (j : ℕ) :
    f ((if p then Function.update table i x else table) j) % wordSize =
      (f (table j) + if p ∧ j = i then n else 0) % wordSize := by
  by_cases hp : p
  · rw [if_pos hp]
    by_cases hj : j = i
    · rw [if_pos ⟨hp, hj⟩, hj, Function.update_self, hx]
    · rw [if_neg fun hc => hj hc.2, Function.update_of_ne hj]
      rfl
  · rw [if_neg hp, if_neg fun hc => hp hc.1]
    rfl

theorem update_unbooked {α : Type} (f : α → ℕ) (table : ℕ → α) (p : Prop) [Decidable p] {i : ℕ} {x : α}
    (hx : f x = f (table i)) (j : ℕ) :
    f ((if p then Function.update table i x else table) j) = f (table j) := by
  split
  · by_cases hj : j = i
    · rw [hj, Function.update_self, hx]
    · rw [Function.update_of_ne hj]
  · rfl

theorem recordAlloc_booked (st : SizeClassStats) (size latency : ℕ) :
    (st.recordAlloc size latency).allocations = addW st.allocations 1 ∧
      (st.recordAlloc size latency).allocatedBytes = addW st.allocatedBytes size ∧
      (st.recordAlloc size latency).deallocations = st.deallocations ∧
      (st.recordAlloc size latency).freedBytes = st.freedBytes := by
  unfold SizeClassStats.recordAlloc
  dsimp only
  split <;> exact ⟨rfl, rfl, rfl, rfl⟩

theorem addW_mod (a b : ℕ) : addW a b % wordSize = (a + b) % wordSize := Nat.mod_mod _ _

theorem counters_recordAlloc (hg : g.enabled = true) (size c : ℕ) (a : ℤ) (latency : ℕ)
    (k : StatsCounter) : (g.recordAlloc size c a latency).counters k % wordSize =
      (g.counters k + StatsThreads.callAmount (.recordAlloc size c a) k) % wordSize := by
  obtain ⟨h1, h2, h3, h4⟩ := recordAlloc_booked (g.sizeClasses c) size latency
  rw [callAmount_recordAlloc]
  unfold recordAlloc
  rw [if_pos hg]
  cases k with
  | totalAllocations => exact addW_mod _ _
  | totalAllocatedBytes => exact addW_mod _ _
  | classAllocations j =>
    exact update_booked SizeClassStats.allocations g.sizeClasses _ (by rw [h1, addW_mod]) j
  | classAllocatedBytes j =>
    exact update_booked SizeClassStats.allocatedBytes g.sizeClasses _ (by rw [h2, addW_mod]) j
  | classDeallocations j =>
    exact congrArg (· % wordSize) (update_unbooked SizeClassStats.deallocations g.sizeClasses _ h3 j)
  | classFreedBytes j =>
    exact congrArg (· % wordSize) (update_unbooked SizeClassStats.freedBytes g.sizeClasses _ h4 j)
  | arenaAllocations j => exact update_booked ArenaStats.allocations g.arenas _ (addW_mod _ _) j
  | arenaAllocatedBytes j => exact update_booked ArenaStats.allocatedBytes g.arenas _ (addW_mod _ _) j
  | arenaDeallocations j =>
    refine congrArg (· % wordSize) (update_unbooked ArenaStats.deallocations g.arenas _ ?_ j)
    rfl
  | arenaFreedBytes j =>
    refine congrArg (· % wordSize) (update_unbooked ArenaStats.freedBytes g.arenas _ ?_ j)
    rfl
  | _ => rfl

theorem counters_recordDealloc (hg : g.enabled = true) (size c : ℕ) (a : ℤ) (latency : ℕ)
    (k : StatsCounter) : (g.recordDealloc size c a latency).counters k % wordSize =
      (g.counters k + StatsThreads.callAmount (.recordDealloc size c a) k) % wordSize := by
  rw [callAmount_recordDealloc]
  unfold recordDealloc
  rw [if_pos hg]
  cases k with
  | totalDeallocations => exact addW_mod _ _
  | totalFreedBytes => exact addW_mod _ _
  | classDeallocations j =>
    exact update_booked SizeClassStats.deallocations g.sizeClasses _ (addW_mod _ _) j
  | classFreedBytes j => exact update_booked SizeClassStats.freedBytes g.sizeClasses _ (addW_mod _ _) j
  | classAllocations j =>
    refine congrArg (· % wordSize) (update_unbooked SizeClassStats.allocations g.sizeClasses _ ?_ j)
    rfl
  | classAllocatedBytes j =>
    refine congrArg (· % wordSize) (update_unbooked SizeClassStats.allocatedBytes g.sizeClasses _ ?_ j)
    rfl
  | arenaDeallocations j => exact update_booked ArenaStats.deallocations g.arenas _ (addW_mod _ _) j
  | arenaFreedBytes j => exact update_booked ArenaStats.freedBytes g.arenas _ (addW_mod _ _) j
  | arenaAllocations j =>
    refine congrArg (· % wordSize) (update_unbooked ArenaStats.allocations g.arenas _ ?_ j)
    rfl
  | arenaAllocatedBytes j =>
    refine congrArg (· % wordSize) (update_unbooked ArenaStats.allocatedBytes g.arenas _ ?_ j)
    rfl
  | _ => rfl

/-- **A recorder adds to every counter what its instructions add.** -/
theorem counters_record (hg : g.enabled = true) (latency : ℕ) (call : StatsCall) (k : StatsCounter) :
    (g.record latency call).counters k % wordSize =
      (g.counters k + StatsThreads.callAmount call k) % wordSize := by
  cases call with
  | recordAlloc size c a => exact counters_recordAlloc hg size c a latency k
  | recordDealloc size c a => exact counters_recordDealloc hg size c a latency k
  | recordTcacheHit =>
    show g.recordTcacheHit.counters k % _ = _
    unfold recordTcacheHit
    rw [if_pos hg]
    cases k with
    | totalTcacheHits => exact addW_mod _ _
    | _ => rfl
  | recordTcacheMiss =>
    show g.recordTcacheMiss.counters k % _ = _
    unfold recordTcacheMiss
    rw [if_pos hg]
    cases k with
    | totalTcacheMisses => exact addW_mod _ _
    | _ => rfl
  | recordGc timeNs =>
    show (g.recordGc timeNs).counters k % _ = _
    unfold recordGc
    rw [if_pos hg]
    cases k with
    | totalGcCollections => exact addW_mod _ _
    | totalGcTimeNs =>
      have hamount : StatsThreads.callAmount (.recordGc timeNs) .totalGcTimeNs = timeNs := Nat.zero_add _
      rw [hamount]
      exact addW_mod _ _
    | _ => rfl

theorem counters_records (hg : g.enabled = true) (calls : List (ℕ × StatsCall)) (k : StatsCounter) :
    (calls.foldl (fun g call => g.record call.1 call.2) g).counters k % wordSize =
      (g.counters k + (calls.map fun call => StatsThreads.callAmount call.2 k).sum) % wordSize := by
  induction calls generalizing g with
  | nil => rfl
  | cons call calls ih =>
    rw [List.foldl_cons, ih (record_enabled hg call.1 call.2), List.map_cons, List.sum_cons,
      ← Nat.mod_add_mod, counters_record hg, Nat.mod_add_mod, Nat.add_assoc]

end

end StatsCollector

section
open StatsThreads

/-- **No update is lost**: when all calls have returned, every counter is what the sequential collector
has after the same calls one after the other, in any order. -/
theorem stats_threads_sequential {n : ℕ} (calls : Fin n → List StatsCall) (schedule : List (Fin n))
    (hdone : ∀ t, (Runs.after step (start calls) schedule).todo t = [])
    (maxHistoryEntries begun lastUpdate : ℕ) (order : List (ℕ × StatsCall))
    (horder : (order.map Prod.snd).Perm ((List.finRange n).flatMap calls)) (k : StatsCounter) :
    (Runs.after step (start calls) schedule).counter k =
      (order.foldl (fun g call => g.record call.1 call.2)
        (StatsCollector.fresh maxHistoryEntries begun lastUpdate)).counters k % wordSize := by
  have hzero : (StatsCollector.fresh maxHistoryEntries begun lastUpdate).counters k = 0 := by
    cases k <;> rfl
  rw [counter_done calls schedule hdone, StatsCollector.counters_records rfl, hzero, Nat.zero_add]
  have hsum : (order.map fun call => callAmount call.2 k).sum = total calls k := by
    have hperm := (horder.map fun call => callAmount call k).sum_eq
    rw [List.map_map] at hperm
    rw [show (order.map fun call => callAmount call.2 k) =
      order.map ((fun call => callAmount call k) ∘ Prod.snd) from rfl, hperm]
    unfold total
    rw [Fin.sum_univ_def, List.map_flatMap]
    induction List.finRange n with
    | nil => rfl
    | cons t ts ih => rw [List.flatMap_cons, List.sum_append, List.map_cons, List.sum_cons, ih]
  rw [hsum]

theorem stats_threads_sequential_two :
    (Runs.after step (start fun _ : Fin 2 => [.recordAlloc 24 2 1, .recordDealloc 24 2 1])
        (List.replicate 16 [0, 1]).flatten).counter (.classFreedBytes 2) =
      ([(5, .recordAlloc 24 2 1), (7, .recordAlloc 24 2 1), (2, .recordDealloc 24 2 1),
          (2, .recordDealloc 24 2 1)].foldl (fun g call => g.record call.1 call.2)
        (StatsCollector.fresh 0 0 0)).counters (.classFreedBytes 2) % wordSize :=
  stats_threads_sequential _ _ (by decide +kernel) 0 0 0 _ (by decide) _

end

/-! ## The size classes and the totals -/

/-- The four counters of `stats_record_alloc` and `stats_record_dealloc`. -/
inductive StatsBook where
  | allocations
  | allocatedBytes
  | deallocations
  | freedBytes
deriving DecidableEq, Repr

namespace StatsBook

def inTotal : StatsBook → StatsCounter
  | .allocations => .totalAllocations
  | .allocatedBytes => .totalAllocatedBytes
  | .deallocations => .totalDeallocations
  | .freedBytes => .totalFreedBytes

def ofClass (c : ℕ) : StatsBook → StatsCounter
  | .allocations => .classAllocations c
  | .allocatedBytes => .classAllocatedBytes c
  | .deallocations => .classDeallocations c
  | .freedBytes => .classFreedBytes c

end StatsBook

/-- The size class that a call names has an entry. -/
def StatsCall.ClassInRange : StatsCall → Prop
  | .recordAlloc _ c _ => c < STATS_PER_CLASS_ENTRIES
  | .recordDealloc _ c _ => c < STATS_PER_CLASS_ENTRIES
  | _ => True

namespace StatsThreads

theorem callAmount_split {call : StatsCall} (hcall : call.ClassInRange) (b : StatsBook) :
    ∑ c ∈ Finset.range STATS_PER_CLASS_ENTRIES, callAmount call (b.ofClass c) =
      callAmount call b.inTotal := by
  cases call with
  | recordAlloc size c a =>
    have hc : c < STATS_PER_CLASS_ENTRIES := hcall
    simp only [StatsCollector.callAmount_recordAlloc]
    cases b <;>
      simp [StatsBook.ofClass, StatsBook.inTotal, StatsCollector.allocAmount, hc]
  | recordDealloc size c a =>
    have hc : c < STATS_PER_CLASS_ENTRIES := hcall
    simp only [StatsCollector.callAmount_recordDealloc]
    cases b <;>
      simp [StatsBook.ofClass, StatsBook.inTotal, StatsCollector.deallocAmount, hc]
  | _ =>
    cases b <;>
      simp [StatsBook.ofClass, StatsBook.inTotal, callAmount, StatsCall.instructions, amount]

theorem total_split {T : Type} [Fintype T] {calls : T → List StatsCall}
    (hcalls : ∀ t, ∀ call ∈ calls t, call.ClassInRange) (b : StatsBook) :
    ∑ c ∈ Finset.range STATS_PER_CLASS_ENTRIES, total calls (b.ofClass c) = total calls b.inTotal := by
  unfold total
  rw [Finset.sum_comm]
  refine Finset.sum_congr rfl fun t _ => ?_
  have hthread := hcalls t
  generalize calls t = cs at hthread ⊢
  induction cs with
  | nil => simp
  | cons call rest ih =>
    simp only [List.map_cons, List.sum_cons, Finset.sum_add_distrib]
    rw [callAmount_split (hthread call List.mem_cons_self),
      ih fun c hc => hthread c (List.mem_cons_of_mem _ hc)]

end StatsThreads

section
open StatsThreads

/-- **The size classes add up to the totals** when all calls have returned. -/
theorem stats_threads_split {n : ℕ} (calls : Fin n → List StatsCall) (schedule : List (Fin n))
    (hcalls : ∀ t, ∀ call ∈ calls t, call.ClassInRange)
    (hdone : ∀ t, (Runs.after step (start calls) schedule).todo t = []) (b : StatsBook) :
    (Runs.after step (start calls) schedule).counter b.inTotal =
      (∑ c ∈ Finset.range STATS_PER_CLASS_ENTRIES,
        (Runs.after step (start calls) schedule).counter (b.ofClass c)) % wordSize := by
  simp only [counter_done calls schedule hdone]
  rw [← Finset.sum_nat_mod, total_split hcalls]

theorem stats_threads_split_two :
    (Runs.after step (start fun t : Fin 2 => [.recordAlloc 24 t 1])
        (List.replicate 10 [0, 1]).flatten).counter .totalAllocatedBytes =
      (∑ c ∈ Finset.range STATS_PER_CLASS_ENTRIES,
        (Runs.after step (start fun t : Fin 2 => [.recordAlloc 24 t 1])
          (List.replicate 10 [0, 1]).flatten).counter (.classAllocatedBytes c)) % wordSize :=
  stats_threads_split (fun t : Fin 2 => [.recordAlloc 24 t 1]) _
    (fun t call hcall => by
      rw [List.mem_singleton] at hcall
      subst hcall
      exact lt_trans t.isLt (show 2 < STATS_PER_CLASS_ENTRIES by decide))
    (by decide +kernel) .allocatedBytes

/-- One thread reads the count of allocations, the other makes two and frees both, and the first one takes
the count of deallocations from what it has read. -/
theorem stats_peak_races :
    (Runs.after step (start fun t : Fin 2 => if t = 0 then [.recordAlloc 8 0 0] else
        [.recordAlloc 8 0 0, .recordDealloc 8 0 0, .recordAlloc 8 0 0, .recordDealloc 8 0 0])
      (List.replicate 5 0 ++ List.replicate 32 1 ++ List.replicate 5 0)).peakObjects 0 = 2 ^ 64 - 1 := by
  decide +kernel

end

end Nomalloc
