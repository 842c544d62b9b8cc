import Nomalloc.Debug.StatsCollector
import Nomalloc.Lib.Runs
import Nomalloc.Lib.Window

/-!
# The history of the statistics

`stats_collector_update_history` keeps the last `capacity` snapshots of the totals: it is a
`Window`, whose items are moved down one by one when it is full.

* `HistorySys`              a collector with what its counters read at the updates since it was last
                            set up or reset;
* `holds_update`            one update puts one snapshot into the window;
* `stats_history_window`    after any calls the history is the last of these snapshots, in order.
-/

namespace Nomalloc

/-- A collector, with the snapshots taken since it was set up or reset: what its counters read when
`stats_collector_update_history` was called. -/
structure HistorySys where
  collector : StatsCollector
  taken : List StatsHistoryEntry

namespace HistorySys

/-- The counters at the time `now`. -/
def reading (s : HistorySys) (now : ℕ) : StatsHistoryEntry :=
  let global := s.collector.global
  { timestamp := now
    totalAllocated := global.totalAllocatedBytes
    totalFreed := global.totalFreedBytes
    activeAllocations := subW global.totalAllocatedBytes global.totalFreedBytes }

def step (cap : ℕ) (s : HistorySys) (op : StatsOp) : HistorySys where
  collector := s.collector.step cap op
  taken := match op with
    | .init _ _ | .enable _ _ => if s.collector.initialized then s.taken else []
    | .reset _ _ => []
    | .updateHistory now _ => s.taken ++ [s.reading now]
    | _ => s.taken

def fresh (cap start lastUpdate : ℕ) : HistorySys := ⟨.fresh cap start lastUpdate, []⟩

/-- The history is full, or has all snapshots; and it has the last of them. -/
def Windowed (s : HistorySys) : Prop :=
  let h := s.collector.history
  h.count = min s.taken.length h.capacity ∧
    h.entries.take h.count = s.taken.drop (s.taken.length - h.count)

/-- The invariant: the entries are a window of the snapshots. -/
structure Inv (cap : ℕ) (s : HistorySys) : Prop where
  capacity : s.collector.history.capacity = cap
  holds : Window.Holds cap s.collector.history.entries s.collector.history.count s.taken

/-- What a call does to the history, and to the snapshots taken. -/
inductive HistoryChange (cap : ℕ) (s : HistorySys) : StatsHistory → List StatsHistoryEntry → Prop
  | same : HistoryChange cap s s.collector.history s.taken
  | setUp : HistoryChange cap s ⟨List.replicate cap default, 0, cap⟩ []
  | cleared : HistoryChange cap s { s.collector.history with count := 0 } []
  | updated (now : ℕ) : HistoryChange cap s (s.collector.history.update (s.reading now))
      (s.taken ++ [s.reading now])

variable {cap : ℕ} {s : HistorySys}

/-- `stats_collector_update_history` writes what the counters read. -/
theorem snapshot_eq (s : HistorySys) (now : ℕ) : s.collector.snapshot now = s.reading now := rfl

theorem change (cap : ℕ) (s : HistorySys) (op : StatsOp) :
    HistoryChange cap s (s.step cap op).collector.history (s.step cap op).taken := by
  have hsame : ∀ h : StatsHistory, h = s.collector.history → HistoryChange cap s h s.taken :=
    fun h he => he ▸ .same
  cases op with
  | init start lastUpdate =>
    show HistoryChange cap s (s.collector.init cap start lastUpdate).history (if _ then _ else _)
    unfold StatsCollector.init
    by_cases h : s.collector.initialized
    · rw [if_pos h, if_pos h]
      exact .same
    · rw [if_neg h, if_neg h]
      exact .setUp
  | enable start lastUpdate =>
    show HistoryChange cap s (s.collector.enable cap start lastUpdate).history (if _ then _ else _)
    rw [StatsCollector.enable_eq]
    by_cases h : s.collector.initialized
    · rw [if_pos h, if_pos h]
      exact .same
    · rw [if_neg h, if_neg h]
      exact .setUp
  | shutdown => exact hsame _ s.collector.shutdown_keeps.1
  | disable => exact hsame _ s.collector.disable_keeps.1
  | recordAlloc size classIdx arenaId latency => exact hsame _ (s.collector.recordAlloc_history ..)
  | recordDealloc size classIdx arenaId latency =>
    exact hsame _ (s.collector.recordDealloc_history ..)
  | recordTcacheHit => exact hsame _ s.collector.recordTcacheHit_keeps.1
  | recordTcacheMiss => exact hsame _ s.collector.recordTcacheMiss_keeps.1
  | recordGc timeNs => exact hsame _ (s.collector.recordGc_keeps timeNs).1
  | updateGlobal now => exact .same
  | updateHistory now later =>
    show HistoryChange cap s (s.collector.history.update (s.collector.snapshot now))
      (s.taken ++ [s.reading now])
    rw [snapshot_eq]
    exact .updated now
  | reset start lastUpdate => exact .cleared

/-- **Update.**  The window takes one more snapshot. -/
theorem holds_update (hcap : 0 < cap) (hlt : cap < wordSize) {h : StatsHistory}
    {taken : List StatsHistoryEntry} (hcapacity : h.capacity = cap)
    (hholds : Window.Holds cap h.entries h.count taken) (entry : StatsHistoryEntry) :
    Window.Holds cap (h.update entry).entries (h.update entry).count (taken ++ [entry]) := by
  have hle : h.count ≤ cap := hholds.count_eq ▸ min_le_right _ _
  unfold StatsHistory.update
  by_cases hfull : h.capacity ≤ h.count
  · rw [if_pos hfull, hcapacity, subW_eq hcap hlt]
    have hcount : addW (cap - 1) 1 = cap := by rw [addW_eq (by omega)]; omega
    show Window.Holds cap ((Window.shiftDown default (cap - 1) h.entries).set (cap - 1) entry)
      (addW (cap - 1) 1) _
    rw [hcount]
    exact hholds.pushFull hcap (hcapacity ▸ hfull) default entry
  · rw [if_neg hfull]
    have hroom : h.count < cap := by omega
    show Window.Holds cap (h.entries.set h.count entry) (addW h.count 1) _
    rw [addW_eq (by omega)]
    exact hholds.push hroom entry

theorem capacity_update (h : StatsHistory) (entry : StatsHistoryEntry) :
    (h.update entry).capacity = h.capacity := by
  unfold StatsHistory.update
  split_ifs <;> rfl

theorem Inv.step (hcap : 0 < cap) (hlt : cap < wordSize) (hs : s.Inv cap) (op : StatsOp) :
    (s.step cap op).Inv cap := by
  have hchange := change cap s op
  suffices hnext : ∀ h taken, HistoryChange cap s h taken →
      h.capacity = cap ∧ Window.Holds cap h.entries h.count taken from
    ⟨(hnext _ _ hchange).1, (hnext _ _ hchange).2⟩
  intro h taken hchange
  cases hchange with
  | same => exact ⟨hs.capacity, hs.holds⟩
  | setUp => exact ⟨rfl, .nil (List.length_replicate ..)⟩
  | cleared => exact ⟨hs.capacity, .nil hs.holds.length⟩
  | updated now =>
    exact ⟨(capacity_update _ _).trans hs.capacity, holds_update hcap hlt hs.capacity hs.holds _⟩

theorem Inv.windowed (hs : s.Inv cap) : s.Windowed := by
  have hcount := hs.holds.count_eq
  refine ⟨hs.capacity.symm ▸ hcount, hs.holds.items.trans ?_⟩
  unfold Window.lastN
  congr 1
  omega

end HistorySys

/-- **The history** is the last snapshots taken, as many as it has room for. -/
theorem stats_history_window {cap : ℕ} (hcap : 0 < cap) (hlt : cap < wordSize)
    (start lastUpdate : ℕ) (ops : List StatsOp) :
    Runs.Always (HistorySys.step cap) HistorySys.Windowed (HistorySys.fresh cap start lastUpdate)
      ops := by
  have hinit : (HistorySys.fresh cap start lastUpdate).Inv cap :=
    ⟨rfl, .nil (List.length_replicate ..)⟩
  have hrun := Runs.inv_always (C := fun _ _ => True) (fun _ op hs _ => hs.step hcap hlt op) hinit
    (Runs.each_of_forall (fun _ _ => trivial) _ ops)
  exact hrun.mono fun _ hs => hs.windowed

/-- A history of two entries after three updates. -/
theorem stats_history_two :
    Runs.Always (HistorySys.step 2) HistorySys.Windowed (HistorySys.fresh 2 0 0)
      [.updateHistory 1 1, .recordAlloc 64 4 0 20, .updateHistory 2 2, .recordDealloc 64 4 0 30,
        .updateHistory 3 3] :=
  stats_history_window (by decide) (by decide) 0 0 _

end Nomalloc
